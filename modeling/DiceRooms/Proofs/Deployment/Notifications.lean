import DiceRooms.Proofs.Deployment.LifeCycle
import DiceRooms.Proofs.Deployment.Registrations

/-!
Notifications of a hub that works without a broker. What is registered when one begins is
its audience; each member of it is invoked once, with the roll of the notification, and
nothing that is registered or removed later changes that. The notification is answered when
all invocations have ended.
-/
namespace DiceRooms

/-! Which handlers are invoked, as the history tells. -/

/-- A handler is called with a roll, in the dispatch of the given number. -/
structure Invoked where
  dispatch : Nat
  subscriber : String
  handler : Handler
  roll : Roll

def Invocation.hasBegun (inv : Invocation) : Bool :=
  inv.progress != .waiting

namespace Dispatch

def invoke (n : Nat) (p : Dispatch) (inv : Invocation) : Invoked :=
  ⟨n, inv.subscriber, inv.handler, p.roll⟩

/-- The invocations of a dispatch that have begun. -/
def invoked (n : Nat) (p : Dispatch) : List Invoked :=
  (p.broadcast.filter Invocation.hasBegun).map (p.invoke n)

end Dispatch

/-- The invocation that begins with the event. -/
def Event.invokes? (c : Core) : Event → Option Invoked
  | proceed n i .waiting _ => do
    let p ← c.dispatches[n]?
    let inv ← p.broadcast[i]?
    some (p.invoke n inv)
  | _ => none

def History.invoked (h : History) : List Invoked :=
  h.filterMap fun s => s.2.invokes? s.1

/-- The invocations of one dispatch. -/
def History.invokedIn (h : History) (n : Nat) : List Invoked :=
  h.invoked.filter (·.dispatch = n)

def Core.invokedIn (c : Core) (n : Nat) : List Invoked :=
  ((c.dispatches[n]?).map (Dispatch.invoked n)).getD []

theorem History.invokedIn_concat (h : History) (s : Core × Event) (n : Nat) :
    History.invokedIn (h ++ [s]) n =
      h.invokedIn n ++ (s.2.invokes? s.1).toList.filter (·.dispatch = n) := by
  rw [invokedIn, invoked, Broker.filterMap_concat, List.filter_append]
  rfl

/-- One more member of a list comes to satisfy a condition. -/
theorem filter_modify_perm {α : Type} {P : α → Bool} {f : α → α} {l : List α} {i : Nat} {a : α}
    (hi : l[i]? = some a) (hbefore : P a = false) (hafter : P (f a) = true) :
    ((l.modify i f).filter P).Perm (l.filter P ++ [f a]) := by
  induction l generalizing i with
  | nil => cases hi
  | cons b l ih =>
      cases i with
      | zero =>
          obtain rfl : b = a := Option.some.inj hi
          rw [List.modify_zero_cons, List.filter_cons_of_pos hafter,
            List.filter_cons_of_neg (by simp [hbefore])]
          exact (List.perm_append_singleton (f b) (l.filter P)).symm
      | succ i =>
          have hrest := ih hi
          rw [List.modify_succ_cons, List.filter_cons, List.filter_cons]
          split
          · exact hrest.cons b
          · exact hrest

/-- A change that shows in none of the members that satisfy a condition. -/
theorem filter_map_modify_of_same {α β : Type} {P : α → Bool} {f : α → α} {g : α → β} {l : List α}
    {i : Nat} (h : ∀ a, l[i]? = some a → P (f a) = P a ∧ g (f a) = g a) :
    ((l.modify i f).filter P).map g = (l.filter P).map g := by
  induction l generalizing i with
  | nil => rw [List.modify_nil]
  | cons b l ih =>
      cases i with
      | zero =>
          obtain ⟨hP, hg⟩ := h b rfl
          rw [List.modify_zero_cons, List.filter_cons, List.filter_cons, hP]
          split
          · rw [List.map_cons, List.map_cons, hg]
          · rfl
      | succ i =>
          have hrest := ih (i := i) h
          rw [List.modify_succ_cons, List.filter_cons, List.filter_cons]
          split
          · rw [List.map_cons, List.map_cons, hrest]
          · exact hrest

namespace Dispatch

variable {p : Dispatch} {n i : Nat} {inv : Invocation} {after : Progress}

theorem invoked_proceed_of_waiting (hinv : p.broadcast[i]? = some inv)
    (hwaiting : inv.progress = .waiting) (hafter : after ≠ .waiting) :
    ((p.proceed i after).invoked n).Perm (p.invoked n ++ [p.invoke n inv]) := by
  have hbegun := filter_modify_perm (f := fun inv => { inv with progress := after }) hinv
    (P := Invocation.hasBegun) (by simp [Invocation.hasBegun, hwaiting])
    (by simpa [Invocation.hasBegun] using hafter)
  have hmap := hbegun.map (p.invoke n)
  rw [List.map_append] at hmap
  exact hmap

theorem invoked_proceed_of_begun (hinv : p.broadcast[i]? = some inv)
    (hbefore : inv.progress ≠ .waiting) (hafter : after ≠ .waiting) :
    (p.proceed i after).invoked n = p.invoked n := by
  refine filter_map_modify_of_same (g := p.invoke n) ?_
  intro a ha
  obtain rfl : inv = a := Option.some.inj (hinv.symm.trans ha)
  exact ⟨(bne_iff_ne.mpr hafter).trans (bne_iff_ne.mpr hbefore).symm, rfl⟩

end Dispatch

theorem invoked_of_opened {e : Event} {p : Dispatch} (h : e.opened? = some p) (n : Nat) :
    p.invoked n = [] := by
  have hnone : p.broadcast.filter Invocation.hasBegun = [] := by
    apply List.filter_eq_nil_iff.mpr
    intro inv hinv
    simp [Invocation.hasBegun, waiting_of_opened h inv hinv]
  rw [Dispatch.invoked, hnone, List.map_nil]

theorem invokes?_eq_some {c : Core} {e : Event} {v : Invoked} (h : e.invokes? c = some v) :
    ∃ n i after p inv, e = .proceed n i .waiting after ∧ c.dispatches[n]? = some p ∧
      p.broadcast[i]? = some inv ∧ v = p.invoke n inv := by
  cases e with
  | proceed n i first after =>
      cases first with
      | waiting =>
          simp only [Event.invokes?, Option.bind_eq_bind, Option.bind_eq_some_iff] at h
          obtain ⟨p, hp, inv, hinv, hv⟩ := h
          exact ⟨n, i, after, p, inv, rfl, hp, hinv, (Option.some.inj hv).symm⟩
      | running | ended _ => cases h
  | _ => cases h

theorem Core.invokedIn_of_some {c : Core} {n : Nat} {p : Dispatch}
    (hp : c.dispatches[n]? = some p) : c.invokedIn n = p.invoked n := by
  rw [invokedIn, hp]
  rfl

theorem Core.invokedIn_of_le {c : Core} {n : Nat} (hn : c.dispatches.length ≤ n) :
    c.invokedIn n = [] := by
  rw [invokedIn, List.getElem?_eq_none hn]
  rfl

/-- Nobody is invoked in a dispatch that has not begun. -/
theorem invokedIn_apply_of_le {c : Core} {n : Nat} (hn : c.dispatches.length ≤ n) (e : Event) :
    (c.apply e).invokedIn n = [] := by
  rw [Core.invokedIn, Core.getElem?_dispatches_apply]
  split
  · cases hopened : e.opened? with
    | none => rfl
    | some p => exact invoked_of_opened hopened n
  · rw [List.getElem?_eq_none hn]
    rfl

theorem invokes?_elsewhere {c : Core} {e : Event} {n : Nat}
    (h : ∀ i after, e = .proceed n i .waiting after → c.dispatches[n]? = none) :
    (e.invokes? c).toList.filter (·.dispatch = n) = [] := by
  cases hinvokes : e.invokes? c with
  | none => rfl
  | some v =>
      obtain ⟨k, i, after, p, inv, rfl, hp, -, rfl⟩ := invokes?_eq_some hinvokes
      have hne : k ≠ n := by
        rintro rfl
        rw [h i after rfl] at hp
        cases hp
      simp [Dispatch.invoke, hne]

/-- An event invokes a handler just when one more invocation of its dispatch has begun. -/
theorem invokedIn_apply {c : Core} {e : Event} (possible : e.Possible c) (n : Nat) :
    ((c.apply e).invokedIn n).Perm
      (c.invokedIn n ++ (e.invokes? c).toList.filter (·.dispatch = n)) := by
  cases hp : c.dispatches[n]? with
  | none =>
      have hle := List.getElem?_eq_none_iff.mp hp
      rw [invokedIn_apply_of_le hle, Core.invokedIn_of_le hle, invokes?_elsewhere fun _ _ _ => hp]
      exact .nil
  | some p =>
      rw [Core.invokedIn_of_some (Core.getElem?_dispatches_apply_of_some hp e),
        Core.invokedIn_of_some hp]
      have same : (e.onDispatch n p).invoked n = p.invoked n →
          (∀ i after, e ≠ .proceed n i .waiting after) →
          ((e.onDispatch n p).invoked n).Perm
            (p.invoked n ++ (e.invokes? c).toList.filter (·.dispatch = n)) := by
        intro hsame hnot
        rw [hsame, invokes?_elsewhere fun i after he => (hnot i after he).elim, List.append_nil]
      cases e with
      | proceed k i first after =>
          by_cases hk : k = n
          · subst hk
            obtain ⟨hrank, p', inv, hp', hinv, rfl⟩ := possible
            obtain rfl : p = p' := Option.some.inj (hp.symm.trans hp')
            have hafter : after ≠ .waiting := by
              rintro rfl
              cases hrank
            rw [Event.onDispatch, if_pos rfl]
            cases hfirst : inv.progress with
            | waiting =>
                have hbegun := Dispatch.invoked_proceed_of_waiting (n := k) hinv hfirst hafter
                simpa [Event.invokes?, hp, hinv, Dispatch.invoke] using hbegun
            | running | ended _ =>
                have hbefore : inv.progress ≠ .waiting := by simp [hfirst]
                rw [Dispatch.invoked_proceed_of_begun hinv hbefore hafter]
                simp [Event.invokes?]
          · refine same ?_ ?_
            · rw [Event.onDispatch, if_neg hk]
            · rintro i' after' ⟨⟩
              exact hk rfl
      | conclude k q =>
          refine same ?_ (fun _ _ he => by cases he)
          rw [Event.onDispatch]
          split <;> rfl
      | _ => exact same rfl fun _ _ he => by cases he

theorem Reached.invokedIn_perm {h : History} {c : Core} (reached : Reached h c) (n : Nat) :
    (h.invokedIn n).Perm (c.invokedIn n) := by
  induction reached with
  | start => exact .nil
  | @step h c e before possible ih =>
      rw [History.invokedIn_concat]
      exact (ih.append_right _).trans (invokedIn_apply possible n).symm

/-! Whom a dispatch has to invoke. -/

namespace Dispatch

/-- The invocations that a dispatch is for. -/
def calls (n : Nat) (r : Roll) (audience : List (String × Handler)) : List Invoked :=
  audience.map fun (subscriber, f) => ⟨n, subscriber, f, r⟩

theorem calls_audience (n : Nat) (p : Dispatch) :
    calls n p.roll p.audience = p.broadcast.map (p.invoke n) := by
  rw [calls, audience, List.map_map]
  rfl

/-- The invocations that have not begun. -/
def pending (n : Nat) (p : Dispatch) : List Invoked :=
  (p.broadcast.filter (! Invocation.hasBegun ·)).map (p.invoke n)

theorem invoked_append_pending (n : Nat) (p : Dispatch) :
    (p.invoked n ++ p.pending n).Perm (calls n p.roll p.audience) := by
  rw [calls_audience, invoked, pending, ← List.map_append]
  exact (List.filter_append_perm Invocation.hasBegun p.broadcast).map (p.invoke n)

theorem pending_of_over {p : Dispatch} (hover : p.broadcast.isOver = true) (n : Nat) :
    p.pending n = [] := by
  have hnone : p.broadcast.filter (! Invocation.hasBegun ·) = [] := by
    apply List.filter_eq_nil_iff.mpr
    intro inv hinv
    have hended := (isEnded_iff inv).mp (List.all_eq_true.mp hover inv hinv)
    cases hprogress : inv.progress with
    | waiting => rw [hprogress] at hended; cases hended
    | running | ended _ => simp [Invocation.hasBegun, hprogress]
  rw [pending, hnone, List.map_nil]

end Dispatch

theorem telling_onDispatch (n : Nat) (p : Dispatch) (e : Event) :
    (e.onDispatch n p).telling = p.telling := by
  cases e with
  | proceed k i first after =>
      rw [Event.onDispatch]
      split
      · exact telling_proceed i after p
      · rfl
  | conclude k q =>
      rw [Event.onDispatch]
      split <;> rfl
  | _ => rfl

namespace Deployment

/-- What a notification has been answered so far: one that is told to handlers ends well
when its dispatch is concluded, however they have ended. -/
def answer? (d : Deployment) : Notified → Option (Except HubError Unit)
  | .done result => some result
  | .dispatched n => if d.isConcluded n then some (.ok ()) else none

/-- A dispatch that a caller waits for, begun after the events before. -/
structure Tells (before h : History) (d : Deployment) (e : Endpoint) (r : Roll) (n : Nat)
    (p : Dispatch) : Prop where
  /-- Its audience are the subscribers registered when it began, with their handlers. -/
  nodup : (p.audience.map Prod.fst).Nodup
  registered : ∀ subscriber f, (subscriber, f) ∈ p.audience ↔
    before.registered e.hub r.room subscriber = some f
  /-- Each of them has been invoked with the roll, once, or will be. -/
  invoked : (h.invokedIn n ++ p.pending n).Perm (Dispatch.calls n r p.audience)
  allInvoked : p.broadcast.isOver = true → (h.invokedIn n).Perm (Dispatch.calls n r p.audience)
  answered : ∀ result, d.answer? (.dispatched n) = some result →
    result = .ok () ∧ p.broadcast.isOver = true
  starts : ∀ {i inv}, p.broadcast[i]? = some inv → inv.progress = .waiting →
    ∃ d', d.perform (.start n i) = some d'
  finishes : ∀ {i inv}, p.broadcast[i]? = some inv → inv.progress = .running →
    ∀ o, ∃ d', d.perform (.finish n i o) = some d'
  /-- When all have ended the caller gets the answer, if it has not got it, and every layer
  measures a success. -/
  concludes : p.broadcast.isOver = true → d.answer? (.dispatched n) = some (.ok ()) ∨
    ∃ d', d.perform (.conclude n) = some d' ∧ d'.answer? (.dispatched n) = some (.ok ()) ∧
      d'.measurements = d.measurements ++ e.layers.map (Measurement.of · .notify true)

section
variable {d d' : Deployment} {n : Nat} {p : Dispatch}

theorem answer?_dispatched (hp : d.dispatches[n]? = some p) :
    d.answer? (.dispatched n) = if p.concluded then some (.ok ()) else none := by
  simp [answer?, isConcluded, hp]

/-- Concluding a dispatch that a caller waits for is a success for every layer. -/
theorem conclude_of_caller {e : Endpoint} (hp : d.dispatches[n]? = some p)
    (howner : p.owner = .caller e) (hover : p.broadcast.isOver = true)
    (hopen : p.concluded = false) :
    ∃ d', d.perform (.conclude n) = some d' ∧ d'.answer? (.dispatched n) = some (.ok ()) ∧
      d'.measurements = d.measurements ++ e.layers.map (Measurement.of · .notify true) := by
  have hlt := (Array.getElem?_eq_some_iff.mp hp).1
  have hperform : d.perform (.conclude n) =
      some (((d.setDispatch n { p with concluded := true }).tell (failureNotices p)).settle p) := by
    simp [perform, conclude, hp, hover, hopen]
  have hsettle : ∀ d₀ : Deployment,
      (d₀.settle p).dispatches = d₀.dispatches ∧ (d₀.settle p).measurements =
        d₀.measurements ++ e.layers.map (Measurement.of · .notify true) := by
    intro d₀
    simp only [settle, howner]
    split <;> exact ⟨rfl, rfl⟩
  obtain ⟨hdispatches, hmeasurements⟩ :=
    hsettle ((d.setDispatch n { p with concluded := true }).tell (failureNotices p))
  refine ⟨_, hperform, ?_, hmeasurements⟩
  rw [answer?, isConcluded, hdispatches]
  simp [setDispatch, tell, hlt]

theorem tells_of_telling {before h : History} {c₀ : Core} {e : Endpoint}
    {registry : Registry Handler} {r : Roll} (reached₀ : Reached before c₀)
    (hhub : c₀.hubs[e.hub]? = some (.memory registry)) (reached : Reached h d.core)
    (hp : d.dispatches[n]? = some p)
    (htelling : p.telling = ⟨.caller e, r, registry.snapshot r.room⟩) :
    Tells before h d e r n p := by
  obtain ⟨howner, rfl, haudience⟩ := Telling.mk.inj htelling
  have hkeyed : registry.Keyed :=
    reached₀.keyed (.memory registry) (List.mem_of_getElem? hhub) registry rfl
  have hcore := (getElem?_core_dispatches d n).trans hp
  have hperm := reached.invokedIn_perm n
  rw [Core.invokedIn_of_some hcore] at hperm
  have hinvoked := (hperm.append_right (p.pending n)).trans (p.invoked_append_pending n)
  refine ⟨?_, ?_, hinvoked, ?_, ?_, perform_start hp, perform_finish hp, ?_⟩
  · rw [haudience]
    exact Registry.nodup_snapshot hkeyed p.roll.room
  · intro subscriber f
    rw [haudience, Registry.mem_snapshot_iff hkeyed, reached₀.get?_registry hhub rfl]
  · intro hover
    rw [Dispatch.pending_of_over hover, List.append_nil] at hinvoked
    exact hinvoked
  · intro result hresult
    rw [answer?_dispatched hp] at hresult
    split at hresult
    · next hconcluded =>
        cases hresult
        exact ⟨rfl, reached.over_of_concluded hcore hconcluded⟩
    · cases hresult
  · intro hover
    cases hopen : p.concluded with
    | true =>
        rw [answer?_dispatched hp, hopen]
        exact .inl rfl
    | false => exact .inr (conclude_of_caller hp howner hover hopen)

/-- Whatever has happened since it began, a dispatch that a caller waits for invokes the
handlers registered when it began. -/
theorem notify_tells {as bs : List Action} {e : Endpoint} {registry : Registry Handler} {r : Roll}
    (before : Run .empty as d) (hhub : d.hubs[e.hub]? = some (.memory registry))
    (since : Run d (.notify e r :: bs) d') :
    ∃ n p, (d.notify e r).2 = .dispatched n ∧ d'.dispatches[n]? = some p ∧
      Tells (history .empty as) (history .empty (as ++ .notify e r :: bs)) d' e r n p := by
  have hevent : d.event (.notify e r) = .tell e registry r := by simp [event, notifyEvent, hhub]
  have hsize : d.core.dispatches.length = d.dispatches.size := Array.length_toList
  have reached := (before.append since).reached
  obtain _ | @⟨_, d₁, _, _, _, step, rest⟩ := since
  have happens := happens_perform step
  rw [hevent] at happens
  -- The dispatch is there after the first step, and nobody changes whom it is for.
  have hbegins : ∃ p, d₁.core.dispatches[d.dispatches.size]? = some p ∧
      p.telling = ⟨.caller e, r, registry.snapshot r.room⟩ := by
    refine ⟨.begin (.caller e) registry r, ?_, telling_begin (.caller e) registry r⟩
    rw [happens.core_eq, Core.getElem?_dispatches_apply, if_pos hsize.symm]
    rfl
  have kept : ∀ {h c ev}, Reached h c → Event.Possible c ev →
      (∃ p, c.dispatches[d.dispatches.size]? = some p ∧
        p.telling = ⟨.caller e, r, registry.snapshot r.room⟩) →
      ∃ p, (c.apply ev).dispatches[d.dispatches.size]? = some p ∧
        p.telling = ⟨.caller e, r, registry.snapshot r.room⟩ := by
    rintro h c ev - - ⟨p, hp, htelling⟩
    exact ⟨_, Core.getElem?_dispatches_apply_of_some hp ev,
      (telling_onDispatch _ p ev).trans htelling⟩
  have reached₁ := (before.append (.single step)).reached
  obtain ⟨⟨p, hp, htelling⟩, -⟩ := rest.along kept reached₁ hbegins
  have hp' : d'.dispatches[d.dispatches.size]? = some p := by
    rw [← Array.getElem?_toList]
    exact hp
  refine ⟨d.dispatches.size, p, ?_, hp', tells_of_telling before.reached hhub reached hp' htelling⟩
  simp only [notify, hhub]
  rfl

end

/-- A memory hub with two subscribers in the room of the roll. -/
def gathering : List Action :=
  [.openMemory, .subscribe ⟨0, []⟩ "r" "s" (.outside 0 "old"),
    .subscribe ⟨0, []⟩ "r" "t" (.outside 1 "other")]

/-- While the first of them is running both subscriptions change, and the hub is notified
again; then all end, each in its own way. -/
def meddling : List Action :=
  [.start 0 0, .subscribe ⟨0, []⟩ "r" "s" (.outside 2 "new"), .unsubscribe ⟨0, []⟩ "r" "t",
    .notify ⟨0, []⟩ oneRoll, .start 1 0, .start 0 1, .finish 0 1 (.failure "lost"),
    .finish 0 0 (.panic .untold), .finish 1 0 .success, .conclude 1, .conclude 0]

theorem notify_tells_meddling :
    ∃ d d' registry p, Run .empty gathering d ∧ d.hubs[0]? = some (.memory registry) ∧
      Run d (.notify ⟨0, []⟩ oneRoll :: meddling) d' ∧ d'.dispatches[0]? = some p ∧
      d'.answer? (.dispatched 0) = some (.ok ()) ∧
      ((history .empty (gathering ++ .notify ⟨0, []⟩ oneRoll :: meddling)).invokedIn 0).Perm
        [⟨0, "s", .outside 0 "old", oneRoll⟩, ⟨0, "t", .outside 1 "other", oneRoll⟩] := by
  obtain ⟨d, hd⟩ : ∃ d, gathering.foldlM perform .empty = some d := ⟨_, rfl⟩
  have run := run_iff.mpr hd
  obtain ⟨d', hd'⟩ :
      ∃ d', (Action.notify ⟨0, []⟩ oneRoll :: meddling).foldlM perform d = some d' := by
    cases hd
    exact ⟨_, rfl⟩
  have hhub : ∃ registry, d.hubs[0]? = some (.memory registry) := by
    cases hd
    exact ⟨_, rfl⟩
  have hend : d'.answer? (.dispatched 0) = some (.ok ()) ∧ ∃ p, d'.dispatches[0]? = some p ∧
      p.audience = [("s", .outside 0 "old"), ("t", .outside 1 "other")] := by
    cases hd
    cases hd'
    exact ⟨rfl, _, rfl, rfl⟩
  have hnumber : (d.notify ⟨0, []⟩ oneRoll).2 = .dispatched 0 := by
    cases hd
    rfl
  obtain ⟨registry, hhub⟩ := hhub
  obtain ⟨hanswer, p, hp, haudience⟩ := hend
  obtain ⟨n, p', hn, hp', tells⟩ := notify_tells run hhub (run_iff.mpr hd')
  obtain rfl : 0 = n := Notified.dispatched.inj (hnumber.symm.trans hn)
  obtain rfl : p = p' := Option.some.inj (hp.symm.trans hp')
  have hall := tells.allInvoked (tells.answered _ hanswer).2
  rw [haudience] at hall
  exact ⟨d, d', registry, p, run, hhub, run_iff.mpr hd', hp, hanswer, hall⟩

end Deployment

end DiceRooms
