import DiceRooms.Proofs.Deployment.Perform

/-!
Histories of deployments: the events that have happened, each with the core it met. What
holds at the beginning and is kept by every event that is possible holds after every run.
The second half says what an event makes of each hub, of each dispatch and of the tokens.
-/
namespace DiceRooms

/-- The newest event comes last. -/
abbrev History := List (Core × Event)

def Core.empty : Core := ⟨.empty, [], [], .empty⟩

/-- The history leads to the core. -/
inductive Reached : History → Core → Prop
  | start : Reached [] .empty
  | step {h : History} {c : Core} {e : Event} (before : Reached h c)
      (possible : e.Possible c) : Reached (h ++ [(c, e)]) (c.apply e)

namespace Deployment

/-- What happens when the actions are carried out, up to the first that cannot be. -/
def history : Deployment → List Action → History
  | _, [] => []
  | d, a :: as =>
    match d.perform a with
    | some d' => (d.core, d.event a) :: d'.history as
    | none => []

theorem history_cons {d d' : Deployment} {a : Action} (step : d.perform a = some d')
    (as : List Action) : d.history (a :: as) = (d.core, d.event a) :: d'.history as := by
  simp only [history, step]

theorem reached_of_reached {d d' : Deployment} {as : List Action} {h : History}
    (before : Reached h d.core) (run : Run d as d') : Reached (h ++ d.history as) d'.core := by
  induction run generalizing h with
  | nil d =>
      show Reached (h ++ []) d.core
      rw [List.append_nil]
      exact before
  | cons step _ ih =>
      have happens := happens_perform step
      have after := Reached.step before happens.possible
      rw [← happens.core_eq] at after
      rw [history_cons step, List.append_cons]
      exact ih after

theorem Run.reached {d : Deployment} {as : List Action} (run : Run .empty as d) :
    Reached (history .empty as) d.core :=
  reached_of_reached .start run

theorem run_iff {d d' : Deployment} {as : List Action} :
    Run d as d' ↔ as.foldlM perform d = some d' := by
  induction as generalizing d with
  | nil =>
      constructor
      · rintro ⟨⟩
        rfl
      · intro h
        cases h
        exact .nil _
  | cons a as ih =>
      rw [List.foldlM_cons, Option.bind_eq_bind, Option.bind_eq_some_iff]
      constructor
      · rintro (_ | ⟨step, rest⟩)
        exact ⟨_, step, ih.mp rest⟩
      · rintro ⟨d₁, step, rest⟩
        exact .cons step (ih.mpr rest)

/-- What holds of a deployment and is kept by every event holds along every run from it. -/
theorem Run.along {d d' : Deployment} {Q : Core → Prop}
    (kept : ∀ {h c e}, Reached h c → Event.Possible c e → Q c → Q (c.apply e)) {h : History}
    (reached : Reached h d.core) (hQ : Q d.core) {as : List Action} (run : Run d as d') :
    Q d'.core ∧ ∀ s ∈ d.history as, Q s.1 ∧ s.2.Possible s.1 ∧ ∃ h, Reached h s.1 := by
  induction run generalizing h with
  | nil d => exact ⟨hQ, List.forall_mem_nil _⟩
  | cons step _ ih =>
      have happens := happens_perform step
      have hQ₁ := kept reached happens.possible hQ
      have reached₁ := reached.step happens.possible
      rw [← happens.core_eq] at hQ₁ reached₁
      obtain ⟨hlast, hmid⟩ := ih reached₁ hQ₁
      refine ⟨hlast, ?_⟩
      rw [history_cons step, List.forall_mem_cons]
      exact ⟨⟨hQ, happens.possible, h, reached⟩, hmid⟩

/-- The second part of a run, from where the first has led. -/
theorem Run.rest {d d' d₁ : Deployment} {as bs : List Action} (run : Run d (as ++ bs) d')
    (first : Run d as d₁) : Run d₁ bs d' := by
  induction first with
  | nil d => exact run
  | cons step _ ih =>
      obtain _ | ⟨step', rest⟩ := run
      rw [step] at step'
      cases step'
      exact ih rest

end Deployment

/-- The event happens in the history after the events before it, and meets the core. -/
def History.At (h before : History) (c : Core) (e : Event) : Prop :=
  ∃ after, h = before ++ (c, e) :: after

/-- Of two places in a history, one comes before the other unless they are the same. -/
theorem History.At.trichotomy {h before before' : History} {c c' : Core} {e e' : Event}
    (hat : h.At before c e) (hat' : h.At before' c' e') :
    before = before' ∧ c = c' ∧ e = e' ∨ before'.At before c e ∨ before.At before' c' e' := by
  obtain ⟨after, rfl⟩ := hat
  obtain ⟨after', heq⟩ := hat'
  rcases List.append_eq_append_iff.mp heq with ⟨mid, hbefore, hmid⟩ | ⟨mid, hbefore, hmid⟩
  · cases mid with
    | nil =>
        cases hmid
        exact .inl ⟨(List.append_nil before ▸ hbefore).symm, rfl, rfl⟩
    | cons s mid =>
        cases hmid
        exact .inr (.inl ⟨mid, hbefore⟩)
  · cases mid with
    | nil =>
        cases hmid
        exact .inl ⟨List.append_nil before' ▸ hbefore, rfl, rfl⟩
    | cons s mid =>
        cases hmid
        exact .inr (.inr ⟨mid, hbefore⟩)

theorem History.at_of_mem {h : History} {c : Core} {e : Event} (hmem : (c, e) ∈ h) :
    ∃ before, h.At before c e := by
  obtain ⟨before, after, heq⟩ := List.append_of_mem hmem
  exact ⟨before, after, heq⟩

/-- A list that has grown at its end, taken apart at some member. -/
theorem concat_eq_append_cons {α : Type} {l before after : List α} {a b : α} :
    l ++ [a] = before ++ b :: after ↔ (l = before ∧ a = b ∧ after = []) ∨
      ∃ rest, after = rest ++ [a] ∧ l = before ++ b :: rest := by
  rcases List.eq_nil_or_concat after with rfl | ⟨rest, c, rfl⟩
  · constructor
    · intro h
      obtain ⟨hl, ha⟩ := List.append_inj' h rfl
      exact .inl ⟨hl, List.singleton_inj.mp ha, rfl⟩
    · rintro (⟨rfl, rfl, -⟩ | ⟨rest, h, -⟩)
      · rfl
      · simp at h
  · rw [List.concat_eq_append]
    constructor
    · intro h
      have h : l ++ [a] = (before ++ b :: rest) ++ [c] := by simpa using h
      obtain ⟨hl, ha⟩ := List.append_inj' h rfl
      exact .inr ⟨rest, by rw [List.singleton_inj.mp ha], hl⟩
    · rintro (⟨-, -, h⟩ | ⟨rest', h, rfl⟩)
      · simp at h
      · rw [h]
        simp

/-- The last event of a history, or an earlier one. -/
theorem History.at_concat {h before : History} {c c₀ : Core} {e e₀ : Event}
    (hat : History.At (h ++ [(c, e)]) before c₀ e₀) :
    before = h ∧ c₀ = c ∧ e₀ = e ∨ h.At before c₀ e₀ := by
  obtain ⟨after, heq⟩ := hat
  rcases concat_eq_append_cons.mp heq with ⟨rfl, hlast, -⟩ | ⟨rest, -, hearlier⟩
  · cases hlast
    exact .inl ⟨rfl, rfl, rfl⟩
  · exact .inr ⟨rest, hearlier⟩

namespace Reached

/-- The part of a history up to some event leads to the core that the event met. -/
theorem upTo {h : History} {c : Core} (reached : Reached h c) {before : History} {c₀ : Core}
    {e : Event} (hat : h.At before c₀ e) : Reached before c₀ ∧ e.Possible c₀ := by
  induction reached with
  | start =>
      obtain ⟨after, heq⟩ := hat
      have := congrArg List.length heq
      simp at this
  | step reached possible ih =>
      rcases History.at_concat hat with ⟨rfl, rfl, rfl⟩ | hearlier
      · exact ⟨reached, possible⟩
      · exact ih hearlier

theorem possible_of_mem {h : History} {c c₀ : Core} {e : Event} (reached : Reached h c)
    (hmem : (c₀, e) ∈ h) : e.Possible c₀ := by
  obtain ⟨before, hat⟩ := History.at_of_mem hmem
  exact (reached.upTo hat).2

/-- What every event keeps still holds if it has held at some event. -/
theorem keeps {Q : Core → Prop}
    (kept : ∀ c e, Event.Possible c e → Q c → Q (c.apply e))
    {h : History} {c : Core} (reached : Reached h c) {before : History} {c₀ : Core} {e : Event}
    (hat : h.At before c₀ e) (hQ : Q c₀) : Q c := by
  induction reached with
  | start =>
      obtain ⟨after, heq⟩ := hat
      have := congrArg List.length heq
      simp at this
  | @step h c e' reached possible ih =>
      rcases History.at_concat hat with ⟨rfl, rfl, rfl⟩ | hearlier
      · exact kept c₀ e possible hQ
      · exact kept c e' possible (ih hearlier)

end Reached

/-! What an event makes of a hub, of a dispatch and of the tokens. -/

namespace Event

/-- The event's effect on the hub of the given number. -/
def onHub (n : Nat) (h : BrokerHub) : Event → BrokerHub
  | register k room subscriber f =>
    if k = n then { h with registry := (h.registry.set room subscriber f).1 } else h
  | unregister k room subscriber =>
    if k = n then { h with registry := (h.registry.delete room subscriber).1 } else h
  | conclude _ p => if p.owner = .receiver n then { h with phase := .running } else h
  | turn k _ t => if k = n then { h with phase := t.phase } else h
  | detach k _ => if k = n then { h with joinable := false } else h
  | _ => h

/-- The event's effect on the dispatch of the given number. -/
def onDispatch (n : Nat) (p : Dispatch) : Event → Dispatch
  | proceed k i _ after => if k = n then p.proceed i after else p
  | conclude k _ => if k = n then p.conclude else p
  | _ => p

/-- The dispatch that an event begins. -/
def opened? : Event → Option Dispatch
  | tell e registry r => some (.begin (.caller e) registry r)
  | turn n h (.dispatch _ r _) => some (.begin (.receiver n) h.registry r)
  | _ => none

theorem opened?_eq_some {e : Event} {p : Dispatch} (h : e.opened? = some p) :
    (∃ endpoint registry r, e = .tell endpoint registry r ∧
        p = .begin (.caller endpoint) registry r) ∨
      ∃ n hub m r number, e = .turn n hub (.dispatch m r number) ∧
        p = .begin (.receiver n) hub.registry r := by
  cases e with
  | tell endpoint registry r => exact .inl ⟨endpoint, registry, r, rfl, (Option.some.inj h).symm⟩
  | turn n hub t =>
      cases t with
      | dispatch m r number =>
          exact .inr ⟨n, hub, m, r, number, rfl, (Option.some.inj h).symm⟩
      | _ => cases h
  | _ => cases h

def built? : Event → Option BrokerHub
  | build _ h => some h
  | _ => none

/-! A hub keeps what it was built with. -/

@[simp] theorem topic_onHub (n : Nat) (h : BrokerHub) (e : Event) :
    (e.onHub n h).topic = h.topic := by
  cases e <;> simp only [onHub] <;> split <;> rfl

@[simp] theorem subscription_onHub (n : Nat) (h : BrokerHub) (e : Event) :
    (e.onHub n h).subscription = h.subscription := by
  cases e <;> simp only [onHub] <;> split <;> rfl

@[simp] theorem route_onHub (n : Nat) (h : BrokerHub) (e : Event) :
    (e.onHub n h).route = h.route := by
  cases e <;> simp only [onHub] <;> split <;> rfl

@[simp] theorem token_onHub (n : Nat) (h : BrokerHub) (e : Event) :
    (e.onHub n h).token = h.token := by
  cases e <;> simp only [onHub] <;> split <;> rfl

end Event

/-! What is left of a change once only the hubs on a broker are looked at. -/

namespace Hub

theorem broker?_mapRegistry (f : Registry Handler → Registry Handler) (hub : Hub) :
    (hub.mapRegistry f).broker? =
      hub.broker?.map fun h => { h with registry := f h.registry } := by
  cases hub <;> rfl

theorem broker?_enter (phase : Phase) (hub : Hub) :
    (hub.enter phase).broker? = hub.broker?.map fun h => { h with phase } := by
  cases hub <;> rfl

theorem broker?_giveUp (hub : Hub) :
    hub.giveUp.broker? = hub.broker?.map fun h => { h with joinable := false } := by
  cases hub <;> rfl

end Hub

theorem getElem?_concat {α : Type} (l : List α) (a : α) (n : Nat) :
    (l ++ [a])[n]? = if n = l.length then some a else l[n]? := by
  by_cases hlt : n < l.length
  · rw [List.getElem?_append_left hlt, if_neg (Nat.ne_of_lt hlt)]
  · rw [List.getElem?_append_right (Nat.not_lt.mp hlt)]
    split
    · next heq => subst heq; simp
    · next hne =>
        rw [List.getElem?_eq_none (Nat.not_lt.mp hlt), List.getElem?_eq_none]
        simp only [List.length_singleton]
        omega

namespace Core

theorem brokerHub?_eq_some_iff {c : Core} {n : Nat} {h : BrokerHub} :
    c.brokerHub? n = some h ↔ c.hubs[n]? = some (.broker h) := by
  rw [brokerHub?]
  cases c.hubs[n]? with
  | none => simp
  | some hub => cases hub <;> simp [Hub.broker?]

theorem brokerHub?_modify {hs : List Hub} {f : Hub → Hub} {g : BrokerHub → BrokerHub}
    (hf : ∀ hub, (f hub).broker? = hub.broker?.map g) (k n : Nat) :
    (hs.modify k f)[n]?.bind Hub.broker? =
      (hs[n]?.bind Hub.broker?).map fun h => if k = n then g h else h := by
  rw [List.getElem?_modify]
  cases hs[n]? with
  | none => rfl
  | some hub =>
      by_cases heq : k = n
      · simp [heq, hf]
      · simp [heq]

theorem brokerHub?_length (c : Core) : c.brokerHub? c.hubs.length = none := by
  rw [brokerHub?]
  rw [List.getElem?_eq_none (Nat.le_refl _)]
  rfl

/-- For an event that leaves the number of hubs. -/
theorem brokerHub?_apply_of_modify {c : Core} {e : Event} {n k : Nat} {f : Hub → Hub}
    {g : BrokerHub → BrokerHub} (hs : e.hubs c.hubs = c.hubs.modify k f)
    (hf : ∀ hub, (f hub).broker? = hub.broker?.map g)
    (honHub : ∀ h, e.onHub n h = if k = n then g h else h) (hbuilt : e.built? = none) :
    (c.apply e).brokerHub? n =
      if n = c.hubs.length then e.built? else (c.brokerHub? n).map (e.onHub n ·) := by
  have heq : (c.apply e).brokerHub? n = (c.brokerHub? n).map (e.onHub n ·) := by
    show (e.hubs c.hubs)[n]?.bind Hub.broker? = _
    rw [hs, brokerHub?_modify hf]
    simp only [honHub]
    rfl
  rw [heq]
  split
  · next hn => rw [hn, brokerHub?_length, hbuilt]; rfl
  · rfl

theorem brokerHub?_apply_of_same {c : Core} {e : Event} {n : Nat} (hs : e.hubs c.hubs = c.hubs)
    (honHub : ∀ h, e.onHub n h = h) (hbuilt : e.built? = none) :
    (c.apply e).brokerHub? n =
      if n = c.hubs.length then e.built? else (c.brokerHub? n).map (e.onHub n ·) := by
  refine brokerHub?_apply_of_modify (k := n) (f := id) (g := id)
    (hs.trans (List.modify_id n c.hubs).symm) ?_ ?_ hbuilt
  · exact fun hub => (id_map hub.broker?).symm
  · intro h
    rw [honHub]
    exact (ite_self h).symm

/-- A hub on a broker is what the event has made of it, or has just been built. -/
theorem brokerHub?_apply {c : Core} {e : Event} (possible : e.Possible c) (n : Nat) :
    (c.apply e).brokerHub? n =
      if n = c.hubs.length then e.built? else (c.brokerHub? n).map (e.onHub n ·) := by
  cases e with
  | hub h =>
      show (c.hubs ++ [h])[n]?.bind Hub.broker? = _
      rw [getElem?_concat]
      split
      · exact possible.1
      · exact (id_map (c.brokerHub? n)).symm
  | build capacity h =>
      rw [brokerHub?, show (c.apply (.build capacity h)).hubs = c.hubs ++ [.broker h] from rfl,
        getElem?_concat]
      split
      · rfl
      · exact (id_map (c.brokerHub? n)).symm
  | register k room subscriber f =>
      exact brokerHub?_apply_of_modify rfl (Hub.broker?_mapRegistry _) (fun _ => rfl) rfl
  | unregister k room subscriber =>
      exact brokerHub?_apply_of_modify rfl (Hub.broker?_mapRegistry _) (fun _ => rfl) rfl
  | conclude k p =>
      obtain ⟨owner, roll, broadcast, concluded⟩ := p
      cases owner with
      | caller e => exact brokerHub?_apply_of_same rfl (fun _ => by simp [Event.onHub]) rfl
      | receiver m =>
          exact brokerHub?_apply_of_modify (k := m) rfl (Hub.broker?_enter .running)
            (fun _ => by simp [Event.onHub]) rfl
  | turn k h t =>
      exact brokerHub?_apply_of_modify rfl (Hub.broker?_enter t.phase) (fun _ => rfl) rfl
  | detach k h =>
      exact brokerHub?_apply_of_modify rfl Hub.broker?_giveUp (fun _ => rfl) rfl
  | _ => exact brokerHub?_apply_of_same rfl (fun _ => rfl) rfl

theorem brokerHub?_apply_of_some {c : Core} {e : Event} (possible : e.Possible c) {n : Nat}
    {h : BrokerHub} (hn : c.brokerHub? n = some h) :
    (c.apply e).brokerHub? n = some (e.onHub n h) := by
  have hne : n ≠ c.hubs.length := by
    rintro rfl
    rw [brokerHub?_length] at hn
    cases hn
  rw [brokerHub?_apply possible, if_neg hne, hn]
  rfl

theorem of_brokerHub?_apply {c : Core} {e : Event} (possible : e.Possible c) {n : Nat}
    {h : BrokerHub} (hn : (c.apply e).brokerHub? n = some h) :
    (n = c.hubs.length ∧ ∃ capacity, e = .build capacity h) ∨
      ∃ old, c.brokerHub? n = some old ∧ h = e.onHub n old := by
  rw [brokerHub?_apply possible] at hn
  split at hn
  · next hlength =>
      cases e with
      | build capacity built =>
          cases hn
          exact .inl ⟨hlength, capacity, rfl⟩
      | _ => cases hn
  · obtain ⟨old, hold, rfl⟩ := Option.map_eq_some_iff.mp hn
    exact .inr ⟨old, hold, rfl⟩

section
variable {c : Core} {e : Event} {n : Nat}

/-- For an event that leaves the number of dispatches. -/
theorem getElem?_dispatches_apply_of_modify {k : Nat} {f : Dispatch → Dispatch}
    (hps : e.dispatches c.dispatches = c.dispatches.modify k f) (hopened : e.opened? = none)
    (honDispatch : ∀ p, e.onDispatch n p = if k = n then f p else p) :
    (c.apply e).dispatches[n]? =
      if n = c.dispatches.length then e.opened?
      else c.dispatches[n]?.map (e.onDispatch n ·) := by
  show (e.dispatches c.dispatches)[n]? = _
  rw [hps, List.getElem?_modify, hopened]
  simp only [honDispatch]
  by_cases hn : n = c.dispatches.length
  · rw [if_pos hn, List.getElem?_eq_none (Nat.le_of_eq hn.symm)]
    rfl
  · rw [if_neg hn]
    rfl

theorem getElem?_dispatches_apply_of_same (hps : e.dispatches c.dispatches = c.dispatches)
    (hopened : e.opened? = none) (honDispatch : ∀ p, e.onDispatch n p = p) :
    (c.apply e).dispatches[n]? =
      if n = c.dispatches.length then e.opened?
      else c.dispatches[n]?.map (e.onDispatch n ·) := by
  refine getElem?_dispatches_apply_of_modify (k := n) (f := id)
    (hps.trans (List.modify_id n _).symm) hopened ?_
  intro p
  rw [honDispatch]
  exact (ite_self p).symm

theorem getElem?_dispatches_apply_of_opened {p : Dispatch}
    (hps : e.dispatches c.dispatches = c.dispatches ++ [p]) (hopened : e.opened? = some p)
    (honDispatch : ∀ p, e.onDispatch n p = p) :
    (c.apply e).dispatches[n]? =
      if n = c.dispatches.length then e.opened?
      else c.dispatches[n]?.map (e.onDispatch n ·) := by
  show (e.dispatches c.dispatches)[n]? = _
  rw [hps, getElem?_concat, hopened]
  simp only [honDispatch]
  split
  · rfl
  · exact (id_map _).symm

end

/-- A dispatch is what the event has made of it, or has just begun. -/
theorem getElem?_dispatches_apply (c : Core) (e : Event) (n : Nat) :
    (c.apply e).dispatches[n]? =
      if n = c.dispatches.length then e.opened?
      else c.dispatches[n]?.map (e.onDispatch n ·) := by
  cases e with
  | tell e registry r => exact getElem?_dispatches_apply_of_opened rfl rfl fun _ => rfl
  | proceed k i first after => exact getElem?_dispatches_apply_of_modify rfl rfl fun _ => rfl
  | conclude k p => exact getElem?_dispatches_apply_of_modify rfl rfl fun _ => rfl
  | turn k h t =>
      cases t with
      | dispatch m r number => exact getElem?_dispatches_apply_of_opened rfl rfl fun _ => rfl
      | _ => exact getElem?_dispatches_apply_of_same rfl rfl fun _ => rfl
  | _ => exact getElem?_dispatches_apply_of_same rfl rfl fun _ => rfl

theorem of_getElem?_dispatches_apply {c : Core} {e : Event} {n : Nat} {p : Dispatch}
    (hp : (c.apply e).dispatches[n]? = some p) :
    (n = c.dispatches.length ∧ e.opened? = some p) ∨
      ∃ old, c.dispatches[n]? = some old ∧ p = e.onDispatch n old := by
  rw [getElem?_dispatches_apply] at hp
  split at hp
  · next hlength => exact .inl ⟨hlength, hp⟩
  · obtain ⟨old, hold, rfl⟩ := Option.map_eq_some_iff.mp hp
    exact .inr ⟨old, hold, rfl⟩

theorem getElem?_dispatches_apply_of_some {c : Core} {n : Nat} {p : Dispatch}
    (hp : c.dispatches[n]? = some p) (e : Event) :
    (c.apply e).dispatches[n]? = some (e.onDispatch n p) := by
  have hne : n ≠ c.dispatches.length := Nat.ne_of_lt (List.getElem?_eq_some_iff.mp hp).1
  rw [getElem?_dispatches_apply, if_neg hne, hp]
  rfl

/-- Cancellation is for good. -/
theorem isCancelled_apply {c : Core} {t : Token} (h : c.tokens.isCancelled t = true)
    (e : Event) : (c.apply e).tokens.isCancelled t = true := by
  cases e with
  | cancel u => exact (c.tokens.isCancelled_cancel u t).mpr (.inr h)
  | _ => exact h

end Core

/-- A hub that has been there is there for good, and keeps what no event changes. -/
theorem Reached.hub_keeps {α : Type} (f : BrokerHub → α) {n : Nat}
    (kept : ∀ (e : Event) (hub : BrokerHub), f (e.onHub n hub) = f hub) {h before : History}
    {c c₀ : Core} {e : Event} (reached : Reached h c) (hat : h.At before c₀ e)
    {hub₀ : BrokerHub} (hn₀ : c₀.brokerHub? n = some hub₀) :
    ∃ hub, c.brokerHub? n = some hub ∧ f hub = f hub₀ := by
  have step : ∀ c e, Event.Possible c e →
      (∃ hub, c.brokerHub? n = some hub ∧ f hub = f hub₀) →
      ∃ hub, (c.apply e).brokerHub? n = some hub ∧ f hub = f hub₀ := by
    rintro c e possible ⟨hub, hn, heq⟩
    exact ⟨e.onHub n hub, Core.brokerHub?_apply_of_some possible hn, (kept e hub).trans heq⟩
  exact reached.keeps step hat ⟨hub₀, hn₀, rfl⟩

end DiceRooms
