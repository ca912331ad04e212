import DiceRooms.Proofs.Deployment.Measuring
import Mathlib.Data.List.Basic

/-!
The records of whole runs. Every call that has ended has been recorded by its layers when it
ended, no other call has, and a run through layers shows what the run without them shows.
-/
namespace DiceRooms

/-! Who waits for which dispatch. -/

namespace Deployment

variable {d d' : Deployment} {a : Action} {e : Endpoint} {r : Roll} {n : Nat}

theorem notify_of_tell {e' : Endpoint} {r' : Roll} {registry : Registry Handler}
    (h : d.notifyEvent e' r' = .tell e registry r) :
    e' = e ∧ r' = r ∧ (∃ hub, d.hubs[e.hub]? = some hub) ∧
      (d.notify e r).2 = .dispatched d.dispatches.size := by
  rw [notifyEvent] at h
  split at h
  · split at h <;> cases h
  · next hhub =>
      cases h
      exact ⟨rfl, rfl, ⟨_, hhub⟩, by simp only [notify, hhub]; rfl⟩
  · next hhub =>
      cases h
      exact ⟨rfl, rfl, ⟨_, hhub⟩, by simp only [notify, hhub]; rfl⟩
  · cases h
  · cases h

theorem notify_dispatched (h : (d.notify e r).2 = .dispatched n) :
    n = d.dispatches.size ∧ ∃ registry, d.notifyEvent e r = .tell e registry r := by
  rw [notify] at h
  rw [notifyEvent]
  cases hhub : d.hubs[e.hub]? with
  | none => rw [hhub] at h; cases h
  | some hub =>
      rw [hhub] at h
      cases hub with
      | memory registry | bare registry =>
          cases h
          exact ⟨rfl, registry, rfl⟩
      | broker b => cases h
      | failing error => cases h

/-- A notification that the caller waits for is one that begins a dispatch. -/
theorem event_of_notify (ha : d.call? a = some (e, .notify r)) : d.event a = d.notifyEvent e r := by
  cases a with
  | notify e r => cases ha; rfl
  | tellRoll k =>
      simp only [call?, Option.bind_eq_bind, Option.bind_eq_some_iff] at ha
      obtain ⟨c, hc, s, hs, hcall⟩ := ha
      cases hcall
      simp [event, tellRollEvent, hc, hs]
  | subscribeViewer e id room f =>
      simp only [call?] at ha
      split at ha <;> cases ha
  | _ => cases ha

theorem askedAt_of_tell {registry : Registry Handler} (h : d.event a = .tell e registry r) :
    Trace.askedAt (d, a) = some ⟨e, .notify r, .dispatched d.dispatches.size⟩ := by
  have hnotify : d.call? a = some (e, .notify r) ∧ d.notifyEvent e r = .tell e registry r := by
    have causes := d.causes_event a
    rw [h] at causes
    cases causes with
    | tell => exact ⟨rfl, h⟩
    | tellRoll k =>
        simp only [event, tellRollEvent, Option.bind_eq_bind] at h
        cases hc : d.creations[k]? with
        | none => simp [hc] at h
        | some c =>
            cases hs : d.services[c.service]? with
            | none => simp [hc, hs] at h
            | some s =>
                simp only [hc, hs, Option.bind_some, Option.getD_some] at h
                obtain ⟨rfl, rfl, -⟩ := notify_of_tell h
                exact ⟨by simp [call?, hc, hs], h⟩
  obtain ⟨-, -, ⟨hub, hhub⟩, hreply⟩ := notify_of_tell hnotify.2
  simp [Trace.askedAt, hnotify.1, hhub, Call.through, hreply]

theorem tell_of_askedAt {c : Asked} (h : Trace.askedAt (d, a) = some c)
    (hreply : c.reply = .dispatched n) :
    n = d.dispatches.size ∧ ∃ r registry, c.call = .notify r ∧
      d.event a = .tell c.endpoint registry r := by
  obtain ⟨ha, -, hthrough⟩ := askedAt_eq_some h
  rw [hreply] at hthrough
  cases hcall : c.call with
  | notify r =>
      rw [hcall] at hthrough ha
      obtain ⟨rfl, registry, hevent⟩ := notify_dispatched hthrough.symm
      exact ⟨rfl, r, registry, rfl, (event_of_notify ha).trans hevent⟩
  | subscribe | unsubscribe => rw [hcall] at hthrough; cases hthrough

/-! What a step does to those who wait. -/

theorem event_ne_conclude (ha : a ≠ .conclude n) (q : Dispatch) : d.event a ≠ .conclude n q := by
  intro h
  have causes := d.causes_event a
  rw [h] at causes
  cases causes with
  | conclude => exact ha rfl

/-- A dispatch stays with its owner, and an action that does not conclude it lets it be. -/
theorem dispatch_perform (step : d.perform a = some d') {p : Dispatch}
    (hp : d.dispatches[n]? = some p) :
    ∃ p', d'.dispatches[n]? = some p' ∧ p'.owner = p.owner ∧
      (a ≠ .conclude n → p'.concluded = p.concluded) := by
  have hp' := Core.getElem?_dispatches_apply_of_some
    ((getElem?_core_dispatches d n).trans hp) (d.event a)
  rw [← (happens_perform step).core_eq, getElem?_core_dispatches] at hp'
  refine ⟨_, hp', owner_onDispatch n p (d.event a), fun ha => ?_⟩
  have hconcluded := concluded_onDispatch n p (d.event a)
  rw [or_iff_left fun ⟨q, hq⟩ => event_ne_conclude ha q hq] at hconcluded
  exact Bool.eq_iff_iff.mpr hconcluded

/-- Whoever owns a dispatch has done so before, or begins it now. -/
theorem owner_of_perform (step : d.perform a = some d') {p : Dispatch}
    (hp : d'.dispatches[n]? = some p) (howner : p.owner = .caller e) :
    (∃ old, d.dispatches[n]? = some old ∧ old.owner = .caller e) ∨
      n = d.dispatches.size ∧ ∃ registry r, d.event a = .tell e registry r := by
  rw [← getElem?_core_dispatches, (happens_perform step).core_eq] at hp
  rcases Core.of_getElem?_dispatches_apply hp with ⟨hn, hopened⟩ | ⟨old, hold, rfl⟩
  · rcases Event.opened?_eq_some hopened with ⟨e', registry, r, hevent, rfl⟩ |
      ⟨k, hub, m, r, number, -, rfl⟩
    · cases howner
      exact .inr ⟨hn.trans Array.length_toList, registry, r, hevent⟩
    · cases howner
  · rw [getElem?_core_dispatches] at hold
    exact .inl ⟨old, hold, (owner_onDispatch n old (d.event a)).symm.trans howner⟩

theorem of_conclude (step : d.perform (.conclude n) = some d') :
    ∃ p, d.dispatches[n]? = some p ∧ p.broadcast.isOver = true ∧ p.concluded = false := by
  simp only [perform, conclude, Option.bind_eq_bind, Option.bind_eq_some_iff] at step
  obtain ⟨p, hp, h⟩ := step
  split at h
  · next hcan =>
      rw [Bool.and_eq_true, Bool.not_eq_true'] at hcan
      exact ⟨p, hp, hcan⟩
  · cases h

theorem dispatch_of_tell {registry : Registry Handler} (step : d.perform a = some d')
    (h : d.event a = .tell e registry r) :
    d'.dispatches[d.dispatches.size]? = some (.begin (.caller e) registry r) := by
  have hsize : d.dispatches.size = d.core.dispatches.length := Array.length_toList.symm
  rw [← getElem?_core_dispatches, (happens_perform step).core_eq, Core.getElem?_dispatches_apply,
    if_pos hsize, h]
  rfl

end Deployment

/-! What has been asked and what has been recorded. -/

namespace Asked

variable {d d' : Deployment} {c : Asked} {n : Nat}

theorem dispatch?_eq_some : c.dispatch? = some n ↔ c.reply = .dispatched n := by
  rw [dispatch?]
  cases c.reply <;> simp

theorem finished?_of_done {result : Except HubError Unit} (h : c.reply = .done result)
    (d : Deployment) : c.finished? d = some ⟨c.endpoint, c.call.operation, result⟩ := by
  rw [finished?, h]
  rfl

theorem finished?_of_dispatched {p : Dispatch} (h : c.reply = .dispatched n)
    (hp : d.dispatches[n]? = some p) :
    c.finished? d =
      if p.concluded then some ⟨c.endpoint, c.call.operation, .ok ()⟩ else none := by
  rw [finished?, h, Deployment.answer?_dispatched hp]
  split <;> rfl

end Asked

/-- One more member of a list is counted in, the only one with its key. -/
theorem filterMap_perm_of_key {α β : Type} {key : α → Option Nat} {f g : α → Option β} {l : List α}
    {a : α} {b : β} {n : Nat} (hnodup : (l.filterMap key).Nodup) (ha : a ∈ l)
    (hkey : key a = some n) (hf : f a = none) (hg : g a = some b)
    (hsame : ∀ x ∈ l, key x ≠ some n → g x = f x) :
    (l.filterMap g).Perm (l.filterMap f ++ [b]) := by
  induction l with
  | nil => cases ha
  | cons x l ih =>
      obtain ⟨hx, hl⟩ := List.forall_mem_cons.mp hsame
      rcases List.mem_cons.mp ha with rfl | ha
      · rw [List.filterMap_cons_some hkey, List.nodup_cons] at hnodup
        have hrest : l.filterMap g = l.filterMap f := by
          refine List.filterMap_congr fun y hy => hl y hy fun hn => ?_
          exact hnodup.1 (List.mem_filterMap.mpr ⟨y, hy, hn⟩)
        rw [List.filterMap_cons_some hg, List.filterMap_cons_none hf, hrest]
        exact (List.perm_append_singleton b (l.filterMap f)).symm
      · have hne : key x ≠ some n := by
          intro hn
          rw [List.filterMap_cons_some hn, List.nodup_cons] at hnodup
          exact hnodup.1 (List.mem_filterMap.mpr ⟨a, ha, hkey⟩)
        have hrest := ih (hnodup.sublist ((List.sublist_cons_self x l).filterMap key)) ha hl
        rw [List.filterMap_cons, List.filterMap_cons, hx hne]
        cases f x with
        | none => exact hrest
        | some y => exact hrest.cons y

/-- The books that a trace leaves behind. -/
structure Ledger (tr : Trace) (d : Deployment) : Prop where
  measurements : d.measurements = tr.finished.flatMap Finished.records
  /-- Those that have ended are those that have an answer. -/
  answered : tr.finished.Perm (tr.asked.filterMap (Asked.finished? d))
  waiting : ∀ c ∈ tr.asked, ∀ n, c.reply = .dispatched n → c.call.operation = .notify ∧
    ∃ p, d.dispatches[n]? = some p ∧ p.owner = .caller c.endpoint
  owned : ∀ n p e, d.dispatches[n]? = some p → p.owner = .caller e →
    ∃ c ∈ tr.asked, c.endpoint = e ∧ c.reply = .dispatched n
  distinct : (tr.asked.filterMap Asked.dispatch?).Nodup

namespace Ledger

variable {tr : Trace} {d d' : Deployment} {a : Action}

theorem start : Ledger [] .empty where
  measurements := rfl
  answered := .nil
  waiting := List.forall_mem_nil _
  owned n p e hp := by simp [Deployment.empty] at hp
  distinct := .nil

/-- An answer stays, and a call gets none before its dispatch is concluded. -/
theorem finished?_eq (ledger : Ledger tr d) (step : d.perform a = some d') {c : Asked}
    (hc : c ∈ tr.asked) (ha : ∀ n, c.dispatch? = some n → a ≠ .conclude n) :
    c.finished? d' = c.finished? d := by
  cases hreply : c.reply with
  | done result => rw [Asked.finished?_of_done hreply, Asked.finished?_of_done hreply]
  | dispatched n =>
      obtain ⟨-, p, hp, -⟩ := ledger.waiting c hc n hreply
      obtain ⟨p', hp', -, hconcluded⟩ := Deployment.dispatch_perform step hp
      rw [Asked.finished?_of_dispatched hreply hp', Asked.finished?_of_dispatched hreply hp,
        hconcluded (ha n (Asked.dispatch?_eq_some.mpr hreply))]

/-- A call has the answer that it is made with. -/
theorem finished?_of_askedAt (step : d.perform a = some d') {c : Asked}
    (hc : Trace.askedAt (d, a) = some c) : c.finished? d' = c.finished? d := by
  cases hreply : c.reply with
  | done result => rw [Asked.finished?_of_done hreply, Asked.finished?_of_done hreply]
  | dispatched n =>
      obtain ⟨rfl, r, registry, -, hevent⟩ := Deployment.tell_of_askedAt hc hreply
      rw [Asked.finished?_of_dispatched hreply (Deployment.dispatch_of_tell step hevent),
        Asked.finished?, hreply, Deployment.answer?,
        Deployment.isConcluded_of_le (Nat.le_refl _)]
      rfl

theorem filterMap_finished? (ledger : Ledger tr d) (step : d.perform a = some d')
    (ha : ∀ n, a = .conclude n → ∀ c ∈ tr.asked, c.dispatch? ≠ some n) :
    tr.asked.filterMap (Asked.finished? d') = tr.asked.filterMap (Asked.finished? d) :=
  List.filterMap_congr fun c hc => ledger.finished?_eq step hc fun n hn h => ha n h c hc hn

/-- The one call that waits for a dispatch ends with it. -/
theorem answered_conclude (ledger : Ledger tr d) {n : Nat}
    (step : d.perform (.conclude n) = some d') :
    (tr.asked.filterMap (Asked.finished? d')).Perm
      (tr.asked.filterMap (Asked.finished? d) ++ (Trace.concludedAt (d, .conclude n)).toList) := by
  obtain ⟨p, hp, hover, hopen⟩ := Deployment.of_conclude step
  rw [Trace.concludedAt, hp, Option.map_some]
  cases howner : p.owner with
  | caller e =>
      obtain ⟨c, hc, rfl, hreply⟩ := ledger.owned n p e hp howner
      obtain ⟨d₁, step₁, hanswer, -⟩ := Deployment.conclude_of_caller hp howner hover hopen
      obtain rfl : d₁ = d' := Option.some.inj (step₁.symm.trans step)
      have hop := (ledger.waiting c hc n hreply).1
      refine filterMap_perm_of_key ledger.distinct hc (Asked.dispatch?_eq_some.mpr hreply) ?_ ?_ ?_
      · rw [Asked.finished?_of_dispatched hreply hp, hopen]
        rfl
      · rw [Asked.finished?, hreply, hanswer, hop]
        rfl
      · intro c' hc' hne
        refine ledger.finished?_eq step hc' fun m hm heq => hne ?_
        rw [hm, Action.conclude.inj heq]
  | receiver k =>
      dsimp only
      rw [Option.toList_none, List.append_nil, ledger.filterMap_finished? step]
      rintro m heq c hc hm
      obtain rfl := Action.conclude.inj heq
      obtain ⟨-, p', hp', howner'⟩ := ledger.waiting c hc n (Asked.dispatch?_eq_some.mp hm)
      obtain rfl := Option.some.inj (hp.symm.trans hp')
      rw [howner] at howner'
      cases howner'

theorem answered_step (ledger : Ledger tr d) (step : d.perform a = some d') :
    (Trace.finished (tr ++ [(d, a)])).Perm
      ((Trace.asked (tr ++ [(d, a)])).filterMap (Asked.finished? d')) := by
  rw [Trace.finished_concat, Trace.asked_concat, List.filterMap_append]
  refine (ledger.answered.append_right _).trans ?_
  rw [Trace.finishedAt]
  cases hasked : Trace.askedAt (d, a) with
  | some c =>
      have hnew : [c].filterMap (Asked.finished? d') = (c.finished? d).toList := by
        rw [← finished?_of_askedAt step hasked]
        exact Broker.filterMap_concat (Asked.finished? d') [] c
      have hold := ledger.filterMap_finished? step fun n ha => by rw [ha] at hasked; cases hasked
      rw [Option.toList_some, hnew, hold]
  | none =>
      rw [Option.toList_none, List.filterMap_nil, List.append_nil]
      by_cases hconclude : ∃ n, a = .conclude n
      · obtain ⟨n, rfl⟩ := hconclude
        exact (ledger.answered_conclude step).symm
      · have silent : ∀ n, a ≠ .conclude n := fun n h => hconclude ⟨n, h⟩
        rw [ledger.filterMap_finished? step fun n h => (silent n h).elim]
        dsimp only
        rw [Trace.concludedAt_of_ne silent]
        exact (List.append_nil _).symm ▸ .rfl

theorem waiting_step (ledger : Ledger tr d) (step : d.perform a = some d') :
    ∀ c ∈ Trace.asked (tr ++ [(d, a)]), ∀ n, c.reply = .dispatched n → c.call.operation = .notify ∧
      ∃ p, d'.dispatches[n]? = some p ∧ p.owner = .caller c.endpoint := by
  intro c hc n hreply
  rw [Trace.asked_concat, List.mem_append, Option.mem_toList] at hc
  rcases hc with hc | hc
  · obtain ⟨hop, p, hp, howner⟩ := ledger.waiting c hc n hreply
    obtain ⟨p', hp', howner', -⟩ := Deployment.dispatch_perform step hp
    exact ⟨hop, p', hp', howner'.trans howner⟩
  · obtain ⟨rfl, r, registry, hcall, hevent⟩ := Deployment.tell_of_askedAt hc hreply
    rw [hcall]
    exact ⟨rfl, _, Deployment.dispatch_of_tell step hevent, rfl⟩

theorem owned_step (ledger : Ledger tr d) (step : d.perform a = some d') :
    ∀ n p e, d'.dispatches[n]? = some p → p.owner = .caller e →
      ∃ c ∈ Trace.asked (tr ++ [(d, a)]), c.endpoint = e ∧ c.reply = .dispatched n := by
  intro n p e hp howner
  rw [Trace.asked_concat]
  rcases Deployment.owner_of_perform step hp howner with ⟨old, hold, howner⟩ |
    ⟨rfl, registry, r, hevent⟩
  · obtain ⟨c, hc, hendpoint⟩ := ledger.owned n old e hold howner
    exact ⟨c, List.mem_append_left _ hc, hendpoint⟩
  · rw [Deployment.askedAt_of_tell hevent]
    exact ⟨_, List.mem_append_right _ List.mem_cons_self, rfl, rfl⟩

/-- A dispatch that begins has a number that nobody has waited for. -/
theorem distinct_step (ledger : Ledger tr d) (a : Action) :
    ((Trace.asked (tr ++ [(d, a)])).filterMap Asked.dispatch?).Nodup := by
  rw [Trace.asked_concat, List.filterMap_append]
  cases hasked : Trace.askedAt (d, a) with
  | none => simpa using ledger.distinct
  | some c =>
      rw [Option.toList_some, List.filterMap_cons, List.filterMap_nil]
      cases hn : c.dispatch? with
      | none => simpa using ledger.distinct
      | some n =>
          obtain ⟨rfl, -⟩ := Deployment.tell_of_askedAt hasked (Asked.dispatch?_eq_some.mp hn)
          refine List.nodup_append.mpr ⟨ledger.distinct, List.pairwise_singleton _ _, ?_⟩
          intro m hm m' hm'
          obtain rfl := List.mem_singleton.mp hm'
          obtain ⟨c', hc', hm⟩ := List.mem_filterMap.mp hm
          obtain ⟨-, p, hp, -⟩ := ledger.waiting c' hc' m (Asked.dispatch?_eq_some.mp hm)
          exact Nat.ne_of_lt (Array.getElem?_eq_some_iff.mp hp).1

theorem step (ledger : Ledger tr d) (step : d.perform a = some d') :
    Ledger (tr ++ [(d, a)]) d' where
  measurements := by
    rw [Deployment.measurements_perform step, ledger.measurements, Trace.finished_concat,
      List.flatMap_append]
  answered := ledger.answered_step step
  waiting := ledger.waiting_step step
  owned := ledger.owned_step step
  distinct := ledger.distinct_step a

theorem along (ledger : Ledger tr d) {as : List Action} (run : Deployment.Run d as d') :
    Ledger (tr ++ d.trace as) d' := by
  induction run generalizing tr with
  | nil d =>
      show Ledger (tr ++ []) d
      rw [List.append_nil]
      exact ledger
  | cons first _ ih =>
      rw [Deployment.trace_cons first, List.append_cons]
      exact ih (ledger.step first)

end Ledger

/-! Runs through layers and runs without them. -/

/-- The records are those of the calls that have ended, one call after the other. -/
structure Recorded (tr : Trace) (d : Deployment) : Prop where
  measurements : d.measurements = tr.finished.flatMap Finished.records
  /-- A call that has been made has ended, with a result, just if that is its answer by now. -/
  answered : tr.finished.Perm (tr.asked.filterMap (Asked.finished? d))

/-- The actions, done without layers, lead to the second deployment, and nothing that has
happened on the way to the first one has gone another way. -/
structure Alike (as : List Action) (d d₁ : Deployment) : Prop where
  run : Deployment.Run .empty (as.map Action.bare) d₁
  /-- What can happen next is the same, too. -/
  next : ∀ a, (d₁.perform a.bare).isSome = (d.perform a).isSome
  /-- The same calls have got the same replies at once -/
  asked : (Deployment.trace .empty (as.map Action.bare)).asked =
    (Deployment.trace .empty as).asked.map Asked.bare
  /-- and the same answers by now. -/
  answers : ∀ c ∈ (Deployment.trace .empty as).asked, d₁.answer? c.reply = d.answer? c.reply
  registries : ∀ n, d₁.registry? n = d.registry? n
  /-- What has been published, taken and left at the broker, in order. -/
  moves : (Deployment.history .empty (as.map Action.bare)).moves =
    (Deployment.history .empty as).moves
  exchange : d₁.exchange = d.exchange
  /-- Who has been called with which roll, in order. -/
  invoked : (Deployment.history .empty (as.map Action.bare)).invoked =
    (Deployment.history .empty as).invoked

namespace Deployment

theorem alike_bare {as : List Action} {d : Deployment} (run : Run .empty as d) :
    Alike as d d.bare where
  run := by
    have hrun := bare_run_iff.mpr ⟨d, run, rfl⟩
    rwa [bare_empty] at hrun
  next a := by rw [bare_perform, Option.isSome_map]
  asked := by simpa only [bare_empty] using bare_asked .empty as
  answers c _ := bare_answer? d c.reply
  registries _ := rfl
  moves := by simpa only [bare_empty] using bare_moves .empty as
  exchange := rfl
  invoked := by simpa only [bare_empty] using bare_invoked .empty as

/-- Layers change nothing but the records, all of them together and each by itself. -/
theorem transparent_and_recorded {as : List Action} {d : Deployment} (run : Run .empty as d) :
    (∃ d₁, Alike as d d₁) ∧ Recorded (trace .empty as) d ∧
      ∀ e kind, d.hubs[e.hub]?.isSome → d.Wraps e kind := by
  have ledger := Ledger.start.along run
  refine ⟨⟨d.bare, alike_bare run⟩, ⟨ledger.measurements, ledger.answered⟩, fun e kind h => ?_⟩
  obtain ⟨hub, h⟩ := Option.isSome_iff_exists.mp h
  exact wraps h kind

/-- A memory hub behind two layers and a hub on a broker that fails, with calls that overlap. -/
def layered : List Action :=
  [.newToken, .openMemory, .build ⟨some .relayed, some ⟨0, []⟩, "rolls", 4⟩,
    .setFaults (some "down") none none,
    .subscribe ⟨0, ["inner", "outer"]⟩ "r" "s" (.outside 0 "teller"),
    .notify ⟨0, ["inner", "outer"]⟩ oneRoll, .notify ⟨0, ["other"]⟩ oneRoll,
    .notify ⟨1, ["broker"]⟩ oneRoll, .start 0 0, .start 1 0, .finish 1 0 (.failure "lost"),
    .conclude 1, .unsubscribe ⟨0, ["inner"]⟩ "r" "s"]

/-- The notification that is still under way has left no record. -/
theorem transparent_and_recorded_layered :
    ∃ d, Run .empty layered d ∧ (∃ d₁, Alike layered d d₁) ∧ Recorded (trace .empty layered) d ∧
      d.Wraps ⟨1, ["broker"]⟩ "outermost" ∧ d.answer? (.dispatched 0) = none ∧
      d.measurements =
        [⟨.subscriber, "inner", "subscribe_dice_roll_created", true⟩,
          ⟨.subscriber, "outer", "subscribe_dice_roll_created", true⟩,
          ⟨.notifier, "broker", "notify_dice_roll_created", false⟩,
          ⟨.notifier, "other", "notify_dice_roll_created", true⟩,
          ⟨.subscriber, "inner", "unsubscribe_dice_roll_created", true⟩] := by
  obtain ⟨d, hd⟩ : ∃ d, layered.foldlM perform .empty = some d := ⟨_, rfl⟩
  obtain ⟨alike, recorded, wraps⟩ := transparent_and_recorded (run_iff.mpr hd)
  have hwraps : d.Wraps ⟨1, ["broker"]⟩ "outermost" := wraps _ _ (by cases hd; rfl)
  have hend : d.answer? (.dispatched 0) = none ∧ d.measurements =
      [⟨.subscriber, "inner", "subscribe_dice_roll_created", true⟩,
        ⟨.subscriber, "outer", "subscribe_dice_roll_created", true⟩,
        ⟨.notifier, "broker", "notify_dice_roll_created", false⟩,
        ⟨.notifier, "other", "notify_dice_roll_created", true⟩,
        ⟨.subscriber, "inner", "unsubscribe_dice_roll_created", true⟩] := by
    cases hd
    exact ⟨rfl, rfl⟩
  exact ⟨d, run_iff.mpr hd, alike, recorded, hwraps, hend⟩

end Deployment

end DiceRooms
