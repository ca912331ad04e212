import DiceRooms.Proofs.Deployment.Errors
import DiceRooms.Proofs.Deployment.Front

/-!
The books of broadcasts. When a broadcast is concluded its report counts how the handlers that
were registered when it began have ended, and each of those that failed has one record among
the errors, with its own subscriber and its own reason. What the handlers do to the registry
meanwhile, and which other broadcasts they begin, does not enter into it.
-/
namespace DiceRooms

def Progress.outcome? : Progress → Option Outcome
  | ended o => some o
  | _ => none

def Core.outcome? (c : Core) (n i : Nat) : Option Outcome :=
  (c.progress? n i).bind Progress.outcome?

/-- How the invocation ends, if the event is its end. -/
def Event.outcome? (n i : Nat) (e : Event) : Option Outcome :=
  (e.after? n i).bind Progress.outcome?

/-- Every end of an invocation, in order. -/
def History.ended (n i : Nat) (h : History) : List Outcome :=
  h.filterMap (·.2.outcome? n i)

def Event.concludes? : Event → Option Nat
  | conclude n _ => some n
  | _ => none

/-- The dispatches in the order in which they have been concluded. -/
def History.concluded (h : History) : List Nat := h.filterMap (·.2.concludes?)

/-- The notice of a handler that has failed. -/
def Notice.ofHandler : Notice → Bool
  | handlerFailed .. => true
  | _ => false

/-- The records of failed handlers, the oldest first. -/
def Deployment.failures (d : Deployment) : List Notice := d.errors.filter Notice.ofHandler

/-- What has to be recorded of the dispatch of the given number. -/
def Core.failuresOf (c : Core) (n : Nat) : List Notice :=
  ((c.dispatches[n]?).map Deployment.failureNotices).getD []

/-! Every invocation ends once. -/

theorem outcome?_apply {c : Core} {e : Event} (possible : e.Possible c) (n i : Nat) :
    ((c.apply e).outcome? n i).toList = (c.outcome? n i).toList ++ (e.outcome? n i).toList := by
  rw [Core.outcome?, Core.outcome?, Event.outcome?, progress?_apply]
  cases hafter : e.after? n i with
  | some after =>
      obtain ⟨first, rfl, hrank, hfirst⟩ := progress?_of_after? possible hafter
      have hopen : first.outcome? = none := by
        cases first with
        | waiting | running => rfl
        | ended o => cases after <;> simp [Progress.rank] at hrank
      rw [if_neg (Core.ne_of_progress? hfirst), hfirst]
      simp [hopen]
  | none =>
      split
      · next hn =>
          rw [hn, c.progress?_length]
          cases e.opened? with
          | none => rfl
          | some p => cases hi : p.broadcast[i]? <;> simp [hi, Progress.outcome?]
      · simp

theorem Reached.ended_eq {h : History} {c : Core} (reached : Reached h c) (n i : Nat) :
    h.ended n i = (c.outcome? n i).toList := by
  induction reached with
  | start => rfl
  | @step h c e before possible ih =>
      rw [outcome?_apply possible, ← ih, History.ended, Broker.filterMap_concat]
      rfl

/-! A dispatch is concluded once, and nothing is added to it afterwards. -/

def Core.Concluded (c : Core) (n : Nat) : Prop :=
  ∃ p, c.dispatches[n]? = some p ∧ p.concluded = true

theorem Event.concludes?_eq_some {e : Event} {n : Nat} (h : e.concludes? = some n) :
    ∃ p, e = .conclude n p := by
  cases e with
  | conclude k p =>
      cases h
      exact ⟨p, rfl⟩
  | _ => cases h

theorem concluded_apply {c : Core} {e : Event} (possible : e.Possible c) (n : Nat) :
    (c.apply e).Concluded n ↔ c.Concluded n ∨ e.concludes? = some n := by
  constructor
  · rintro ⟨p, hp, hconcluded⟩
    rcases Core.of_getElem?_dispatches_apply hp with ⟨-, hopened⟩ | ⟨old, hold, rfl⟩
    · cases (concluded_of_opened hopened).symm.trans hconcluded
    · rcases (concluded_onDispatch n old e).mp hconcluded with hbefore | ⟨q, rfl⟩
      · exact .inl ⟨old, hold, hbefore⟩
      · exact .inr rfl
  · rintro (⟨p, hp, hconcluded⟩ | hconcludes)
    · exact ⟨_, Core.getElem?_dispatches_apply_of_some hp e,
        (concluded_onDispatch n p e).mpr (.inl hconcluded)⟩
    · obtain ⟨q, rfl⟩ := Event.concludes?_eq_some hconcludes
      exact ⟨_, Core.getElem?_dispatches_apply_of_some possible.1 _,
        (concluded_onDispatch n q _).mpr (.inr ⟨q, rfl⟩)⟩

theorem not_concluded_of_possible {c : Core} {n : Nat} {p : Dispatch}
    (possible : (Event.conclude n p).Possible c) : ¬ c.Concluded n := by
  rintro ⟨q, hq, hconcluded⟩
  obtain rfl : p = q := Option.some.inj (possible.1.symm.trans hq)
  cases possible.2.2.symm.trans hconcluded

theorem History.concluded_concat (h : History) (s : Core × Event) :
    History.concluded (h ++ [s]) = h.concluded ++ s.2.concludes?.toList :=
  Broker.filterMap_concat _ h s

theorem Reached.mem_concluded {h : History} {c : Core} (reached : Reached h c) (n : Nat) :
    n ∈ h.concluded ↔ c.Concluded n := by
  induction reached with
  | start => simp [History.concluded, Core.Concluded, Core.empty]
  | @step h c e before possible ih =>
      rw [History.concluded_concat, List.mem_append, ih, concluded_apply possible,
        Option.mem_toList]

theorem Reached.nodup_concluded {h : History} {c : Core} (reached : Reached h c) :
    h.concluded.Nodup := by
  induction reached with
  | start => exact List.nodup_nil
  | @step h c e before possible ih =>
      rw [History.concluded_concat]
      cases hconcludes : e.concludes? with
      | none =>
          rw [Option.toList_none, List.append_nil]
          exact ih
      | some k =>
          obtain ⟨q, rfl⟩ := Event.concludes?_eq_some hconcludes
          refine List.nodup_append.mpr ⟨ih, List.nodup_cons.mpr ⟨List.not_mem_nil, .nil⟩, ?_⟩
          rintro n hn m hm rfl
          obtain rfl := List.mem_singleton.mp hm
          exact not_concluded_of_possible possible ((before.mem_concluded n).mp hn)

/-- What has to be recorded of a concluded dispatch does not change any more. -/
theorem failuresOf_apply {h : History} {c : Core} {e : Event} (reached : Reached h c)
    (possible : e.Possible c) {n : Nat} (hn : c.Concluded n) :
    (c.apply e).failuresOf n = c.failuresOf n := by
  obtain ⟨p, hp, hconcluded⟩ := hn
  rw [Core.failuresOf, Core.failuresOf, Core.getElem?_dispatches_apply_of_some hp e, hp]
  cases e with
  | proceed k i first after =>
      rw [Event.onDispatch, if_neg]
      rintro rfl
      cases (not_over_of_proceed possible hp).symm.trans (reached.over_of_concluded hp hconcluded)
  | conclude k q =>
      rw [Event.onDispatch]
      split <;> rfl
  | _ => rfl

/-- An event that concludes a dispatch records its failures; no other event records any. -/
theorem failures_errors {c : Core} {e : Event} (possible : e.Possible c) :
    e.errors.filter Notice.ofHandler = e.concludes?.toList.flatMap (c.apply e).failuresOf := by
  cases e with
  | conclude n p =>
      have hall : (Deployment.failureNotices p).filter Notice.ofHandler =
          Deployment.failureNotices p := by
        refine List.filter_eq_self.mpr fun notice hnotice => ?_
        obtain ⟨_, -, rfl⟩ := List.mem_map.mp hnotice
        rfl
      have hafter : (c.apply (.conclude n p)).failuresOf n = Deployment.failureNotices p := by
        rw [Core.failuresOf, Core.getElem?_dispatches_apply_of_some possible.1, Event.onDispatch,
          if_pos rfl]
        rfl
      show (Deployment.failureNotices p).filter _ = [n].flatMap _
      rw [hall, List.flatMap_singleton, hafter]
  | turn n hub t =>
      cases t with
      | undecodable m =>
          obtain ⟨e, hdecode⟩ := possible.2.2
          rw [Event.errors, hdecode]
          rfl
      | _ => rfl
  | _ => rfl

theorem Reached.failures {h : History} {c : Core} (reached : Reached h c) :
    h.errors.filter Notice.ofHandler = h.concluded.flatMap c.failuresOf := by
  induction reached with
  | start => rfl
  | @step h c e before possible ih =>
      have hkept : h.concluded.flatMap (c.apply e).failuresOf =
          h.concluded.flatMap c.failuresOf :=
        List.flatMap_congr fun n hn =>
          failuresOf_apply before possible ((before.mem_concluded n).mp hn)
      rw [History.concluded_concat, List.flatMap_append, hkept, ← ih, ← failures_errors possible,
        ← List.filter_append, History.errors, List.flatMap_append]
      simp [History.errors]

/-! Broadcasts that are over. -/

/-- The handlers with how they have ended. -/
def Broadcast.ofOutcomes (audience : List (String × Handler)) (os : List Outcome) : Broadcast :=
  List.zipWith (fun entry o => ⟨entry.1, entry.2, .ended o⟩) audience os

namespace Broadcast

theorem exists_ofOutcomes {b : Broadcast} (hover : b.isOver = true) :
    ∃ os : List Outcome, os.length = b.length ∧
      b = ofOutcomes (b.map fun inv => (inv.subscriber, inv.handler)) os := by
  induction b with
  | nil => exact ⟨[], rfl, rfl⟩
  | cons inv b ih =>
      obtain ⟨hended, hrest⟩ : inv.isEnded = true ∧ isOver b = true := by
        simpa [isOver] using hover
      obtain ⟨os, hlength, hb⟩ := ih hrest
      obtain ⟨subscriber, handler, progress⟩ := inv
      cases progress with
      | waiting | running => cases hended
      | ended o =>
          refine ⟨o :: os, congrArg (· + 1) hlength, ?_⟩
          exact congrArg (⟨subscriber, handler, .ended o⟩ :: ·) hb

theorem report_ofOutcomes {audience : List (String × Handler)} {os : List Outcome}
    (h : os.length = audience.length) :
    (ofOutcomes audience os).report = ⟨os.count .success, os.countP (· ≠ .success)⟩ := by
  induction os generalizing audience with
  | nil =>
      obtain rfl := List.eq_nil_of_length_eq_zero h.symm
      rfl
  | cons o os ih =>
      obtain ⟨entry, audience, rfl⟩ := List.exists_cons_of_length_eq_add_one h.symm
      obtain ⟨hdelivered, hfailed⟩ := Report.mk.inj (ih (Nat.succ.inj h))
      have hfailure : o.reason?.isSome = decide (o ≠ .success) := by
        rw [Bool.eq_iff_iff, decide_eq_true_iff, Option.isSome_iff_ne_none, ne_eq, ne_eq,
          Outcome.reason?_eq_none_iff]
      show Report.mk ((⟨entry.1, entry.2, .ended o⟩ :: ofOutcomes audience os).countP _)
        ((⟨entry.1, entry.2, .ended o⟩ :: ofOutcomes audience os).countP _) = _
      rw [List.countP_cons, List.countP_cons, hdelivered, hfailed, List.count_cons,
        List.countP_cons, ← hfailure]
      rfl

theorem failures_ofOutcomes {audience : List (String × Handler)} {os : List Outcome}
    (room : String) :
    (ofOutcomes audience os).failures.map
        (fun (inv, reason) => Notice.handlerFailed room inv.subscriber inv.handler.name reason) =
      (audience.zip os).filterMap fun (entry, o) =>
        o.reason?.map (.handlerFailed room entry.1 entry.2.name ·) := by
  induction os generalizing audience with
  | nil => cases audience <;> rfl
  | cons o os ih =>
      cases audience with
      | nil => rfl
      | cons entry audience =>
          have hrest := @ih audience
          show (List.filterMap _ (⟨entry.1, entry.2, .ended o⟩ :: ofOutcomes audience os)).map _ = _
          rw [List.zip_cons_cons, List.filterMap_cons, List.filterMap_cons, ← hrest]
          have hreason : Invocation.reason? ⟨entry.1, entry.2, .ended o⟩ = o.reason? := rfl
          simp only [hreason]
          cases o.reason? <;> rfl

theorem outcome?_ofOutcomes {audience : List (String × Handler)} {os : List Outcome}
    (h : os.length = audience.length) (i : Nat) :
    (ofOutcomes audience os)[i]?.bind Invocation.outcome? = os[i]? := by
  rw [ofOutcomes, List.getElem?_zipWith]
  by_cases hi : i < os.length
  · rw [List.getElem?_eq_getElem hi, List.getElem?_eq_getElem (h ▸ hi)]
    rfl
  · rw [List.getElem?_eq_none (Nat.not_lt.mp hi), List.getElem?_eq_none (h ▸ Nat.not_lt.mp hi)]
    rfl

end Broadcast

theorem Core.outcome?_eq {c : Core} {n : Nat} {p : Dispatch} (hp : c.dispatches[n]? = some p)
    (i : Nat) : c.outcome? n i = p.broadcast[i]?.bind Invocation.outcome? := by
  rw [Core.outcome?, Core.progress?, hp, Option.bind_some]
  cases p.broadcast[i]? with
  | none => rfl
  | some inv => obtain ⟨subscriber, handler, progress⟩ := inv; cases progress <;> rfl

/-- A dispatch still tells what it was begun to tell. -/
theorem Reached.telling_of_at {h before : History} {c c₀ : Core} {e : Event} {p : Dispatch}
    (reached : Reached h c) (hat : h.At before c₀ e) (hopened : e.opened? = some p) :
    ∃ q, c.dispatches[c₀.dispatches.length]? = some q ∧ q.telling = p.telling := by
  have htelling : e.telling? = some p.telling := by
    rcases Event.opened?_eq_some hopened with ⟨endpoint, registry, r, rfl, rfl⟩ |
      ⟨n, hub, m, r, number, rfl, rfl⟩
    · exact congrArg some (telling_begin (.caller endpoint) registry r).symm
    · exact congrArg some (telling_begin (.receiver n) hub.registry r).symm
  have hbefore := (reached.upTo hat).1.tellings
  have hall := reached.tellings
  obtain ⟨after, rfl⟩ := hat
  have hlength : c₀.dispatches.length = (before.filterMap (·.2.telling?)).length := by
    rw [← hbefore, List.length_map]
  have hfound : (c.dispatches.map Dispatch.telling)[c₀.dispatches.length]? = some p.telling := by
    have hhere := List.filterMap_cons_some (f := fun s : Core × Event => s.2.telling?)
      (a := (c₀, e)) (l := after) htelling
    rw [hall, List.filterMap_append, hhere, hlength, List.getElem?_append_right (Nat.le_refl _),
      Nat.sub_self]
    rfl
  rw [List.getElem?_map, Option.map_eq_some_iff] at hfound
  exact hfound

/-- What a broadcast has found when it began: the registry of a hub, in which every
subscriber of the room stands once, with its handler. -/
structure Began (c : Core) (p : Dispatch) (registry : Registry Handler) : Prop where
  found : c.registryOf? p.owner.hub = some registry
  begun : p = .begin p.owner registry p.roll
  nodup : ((registry.snapshot p.roll.room).map Prod.fst).Nodup
  registered : ∀ subscriber f, (subscriber, f) ∈ registry.snapshot p.roll.room ↔
    registry.get? p.roll.room subscriber = some f

theorem Began.audience {c : Core} {p : Dispatch} {registry : Registry Handler}
    (began : Began c p registry) : p.audience = registry.snapshot p.roll.room := by
  rw [began.begun]
  exact congrArg Telling.audience (telling_begin p.owner registry p.roll)

/-- The books of a broadcast that has been concluded: how the handlers that the registry had
for the room have ended, in its order. -/
structure Accounted (h : History) (d : Deployment) (n : Nat) (registry : Registry Handler)
    (r : Roll) (os : List Outcome) : Prop where
  length : os.length = registry.subscriberCount r.room
  /-- Every handler has begun once and has run to its end. -/
  begun : ∀ i < os.length, h.begun n i = 1
  ended : ∀ i, h.ended n i = os[i]?.toList
  report : d.report n = ⟨os.count .success, os.countP (· ≠ .success)⟩
  invoked : (d.report n).invoked = registry.subscriberCount r.room
  /-- Of every handler that has failed there is one record, by its subscriber and its reason,
  and of no other. -/
  failures : d.core.failuresOf n = ((registry.snapshot r.room).zip os).filterMap
    fun (entry, o) => o.reason?.map (.handlerFailed r.room entry.1 entry.2.name ·)

structure Books (h : History) (d : Deployment) : Prop where
  began : ∀ {before c e p}, h.At before c e → e.opened? = some p →
    ∃ registry, Began c p registry ∧ (d.isConcluded c.dispatches.length = true →
      ∃ os, Accounted h d c.dispatches.length registry p.roll os)
  /-- Every broadcast is concluded once at most, and the records of those that are concluded are
  all there are. -/
  once : h.concluded.Nodup
  concluded : ∀ n, n ∈ h.concluded ↔ d.isConcluded n = true
  recorded : d.failures = h.concluded.flatMap d.core.failuresOf
  /-- A handler can begin, and once it has it can end in any way. -/
  starts : ∀ {n p i inv}, d.dispatches[n]? = some p → p.broadcast[i]? = some inv →
    inv.progress = .waiting → ∃ d', d.perform (.start n i) = some d'
  finishes : ∀ {n p i inv}, d.dispatches[n]? = some p → p.broadcast[i]? = some inv →
    inv.progress = .running → ∀ o, ∃ d', d.perform (.finish n i o) = some d'
  concludes : ∀ {n p}, d.dispatches[n]? = some p → p.broadcast.isOver = true →
    p.concluded = false → ∃ d', d.perform (.conclude n) = some d'

theorem began_of_opened {h : History} {c : Core} {e : Event} {p : Dispatch}
    (reached : Reached h c) (possible : e.Possible c) (hopened : e.opened? = some p) :
    ∃ registry, Began c p registry := by
  obtain ⟨registry, owner, r, hfound, rfl⟩ := registryOf?_of_opened possible hopened
  have hkeyed := reached.keyed_of_registryOf? hfound
  exact ⟨registry, hfound, rfl, Registry.nodup_snapshot hkeyed r.room,
    Registry.mem_snapshot_iff hkeyed r.room⟩

namespace Deployment

variable {d : Deployment}

theorem isConcluded_iff (d : Deployment) (n : Nat) :
    d.isConcluded n = true ↔ d.core.Concluded n := by
  rw [isConcluded, Core.Concluded, getElem?_core_dispatches]
  cases d.dispatches[n]? with
  | none => simp
  | some p => simp

theorem accounted_of_over {h : History} {n : Nat} {q : Dispatch} {registry : Registry Handler}
    (reached : Reached h d.core) (hq : d.core.dispatches[n]? = some q)
    (hover : q.broadcast.isOver = true)
    (haudience : q.audience = registry.snapshot q.roll.room) :
    ∃ os, Accounted h d n registry q.roll os := by
  obtain ⟨os, hlength, hbroadcast⟩ := Broadcast.exists_ofOutcomes hover
  replace hbroadcast : q.broadcast = .ofOutcomes (registry.snapshot q.roll.room) os :=
    hbroadcast.trans (congrArg (Broadcast.ofOutcomes · os) haudience)
  have hsize : os.length = (registry.snapshot q.roll.room).length := by
    rw [hlength, ← haudience, Dispatch.audience, List.length_map]
  have hreport : d.report n = q.broadcast.report := by
    rw [Deployment.report, ← getElem?_core_dispatches, hq]
    rfl
  refine ⟨os, hsize, ?_, ?_, ?_, ?_, ?_⟩
  · intro i hi
    exact begun_of_over reached hq hover (by rwa [haudience, ← hsize])
  · intro i
    rw [reached.ended_eq, Core.outcome?_eq hq, hbroadcast, Broadcast.outcome?_ofOutcomes hsize]
  · rw [hreport, hbroadcast, Broadcast.report_ofOutcomes hsize]
  · rw [hreport, Broadcast.invoked_report hover, ← hlength]
    exact hsize
  · rw [Core.failuresOf, hq, Option.map_some, Option.getD_some, failureNotices, hbroadcast]
    exact Broadcast.failures_ofOutcomes q.roll.room

/-- Whatever handlers do and however they end, the books of broadcasts are right. -/
theorem broadcasts_accounted {as : List Action} (run : Run .empty as d) :
    Books (history .empty as) d := by
  have reached := run.reached
  refine ⟨?_, reached.nodup_concluded, ?_, ?_, ?_, ?_, ?_⟩
  · intro before c e p hat hopened
    obtain ⟨reached₀, possible⟩ := reached.upTo hat
    obtain ⟨registry, began⟩ := began_of_opened reached₀ possible hopened
    refine ⟨registry, began, fun hconcluded => ?_⟩
    obtain ⟨q, hq, htelling⟩ := reached.telling_of_at hat hopened
    obtain ⟨-, hroll, haudience⟩ := Telling.mk.inj htelling
    obtain ⟨q', hq', hdone⟩ := (d.isConcluded_iff _).mp hconcluded
    obtain rfl : q = q' := Option.some.inj (hq.symm.trans hq')
    rw [← hroll]
    refine accounted_of_over reached hq (reached.over_of_concluded hq hdone) ?_
    rw [haudience, hroll]
    exact began.audience
  · intro n
    rw [reached.mem_concluded, isConcluded_iff]
  · rw [Deployment.failures, errors_run run, List.filter_append, reached.failures]
    rfl
  · exact fun hp hinv hwaiting => perform_start hp hinv hwaiting
  · exact fun hp hinv hrunning => perform_finish hp hinv hrunning
  · exact fun hp hover hopen => perform_conclude hp hover hopen

/-- While the first handler of the first broadcast runs, both subscriptions change and another
broadcast begins. It panics, and the other fails. -/
theorem broadcasts_accounted_meddling :
    ∃ d, Run .empty (gathering ++ .notify ⟨0, []⟩ oneRoll :: meddling) d ∧
      d.report 0 = ⟨0, 2⟩ ∧ d.report 1 = ⟨1, 0⟩ ∧
      d.failures = [.handlerFailed "r" "s" "old" "handler panicked: unknown panic",
        .handlerFailed "r" "t" "other" "lost"] := by
  obtain ⟨d, hd⟩ : ∃ d, (gathering ++ .notify ⟨0, []⟩ oneRoll :: meddling).foldlM perform .empty =
    some d := ⟨_, rfl⟩
  have run := run_iff.mpr hd
  have hreports : d.report 0 = ⟨0, 2⟩ ∧ d.report 1 = ⟨1, 0⟩ := by
    cases hd
    exact ⟨rfl, rfl⟩
  have hrecorded := (broadcasts_accounted run).recorded
  refine ⟨d, run, hreports.1, hreports.2, hrecorded.trans ?_⟩
  cases hd
  rfl

end Deployment

end DiceRooms
