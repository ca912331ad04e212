import DiceRooms.Proofs.Deployment.Serving
import DiceRooms.Proofs.Deployment.Conduct
import Mathlib.Data.List.Nodup

/-!
Services in their dealings with callers, rollers and notifiers. Any number of rolls may be under
way, and steps for them may come in any order. The notifier of a service is a hub of the
deployment, or somebody from outside who is handed a roll and answers when and as he likes, or
never.
-/
namespace DiceRooms

/-- An action, or what a notifier from outside does. -/
inductive Dealing
  | act (a : Action)
  /-- It is handed the roll of a creation. -/
  | hand (creation : Nat)
  /-- It is done with the roll. -/
  | answer (creation : Nat) (result : Except HubError Unit)

/-- Dealings in their order, each with the deployment that it meets. -/
abbrev Dealings := List (Deployment × Dealing)

/-- The creation that goes on. -/
def Dealing.creation? : Dealing → Option Nat
  | act (.throwDice n _) | act (.tellRoll n) | act (.endCreation n) | hand n | answer n _ => some n
  | _ => none

theorem Dealing.creation?_of_not_serves {a : Action} (ha : a.serves = false) :
    (act a).creation? = none := by
  cases a with
  | addService | requestRoll | throwDice | tellRoll | endCreation => cases ha
  | _ => rfl

namespace Dealings

/-- The creation that begins when the service takes a request that passes. -/
def callAt (k : Nat) : Deployment × Dealing → Option Nat
  | (d, .act (.requestRoll service _ _ q)) =>
    if service = k ∧ q.check.isOk = true then some d.creations.length else none
  | _ => none

/-- The calls of a service that have passed, each by its creation, in the order in which they
have taken the counter. -/
def calls (k : Nat) (tr : Dealings) : List Nat := tr.filterMap (callAt k)

/-- The roll that a notifier is told of, with its creation. -/
def notifiedAt : Deployment × Dealing → Option (Nat × Roll)
  | (d, .act (.tellRoll n)) | (d, .hand n) => d.creations[n]?.map fun c => (n, c.roll)
  | _ => none

def notified (tr : Dealings) : List (Nat × Roll) := tr.filterMap notifiedAt

/-- The roller or the notifier fails with the roll of the creation. -/
inductive FailsAt (n : Nat) : Deployment × Dealing → Prop
  | roller {d : Deployment} {c : Creation} {throw : Roll → Except DiceError Roll} {e : DiceError}
      (hc : d.creations[n]? = some c) (fails : throw c.roll = .error e) :
      FailsAt n (d, .act (.throwDice n throw))
  | notifier {d : Deployment} {c : Creation} {s : Service} {e : HubError}
      (hc : d.creations[n]? = some c) (hs : d.services[c.service]? = some s)
      (fails : (d.notify s.notifier c.roll).2 = .done (.error e)) :
      FailsAt n (d, .act (.tellRoll n))
  | outside {d : Deployment} {e : HubError} : FailsAt n (d, .answer n (.error e))

def Failed (tr : Dealings) (n : Nat) : Prop := ∃ s ∈ tr, FailsAt n s

/-- The roll has been handed to a notifier from outside. -/
def Handed (tr : Dealings) (n : Nat) : Prop := ∃ d, (d, .hand n) ∈ tr

variable {tr : Dealings} {s : Deployment × Dealing} {k n : Nat} {r : Roll}

theorem calls_concat : calls k (tr ++ [s]) = tr.calls k ++ (callAt k s).toList :=
  Broker.filterMap_concat (callAt k) tr s

theorem notified_concat : notified (tr ++ [s]) = tr.notified ++ (notifiedAt s).toList :=
  Broker.filterMap_concat notifiedAt tr s

theorem failed_concat : Failed (tr ++ [s]) n ↔ tr.Failed n ∨ FailsAt n s := by
  simp [Failed, List.mem_append, or_and_right, exists_or]

theorem handed_concat : Handed (tr ++ [s]) n ↔ tr.Handed n ∨ s.2 = .hand n := by
  obtain ⟨d, x⟩ := s
  simp [Handed, List.mem_append, exists_or, eq_comm]

theorem creation?_of_notifiedAt {d : Deployment} {x : Dealing}
    (h : notifiedAt (d, x) = some (n, r)) :
    x.creation? = some n ∧ ∃ c, d.creations[n]? = some c ∧ c.roll = r := by
  have htold : ∀ m : Nat, (d.creations[m]?.map fun c => (m, c.roll)) = some (n, r) →
      m = n ∧ ∃ c, d.creations[n]? = some c ∧ c.roll = r := by
    intro m hm
    obtain ⟨c, hc, heq⟩ := Option.map_eq_some_iff.mp hm
    cases heq
    exact ⟨rfl, c, hc, rfl⟩
  cases x with
  | act a =>
      cases a with
      | tellRoll m =>
          obtain ⟨rfl, hc⟩ := htold m h
          exact ⟨rfl, hc⟩
      | _ => cases h
  | hand m =>
      obtain ⟨rfl, hc⟩ := htold m h
      exact ⟨rfl, hc⟩
  | answer m result => cases h

theorem FailsAt.creation? (fails : FailsAt n s) : s.2.creation? = some n := by
  cases fails <;> rfl

theorem callAt_of_creation? {d : Deployment} {x : Dealing} (h : x.creation? = some n) :
    callAt k (d, x) = none := by
  cases x with
  | act a => cases a with
    | requestRoll _ _ _ _ => cases h
    | _ => rfl
  | _ => rfl

end Dealings

/-- Whoever throws dice leaves the serial of the roll alone. -/
def Action.KeepsSerial : Action → Prop
  | throwDice _ throw => ∀ r r', throw r = .ok r' → r'.serial = r.serial
  | _ => True

/-- One more dealing. A roll that has been handed to somebody outside is his to answer for. -/
inductive Deals (tr : Dealings) (d : Deployment) : Dealing → Deployment → Prop
  | act {a : Action} {d' : Deployment} (keeps : a.KeepsSerial)
      (own : ∀ n, a = .tellRoll n → ¬ tr.Handed n) (performed : d.perform a = some d') :
      Deals tr d (.act a) d'
  | hand {n : Nat} {c : Creation} (hc : d.creations[n]? = some c) (thrown : c.stage = .thrown)
      (first : ¬ tr.Handed n) : Deals tr d (.hand n) d
  | answer {n : Nat} {c : Creation} (hc : d.creations[n]? = some c) (thrown : c.stage = .thrown)
      (handed : tr.Handed n) (result : Except HubError Unit) :
      Deals tr d (.answer n result) (d.setCreation n { c with stage := .ofNotified (.done result) })

/-- The dealings lead to the deployment. -/
inductive Dealt : Dealings → Deployment → Prop
  | start : Dealt [] .empty
  | step {tr : Dealings} {d d' : Deployment} {x : Dealing} (before : Dealt tr d)
      (deals : Deals tr d x d') : Dealt (tr ++ [(d, x)]) d'

/-! The life of one creation. -/

section
variable {tr : Dealings} {d d' : Deployment} {x : Dealing} {n : Nat}

/-- How the creation of the given number goes on; before it begins nothing is there. -/
inductive Passes (tr : Dealings) (d : Deployment) (n : Nat) :
    Dealing → Option Creation → Option Creation → Prop
  | stays {x : Dealing} (o : Option Creation) (elsewhere : x.creation? ≠ some n) :
      Passes tr d n x o o
  | begins {x : Dealing} {c : Creation} (elsewhere : x.creation? ≠ some n)
      (drafted : c.stage = .drafted) : Passes tr d n x none (some c)
  | proceeds {a : Action} {c c' : Creation} (hc : d.creations[n]? = some c)
      (proceeds : d.Proceeds n c a c') (own : ∀ m, a = .tellRoll m → ¬ tr.Handed m) :
      Passes tr d n (.act a) (some c) (some c')
  | hand {c : Creation} (hc : d.creations[n]? = some c) (thrown : c.stage = .thrown)
      (first : ¬ tr.Handed n) : Passes tr d n (.hand n) (some c) (some c)
  | answer {c : Creation} (hc : d.creations[n]? = some c) (thrown : c.stage = .thrown)
      (handed : tr.Handed n) (result : Except HubError Unit) :
      Passes tr d n (.answer n result) (some c)
        (some { c with stage := .ofNotified (.done result) })

theorem Deployment.Proceeds.creation? {c c' : Creation} {a : Action}
    (proceeds : d.Proceeds n c a c') : (Dealing.act a).creation? = some n := by
  cases proceeds <;> rfl

theorem getElem?_set_of_some {α : Type} {l : List α} {a : α} {m : Nat} (hm : l[m]? = some a)
    (b : α) (k : Nat) : (l.set m b)[k]? = if m = k then some b else l[k]? := by
  rw [List.getElem?_set]
  split
  · next heq =>
      rw [if_pos (heq ▸ (List.getElem?_eq_some_iff.mp hm).1)]
  · rfl

theorem Passes.of_perform {a : Action} (performed : d.perform a = some d')
    (own : ∀ n, a = .tellRoll n → ¬ tr.Handed n) (n : Nat) :
    Passes tr d n (.act a) d.creations[n]? d'.creations[n]? := by
  cases Deployment.serves_perform performed with
  | aside ha services creations =>
      rw [creations]
      refine .stays _ ?_
      rw [Dealing.creation?_of_not_serves ha]
      exact nofun
  | opens services creations =>
      rw [creations]
      exact .stays _ nofun
  | refuses refused same =>
      rw [same]
      exact .stays _ nofun
  | accepts accepted hs services creations =>
      rw [creations, getElem?_concat]
      split
      · next heq =>
          rw [List.getElem?_eq_none (Nat.le_of_eq heq.symm)]
          exact .begins nofun rfl
      · exact .stays _ nofun
  | proceeds hc proceeds services creations =>
      rw [creations, getElem?_set_of_some hc]
      split
      · next heq =>
          subst heq
          rw [hc]
          exact .proceeds hc proceeds own
      · next hne =>
          refine .stays _ fun h => hne ?_
          exact Option.some.inj (proceeds.creation?.symm.trans h)

theorem Passes.of_hand {m : Nat} {c : Creation} (hc : d.creations[m]? = some c)
    (thrown : c.stage = .thrown) (first : ¬ tr.Handed m) (n : Nat) :
    Passes tr d n (.hand m) d.creations[n]? d.creations[n]? := by
  by_cases heq : m = n
  · subst heq
    rw [hc]
    exact .hand hc thrown first
  · exact .stays _ fun h => heq (Option.some.inj h)

theorem Passes.of_answer {m : Nat} {c : Creation} (hc : d.creations[m]? = some c)
    (thrown : c.stage = .thrown) (handed : tr.Handed m) (result : Except HubError Unit)
    (n : Nat) :
    Passes tr d n (.answer m result) d.creations[n]?
      (d.setCreation m { c with stage := .ofNotified (.done result) }).creations[n]? := by
  rw [Deployment.setCreation, getElem?_set_of_some hc]
  split
  · next heq =>
      subst heq
      rw [hc]
      exact .answer hc thrown handed result
  · next hne => exact .stays _ fun h => hne (Option.some.inj h)

theorem Deals.passes (deals : Deals tr d x d') (n : Nat) :
    Passes tr d n x d.creations[n]? d'.creations[n]? := by
  cases deals with
  | act keeps own performed => exact .of_perform performed own n
  | hand hc thrown first => exact .of_hand hc thrown first n
  | answer hc thrown handed result => exact .of_answer hc thrown handed result n

/-- What dealings have made of a creation. -/
structure Follows (tr : Dealings) (n : Nat) (o : Option Creation) : Prop where
  told : ∀ {r}, (n, r) ∈ tr.notified → ∃ c, o = some c ∧ c.roll = r ∧ c.stage ≠ .drafted ∧
    (c.stage = .thrown → tr.Handed n)
  failed : tr.Failed n ↔ ∃ c e, o = some c ∧ c.stage = .ended (.error e)

theorem Follows.not_failed {c : Creation} (follows : Follows tr n (some c))
    (hstage : ∀ e, c.stage ≠ .ended (.error e)) : ¬ tr.Failed n := by
  intro failed
  obtain ⟨c', e, heq, hended⟩ := follows.failed.mp failed
  cases heq
  exact hstage e hended

/-- What is told of a creation is its roll, after the dice have been thrown. -/
theorem Follows.told_of_concat {c : Creation} {r : Roll} (follows : Follows tr n (some c))
    (hc : d.creations[n]? = some c) (hr : (n, r) ∈ Dealings.notified (tr ++ [(d, x)])) :
    c.roll = r ∧ (c.stage = .drafted → Dealings.notifiedAt (d, x) = some (n, r)) := by
  rw [Dealings.notified_concat] at hr
  rcases List.mem_append.mp hr with hold | hnew
  · obtain ⟨c', heq, hroll, hstage, -⟩ := follows.told hold
    cases heq
    exact ⟨hroll, fun h => (hstage h).elim⟩
  · have hnew := Option.mem_toList.mp hnew
    obtain ⟨-, c', hc', hroll⟩ := Dealings.creation?_of_notifiedAt hnew
    cases hc.symm.trans hc'
    exact ⟨hroll, fun _ => hnew⟩

theorem Follows.elsewhere {o : Option Creation} (follows : Follows tr n o)
    (elsewhere : x.creation? ≠ some n) : Follows (tr ++ [(d, x)]) n o where
  told {r} hr := by
    rw [Dealings.notified_concat] at hr
    have hold := (List.mem_append.mp hr).resolve_right fun hnew =>
      elsewhere (Dealings.creation?_of_notifiedAt (Option.mem_toList.mp hnew)).1
    obtain ⟨c, hc, hroll, hstage, hhanded⟩ := follows.told hold
    exact ⟨c, hc, hroll, hstage, fun h => Dealings.handed_concat.mpr (.inl (hhanded h))⟩
  failed := by
    rw [Dealings.failed_concat, ← follows.failed]
    exact or_iff_left fun h => elsewhere h.creation?

theorem Follows.begins {c : Creation} (follows : Follows tr n none) (drafted : c.stage = .drafted) :
    Follows tr n (some c) where
  told hr := by
    obtain ⟨_, h, -⟩ := follows.told hr
    cases h
  failed := by
    refine iff_of_false (fun failed => ?_) ?_
    · obtain ⟨_, _, h, -⟩ := follows.failed.mp failed
      cases h
    · rintro ⟨_, e, ⟨⟩, hended⟩
      cases drafted.symm.trans hended

theorem Stage.ofNotified_eq_error_iff {notified : Notified} {e : DiceError} :
    Stage.ofNotified notified = .ended (.error e) ↔
      ∃ error, notified = .done (.error error) ∧ e = .event error := by
  rcases notified with (_ | _) | _ <;> simp [Stage.ofNotified, eq_comm]

theorem Stage.ofNotified_ne (notified : Notified) :
    Stage.ofNotified notified ≠ .drafted ∧ Stage.ofNotified notified ≠ .thrown := by
  rcases notified with (_ | _) | _ <;> exact ⟨nofun, nofun⟩

theorem Follows.proceeds {c c' : Creation} {a : Action} (follows : Follows tr n (some c))
    (hc : d.creations[n]? = some c) (proceeds : d.Proceeds n c a c') :
    Follows (tr ++ [(d, .act a)]) n (some c') := by
  cases proceeds with
  | misthrown drafted fails =>
      refine ⟨fun hr => ?_, ?_⟩
      · cases (follows.told_of_concat hc hr).2 drafted
      · rw [Dealings.failed_concat]
        exact iff_of_true (.inr (.roller hc fails)) ⟨_, _, rfl, rfl⟩
  | thrown drafted throws =>
      refine ⟨fun hr => ?_, ?_⟩
      · cases (follows.told_of_concat hc hr).2 drafted
      · rw [Dealings.failed_concat]
        refine iff_of_false ?_ ?_
        · rintro (failed | ⟨hc', fails⟩)
          · exact follows.not_failed (by simp [drafted]) failed
          · cases hc.symm.trans hc'
            cases throws.symm.trans fails
        · rintro ⟨_, e, ⟨⟩, hended⟩
          cases hended
  | told thrown hs =>
      refine ⟨fun hr => ?_, ?_⟩
      · obtain ⟨hdrafted, hthrown⟩ := Stage.ofNotified_ne (d.notify _ c.roll).2
        exact ⟨_, rfl, (follows.told_of_concat hc hr).1, hdrafted, fun h => (hthrown h).elim⟩
      · rw [Dealings.failed_concat, or_iff_right (follows.not_failed (by simp [thrown]))]
        constructor
        · rintro (_ | ⟨hc', hs', fails⟩)
          cases hc.symm.trans hc'
          cases hs.symm.trans hs'
          exact ⟨_, _, rfl, Stage.ofNotified_eq_error_iff.mpr ⟨_, fails, rfl⟩⟩
        · rintro ⟨_, e, ⟨⟩, hended⟩
          obtain ⟨error, fails, -⟩ := Stage.ofNotified_eq_error_iff.mp hended
          exact .notifier hc hs fails
  | ended telling =>
      refine ⟨fun hr => ⟨_, rfl, (follows.told_of_concat hc hr).1, nofun, nofun⟩, ?_⟩
      rw [Dealings.failed_concat, or_iff_right (follows.not_failed (by simp [telling]))]
      exact iff_of_false nofun (by simp)

theorem Follows.step {o o' : Option Creation} (follows : Follows tr n o)
    (passes : Passes tr d n x o o') : Follows (tr ++ [(d, x)]) n o' := by
  cases passes with
  | stays _ elsewhere => exact follows.elsewhere elsewhere
  | begins elsewhere drafted => exact (follows.elsewhere elsewhere).begins drafted
  | proceeds hc proceeds own => exact follows.proceeds hc proceeds
  | hand hc thrown first =>
      refine ⟨fun hr => ?_, ?_⟩
      · exact ⟨_, rfl, (follows.told_of_concat hc hr).1, by simp [thrown],
          fun _ => Dealings.handed_concat.mpr (.inr rfl)⟩
      · rw [Dealings.failed_concat, ← follows.failed]
        exact or_iff_left nofun
  | answer hc thrown handed result =>
      refine ⟨fun hr => ?_, ?_⟩
      · obtain ⟨hdrafted, hthrown⟩ := Stage.ofNotified_ne (.done result)
        exact ⟨_, rfl, (follows.told_of_concat hc hr).1, hdrafted, fun h => (hthrown h).elim⟩
      · rw [Dealings.failed_concat, or_iff_right (follows.not_failed (by simp [thrown]))]
        constructor
        · rintro ⟨⟩
          exact ⟨_, _, rfl, rfl⟩
        · rintro ⟨_, e, ⟨⟩, hended⟩
          obtain ⟨error, heq, -⟩ := Stage.ofNotified_eq_error_iff.mp hended
          cases heq
          exact .outside

theorem follows_nil (n : Nat) : Follows [] n none where
  told hr := by cases hr
  failed := by
    refine iff_of_false ?_ ?_
    · rintro ⟨s, hs, -⟩
      cases hs
    · rintro ⟨c, e, h, -⟩
      cases h

theorem Dealt.follows (dealt : Dealt tr d) (n : Nat) : Follows tr n d.creations[n]? := by
  induction dealt with
  | start => exact follows_nil n
  | step before deals ih => exact ih.step (deals.passes n)

/-- A creation of which a notifier is told has had its dice thrown, and no one has it yet. -/
theorem Deals.thrown_of_notified {r : Roll} (deals : Deals tr d x d')
    (htold : Dealings.notifiedAt (d, x) = some (n, r)) :
    ∃ c, d.creations[n]? = some c ∧ c.stage = .thrown ∧ ¬ tr.Handed n := by
  have passes := deals.passes n
  obtain ⟨hcreation, c, hc, -⟩ := Dealings.creation?_of_notifiedAt htold
  refine ⟨c, hc, ?_⟩
  rw [hc] at passes
  generalize d'.creations[n]? = o at passes
  cases passes with
  | stays _ elsewhere => exact (elsewhere hcreation).elim
  | proceeds _ proceeds own =>
      cases proceeds with
      | told thrown hs => exact ⟨thrown, own n rfl⟩
      | _ => cases htold
  | hand _ thrown first => exact ⟨thrown, first⟩
  | answer => cases htold

/-- No notifier is told of a creation again. -/
theorem Dealt.nodup_notified (dealt : Dealt tr d) : (tr.notified.map Prod.fst).Nodup := by
  induction dealt with
  | start => exact List.nodup_nil
  | @step tr d d' x before deals ih =>
      rw [Dealings.notified_concat, List.map_append]
      cases htold : Dealings.notifiedAt (d, x) with
      | none => simpa using ih
      | some told =>
          obtain ⟨n, r⟩ := told
          obtain ⟨c, hc, thrown, first⟩ := deals.thrown_of_notified htold
          rw [Option.toList_some, List.map_singleton, ← List.concat_eq_append, List.nodup_concat]
          refine ⟨fun hm => ?_, ih⟩
          obtain ⟨⟨_, r'⟩, hr', rfl⟩ := List.mem_map.mp hm
          obtain ⟨c', hc', -, -, handed⟩ := (before.follows _).told hr'
          cases hc.symm.trans hc'
          exact first (handed thrown)

/-- What callers, loops and handlers do, in their order. -/
def Dealings.ofActions (d : Deployment) (as : List Action) : Dealings :=
  (d.trace as).map fun s => (s.1, .act s.2)

theorem Dealings.not_handed_ofActions (d : Deployment) (as : List Action) (n : Nat) :
    ¬ Handed (ofActions d as) n := by
  rintro ⟨d', h⟩
  obtain ⟨s, -, heq⟩ := List.mem_map.mp h
  cases heq

theorem Dealt.run {as : List Action} (dealt : Dealt tr d) (run : d.Run as d')
    (keeps : ∀ a ∈ as, a.KeepsSerial) (own : ∀ n, .tellRoll n ∈ as → ¬ tr.Handed n) :
    Dealt (tr ++ .ofActions d as) d' := by
  induction run generalizing tr with
  | nil d =>
      rw [Dealings.ofActions, Deployment.trace, List.map_nil, List.append_nil]
      exact dealt
  | @cons d d₁ d' a as step rest ih =>
      obtain ⟨ha, has⟩ := List.forall_mem_cons.mp keeps
      have after := dealt.step (.act ha (fun n h => own n (h ▸ List.mem_cons_self)) step)
      rw [Dealings.ofActions, Deployment.trace_cons step, List.map_cons, List.append_cons]
      refine ih after has fun n hn handed => own n (List.mem_cons_of_mem _ hn) ?_
      rcases Dealings.handed_concat.mp handed with before | heq
      · exact before
      · cases heq

/-- Every run is a course of dealings. -/
theorem Dealt.of_run {as : List Action} (run : Deployment.Run .empty as d)
    (keeps : ∀ a ∈ as, a.KeepsSerial) : Dealt (.ofActions .empty as) d := by
  refine Dealt.start.run run keeps fun n _ handed => ?_
  obtain ⟨_, h⟩ := handed
  cases h

end

end DiceRooms
