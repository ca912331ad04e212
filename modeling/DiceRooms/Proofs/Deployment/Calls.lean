import DiceRooms.Proofs.Deployment.Serials
import DiceRooms.Proofs.Roller

/-!
A call for a roll, from the request to the answer, in any deployment and among any other
dealings there. A request that does not pass leaves no trace. For one that passes, the roller
is called and then the notifier, once each at most, and what they answer decides what the
caller gets.
-/
namespace DiceRooms

/-- One more dealing, with rollers that do to their rolls what they like. -/
inductive Treats (tr : Dealings) (d : Deployment) : Dealing → Deployment → Prop
  | act {a : Action} {d' : Deployment} (own : ∀ n, a = .tellRoll n → ¬ tr.Handed n)
      (performed : d.perform a = some d') : Treats tr d (.act a) d'
  | hand {n : Nat} {c : Creation} (hc : d.creations[n]? = some c) (thrown : c.stage = .thrown)
      (first : ¬ tr.Handed n) : Treats tr d (.hand n) d
  | answer {n : Nat} {c : Creation} (hc : d.creations[n]? = some c) (thrown : c.stage = .thrown)
      (handed : tr.Handed n) (result : Except HubError Unit) :
      Treats tr d (.answer n result)
        (d.setCreation n { c with stage := .ofNotified (.done result) })

/-- The dealings lead from the one deployment to the other. -/
inductive Since (d₁ : Deployment) : Dealings → Deployment → Prop
  | start : Since d₁ [] d₁
  | step {tr : Dealings} {d d' : Deployment} {x : Dealing} (before : Since d₁ tr d)
      (treats : Treats tr d x d') : Since d₁ (tr ++ [(d, x)]) d'

/-- What the notifier of a creation answers before anybody else comes to move. -/
def Deployment.answerAtOnce? (d : Deployment) (n : Nat) : Option (Except HubError Unit) := do
  let c ← d.creations[n]?
  let s ← d.services[c.service]?
  match (d.notify s.notifier c.roll).2 with
  | .done result => some result
  | .dispatched _ => none

namespace Dealings

def throwAt (n : Nat) : Deployment × Dealing → Option (Roll × Throw)
  | (d, .act (.throwDice m throw)) =>
    if m = n then d.creations[m]?.map fun c => (c.roll, throw) else none
  | _ => none

/-- The rollers that have been called for the creation, each with the roll it was given. -/
def throws (n : Nat) (tr : Dealings) : List (Roll × Throw) := tr.filterMap (throwAt n)

def toldAt (n : Nat) (s : Deployment × Dealing) : Option Roll :=
  (notifiedAt s).bind fun told => if told.1 = n then some told.2 else none

/-- The rolls that a notifier has been told of for the creation. -/
def told (n : Nat) (tr : Dealings) : List Roll := tr.filterMap (toldAt n)

def answerAt (n : Nat) : Deployment × Dealing → Option (Except HubError Unit)
  | (d, .act (.tellRoll m)) => if m = n then d.answerAtOnce? m else none
  | (_, .act (.endCreation m)) => if m = n then some (.ok ()) else none
  | (_, .answer m result) => if m = n then some result else none
  | _ => none

/-- What notifiers have answered for the creation. -/
def answers (n : Nat) (tr : Dealings) : List (Except HubError Unit) := tr.filterMap (answerAt n)

variable {tr : Dealings} {d : Deployment} {x : Dealing} {n : Nat}

theorem throws_concat (s : Deployment × Dealing) :
    throws n (tr ++ [s]) = tr.throws n ++ (throwAt n s).toList :=
  Broker.filterMap_concat (throwAt n) tr s

theorem told_concat (s : Deployment × Dealing) :
    told n (tr ++ [s]) = tr.told n ++ (toldAt n s).toList :=
  Broker.filterMap_concat (toldAt n) tr s

theorem answers_concat (s : Deployment × Dealing) :
    answers n (tr ++ [s]) = tr.answers n ++ (answerAt n s).toList :=
  Broker.filterMap_concat (answerAt n) tr s

theorem toldAt_eq_some_iff {s : Deployment × Dealing} {r : Roll} :
    toldAt n s = some r ↔ notifiedAt s = some (n, r) := by
  rw [toldAt, Option.bind_eq_some_iff]
  constructor
  · rintro ⟨⟨m, r'⟩, hnotified, h⟩
    split at h
    · next heq =>
        cases h
        exact heq ▸ hnotified
    · cases h
  · intro h
    exact ⟨_, h, if_pos rfl⟩

/-- A dealing with another creation is on none of the three lists. -/
theorem quiet_of_elsewhere (elsewhere : x.creation? ≠ some n) :
    throwAt n (d, x) = none ∧ toldAt n (d, x) = none ∧ answerAt n (d, x) = none := by
  have htold : toldAt n (d, x) = none := by
    cases h : toldAt n (d, x) with
    | none => rfl
    | some r => exact (elsewhere (creation?_of_notifiedAt (toldAt_eq_some_iff.mp h)).1).elim
  have hne : ∀ m : Nat, x.creation? = some m → m ≠ n := fun m h heq => elsewhere (heq ▸ h)
  refine ⟨?_, htold, ?_⟩
  · cases x with
    | act a =>
        cases a with
        | throwDice m throw => exact if_neg (hne m rfl)
        | _ => rfl
    | _ => rfl
  · cases x with
    | act a =>
        cases a with
        | tellRoll m | endCreation m => exact if_neg (hne m rfl)
        | _ => rfl
    | hand m => rfl
    | answer m result => exact if_neg (hne m rfl)

end Dealings

/-- How far a call has come that began with the draft: the roll as it is now, who has been
called, and what notifiers have answered. -/
inductive Course (draft : Roll) :
    Roll → Stage → List (Roll × Throw) → List Roll → List (Except HubError Unit) → Prop
  | drafted : Course draft draft .drafted [] [] []
  | misthrown {throw : Throw} {e : DiceError} (fails : throw draft = .error e) :
      Course draft draft (.ended (.error e)) [(draft, throw)] [] []
  | thrown {throw : Throw} {r : Roll} (throws : throw draft = .ok r) :
      Course draft r .thrown [(draft, throw)] [] []
  /-- The notifier is somebody outside and has not answered yet. -/
  | handed {throw : Throw} {r : Roll} (throws : throw draft = .ok r) :
      Course draft r .thrown [(draft, throw)] [r] []
  | telling {throw : Throw} {r : Roll} (throws : throw draft = .ok r) (dispatch : Nat) :
      Course draft r (.telling dispatch) [(draft, throw)] [r] []
  | refused {throw : Throw} {r : Roll} (throws : throw draft = .ok r) (e : HubError) :
      Course draft r (.ended (.error (.event e))) [(draft, throw)] [r] [.error e]
  | done {throw : Throw} {r : Roll} (throws : throw draft = .ok r) :
      Course draft r (.ended (.ok ())) [(draft, throw)] [r] [.ok ()]

/-- The answer of a notifier that has been told of the roll is the answer of the call. -/
theorem Course.notified {draft r : Roll} {throw : Throw} (throws : throw draft = .ok r)
    (notified : Notified) :
    Course draft r (.ofNotified notified) [(draft, throw)] [r]
      (match notified with
        | .done result => [result]
        | .dispatched _ => []) := by
  rcases notified with (e | _) | dispatch
  · exact .refused throws e
  · exact .done throws
  · exact .telling throws dispatch

section
variable {draft r : Roll} {stage : Stage} {ts : List (Roll × Throw)} {rs : List Roll}
  {as : List (Except HubError Unit)} (course : Course draft r stage ts rs as)
include course

theorem Course.of_drafted (h : stage = .drafted) : r = draft ∧ ts = [] ∧ rs = [] ∧ as = [] := by
  cases course with
  | drafted => exact ⟨rfl, rfl, rfl, rfl⟩
  | _ => cases h

theorem Course.of_thrown (h : stage = .thrown) :
    ∃ throw : Throw, throw draft = .ok r ∧ ts = [(draft, throw)] ∧ (rs = [] ∨ rs = [r]) ∧
      as = [] := by
  cases course with
  | thrown throws => exact ⟨_, throws, rfl, .inl rfl, rfl⟩
  | handed throws => exact ⟨_, throws, rfl, .inr rfl, rfl⟩
  | _ => cases h

theorem Course.of_error {e : DiceError} (h : stage = .ended (.error e)) :
    (∃ throw : Throw, ts = [(draft, throw)] ∧ throw draft = .error e ∧ rs = []) ∨
      ∃ (throw : Throw) (error : HubError), ts = [(draft, throw)] ∧ throw draft = .ok r ∧
        rs = [r] ∧ as = [.error error] ∧ e = .event error := by
  cases course with
  | misthrown fails =>
      cases h
      exact .inl ⟨_, rfl, fails, rfl⟩
  | refused throws error =>
      cases h
      exact .inr ⟨_, error, rfl, throws, rfl, rfl, rfl⟩
  | _ => cases h

theorem Course.of_ok (h : stage = .ended (.ok ())) :
    ∃ throw : Throw, ts = [(draft, throw)] ∧ throw draft = .ok r ∧ rs = [r] ∧ as = [.ok ()] := by
  cases course with
  | done throws => exact ⟨_, rfl, throws, rfl, rfl⟩
  | _ => cases h

theorem Course.of_telling {dispatch : Nat} (h : stage = .telling dispatch) :
    ∃ throw : Throw, throw draft = .ok r ∧ ts = [(draft, throw)] ∧ rs = [r] ∧ as = [] := by
  cases course with
  | telling throws => exact ⟨_, throws, rfl, rfl, rfl⟩
  | _ => cases h

end

section
variable {tr : Dealings} {d d' d₁ : Deployment} {x : Dealing} {k n : Nat} {draft : Roll}

theorem Treats.passes (treats : Treats tr d x d') (n : Nat) :
    Passes tr d n x d.creations[n]? d'.creations[n]? := by
  cases treats with
  | act own performed => exact .of_perform performed own n
  | hand hc thrown first => exact .of_hand hc thrown first n
  | answer hc thrown handed result => exact .of_answer hc thrown handed result n

/-- What dealings have come to for a creation that has begun. -/
structure Underway (k : Nat) (draft : Roll) (tr : Dealings) (n : Nat) (c : Creation) : Prop where
  service : c.service = k
  course : Course draft c.roll c.stage (tr.throws n) (tr.told n) (tr.answers n)
  handed : tr.Handed n → tr.told n ≠ []
  /-- A roll that has been told, and of which nothing has come yet, is in other hands. -/
  awaited : c.stage = .thrown → tr.told n ≠ [] → tr.Handed n

theorem Underway.elsewhere {c : Creation} (underway : Underway k draft tr n c)
    (elsewhere : x.creation? ≠ some n) : Underway k draft (tr ++ [(d, x)]) n c := by
  obtain ⟨hthrow, htold, hanswer⟩ := Dealings.quiet_of_elsewhere (d := d) elsewhere
  have hthrows : (tr ++ [(d, x)]).throws n = tr.throws n := by
    rw [Dealings.throws_concat, hthrow, Option.toList_none, List.append_nil]
  have htolds : (tr ++ [(d, x)]).told n = tr.told n := by
    rw [Dealings.told_concat, htold, Option.toList_none, List.append_nil]
  have hanswers : (tr ++ [(d, x)]).answers n = tr.answers n := by
    rw [Dealings.answers_concat, hanswer, Option.toList_none, List.append_nil]
  have hhanded : (tr ++ [(d, x)]).Handed n ↔ tr.Handed n := by
    rw [Dealings.handed_concat]
    exact or_iff_left fun heq => elsewhere (congrArg Dealing.creation? heq)
  refine ⟨underway.service, ?_, ?_, ?_⟩
  · rw [hthrows, htolds, hanswers]
    exact underway.course
  · rw [hhanded, htolds]
    exact underway.handed
  · rw [hhanded, htolds]
    exact underway.awaited

/-- One more dealing with the creation, told by what it adds to the three lists. -/
theorem Underway.concat {c c' : Creation} (underway : Underway k draft tr n c)
    (service : c'.service = c.service) (throw? : Option (Roll × Throw)) (told? : Option Roll)
    (answer? : Option (Except HubError Unit)) (hthrow : Dealings.throwAt n (d, x) = throw?)
    (htold : Dealings.toldAt n (d, x) = told?) (hanswer : Dealings.answerAt n (d, x) = answer?)
    (course : Course draft c'.roll c'.stage (tr.throws n ++ throw?.toList)
      (tr.told n ++ told?.toList) (tr.answers n ++ answer?.toList))
    (handed : x = .hand n → told? ≠ none)
    (awaited : c'.stage = .thrown → tr.told n ++ told?.toList ≠ [] → tr.Handed n ∨ x = .hand n) :
    Underway k draft (tr ++ [(d, x)]) n c' where
  service := service.trans underway.service
  course := by
    rw [Dealings.throws_concat, Dealings.told_concat, Dealings.answers_concat, hthrow, htold,
      hanswer]
    exact course
  handed h := by
    rw [Dealings.told_concat, htold]
    rcases Dealings.handed_concat.mp h with hold | hnew
    · exact List.append_ne_nil_of_left_ne_nil (underway.handed hold) _
    · obtain ⟨r, rfl⟩ := Option.ne_none_iff_exists'.mp (handed hnew)
      exact List.append_ne_nil_of_right_ne_nil _ (List.cons_ne_nil r [])
  awaited thrown := by
    rw [Dealings.told_concat, htold, Dealings.handed_concat]
    exact awaited thrown

theorem Underway.proceeds {c c' : Creation} {a : Action} (underway : Underway k draft tr n c)
    (hc : d.creations[n]? = some c) (proceeds : d.Proceeds n c a c')
    (own : ∀ m, a = .tellRoll m → ¬ tr.Handed m) :
    Underway k draft (tr ++ [(d, .act a)]) n c' := by
  cases proceeds with
  | @misthrown throw e drafted fails =>
      obtain ⟨hroll, hthrows, htold, hanswers⟩ := underway.course.of_drafted drafted
      refine underway.concat rfl (some (draft, throw)) none none ?_ rfl rfl ?_ nofun nofun
      · simp [Dealings.throwAt, hc, hroll]
      · rw [hroll] at fails
        rw [hthrows, htold, hanswers, hroll]
        exact .misthrown fails
  | @thrown throw r drafted throws =>
      obtain ⟨hroll, hthrows, htold, hanswers⟩ := underway.course.of_drafted drafted
      refine underway.concat rfl (some (draft, throw)) none none ?_ rfl rfl ?_ nofun ?_
      · simp [Dealings.throwAt, hc, hroll]
      · rw [hroll] at throws
        rw [hthrows, htold, hanswers]
        exact .thrown throws
      · rw [htold]
        exact fun _ h => (h rfl).elim
  | @told s thrown hs =>
      obtain ⟨throw, throws, hthrows, -, hanswers⟩ := underway.course.of_thrown thrown
      have hfirst : tr.told n = [] := by
        by_contra hne
        exact own n rfl (underway.awaited thrown hne)
      refine underway.concat rfl none (some c.roll) _ rfl ?_ (if_pos rfl) ?_ nofun ?_
      · rw [Dealings.toldAt_eq_some_iff]
        simp [Dealings.notifiedAt, hc]
      · rw [hthrows, hfirst, hanswers]
        simp only [Deployment.answerAtOnce?, hc, hs, Option.bind_eq_bind, Option.bind_some]
        have course := Course.notified throws (d.notify s.notifier c.roll).2
        generalize (d.notify s.notifier c.roll).2 = notified at course ⊢
        cases notified <;> exact course
      · exact fun h => ((Stage.ofNotified_ne _).2 h).elim
  | @ended i telling =>
      obtain ⟨throw, throws, hthrows, htold, hanswers⟩ := underway.course.of_telling telling
      refine underway.concat rfl none none (some (.ok ())) rfl rfl (if_pos rfl) ?_ nofun nofun
      rw [hthrows, htold, hanswers]
      exact .done throws

theorem Underway.step {c : Creation} {o : Option Creation} (underway : Underway k draft tr n c)
    (passes : Passes tr d n x (some c) o) :
    ∃ c', o = some c' ∧ Underway k draft (tr ++ [(d, x)]) n c' := by
  cases passes with
  | stays _ elsewhere => exact ⟨c, rfl, underway.elsewhere elsewhere⟩
  | proceeds hc proceeds own => exact ⟨_, rfl, underway.proceeds hc proceeds own⟩
  | hand hc thrown first =>
      obtain ⟨throw, throws, hthrows, -, hanswers⟩ := underway.course.of_thrown thrown
      have hfirst : tr.told n = [] := by
        by_contra hne
        exact first (underway.awaited thrown hne)
      refine ⟨c, rfl, underway.concat rfl none (some c.roll) none rfl ?_ rfl ?_ nofun
        fun _ _ => .inr rfl⟩
      · rw [Dealings.toldAt_eq_some_iff]
        simp [Dealings.notifiedAt, hc]
      · rw [hthrows, hfirst, hanswers, thrown]
        exact .handed throws
  | answer hc thrown handed result =>
      obtain ⟨throw, throws, hthrows, htold, hanswers⟩ := underway.course.of_thrown thrown
      have hsecond : tr.told n = [c.roll] := htold.resolve_left (underway.handed handed)
      refine ⟨_, rfl, underway.concat rfl none none (some result) rfl rfl (if_pos rfl) ?_ nofun
        fun h => ((Stage.ofNotified_ne _).2 h).elim⟩
      rw [hthrows, hsecond, hanswers]
      exact .notified throws (.done result)

theorem Since.underway {c₁ : Creation} (since : Since d₁ tr d)
    (hc₁ : d₁.creations[n]? = some c₁) (drafted : c₁.stage = .drafted) :
    ∃ c, d.creations[n]? = some c ∧ Underway c₁.service c₁.roll tr n c := by
  induction since with
  | start =>
      refine ⟨c₁, hc₁, rfl, ?_, ?_, fun thrown => ?_⟩
      · rw [drafted]
        exact .drafted
      · rintro ⟨_, h⟩
        cases h
      · cases drafted.symm.trans thrown
  | step before treats ih =>
      obtain ⟨c, hc, underway⟩ := ih
      have passes := treats.passes n
      rw [hc] at passes
      exact underway.step passes

/-! The call goes on as long as it is not up to others. -/

/-- A service keeps its notifier. -/
theorem Treats.notifier {s : Service} (treats : Treats tr d x d') (hs : d.services[k]? = some s) :
    ∃ s', d'.services[k]? = some s' ∧ s'.notifier = s.notifier := by
  cases treats with
  | act own performed =>
      cases Deployment.serves_perform performed with
      | aside _ services => exact ⟨s, services ▸ hs, rfl⟩
      | opens services =>
          rw [services, List.getElem?_append_left (List.getElem?_eq_some_iff.mp hs).1]
          exact ⟨s, hs, rfl⟩
      | refuses _ same => exact ⟨s, same ▸ hs, rfl⟩
      | @accepts k' s' _ _ _ _ hs' services =>
          rw [services, getElem?_set_of_some hs']
          split
          · next heq =>
              subst heq
              cases hs.symm.trans hs'
              exact ⟨_, rfl, rfl⟩
          · exact ⟨s, hs, rfl⟩
      | proceeds _ _ services => exact ⟨s, services ▸ hs, rfl⟩
  | hand => exact ⟨s, hs, rfl⟩
  | answer => exact ⟨s, hs, rfl⟩

theorem Since.notifier {s : Service} (since : Since d₁ tr d) (hs : d₁.services[k]? = some s) :
    ∃ s', d.services[k]? = some s' ∧ s'.notifier = s.notifier := by
  induction since with
  | start => exact ⟨s, hs, rfl⟩
  | step before treats ih =>
      obtain ⟨s', hs', heq⟩ := ih
      obtain ⟨s'', hs'', heq'⟩ := treats.notifier hs'
      exact ⟨s'', hs'', heq'.trans heq⟩

end

/-- The steps that the call can take next. Which of them comes is up to the service, but for
a dispatch that is not over and for a notifier from outside. -/
structure GoesOn (tr : Dealings) (d : Deployment) (n : Nat) (c : Creation) : Prop where
  throwDice : c.stage = .drafted → ∀ throw, ∃ d', Treats tr d (.act (.throwDice n throw)) d'
  tell : c.stage = .thrown → tr.told n = [] →
    (∃ d', Treats tr d (.act (.tellRoll n)) d') ∧ Treats tr d (.hand n) d
  answer : c.stage = .thrown → tr.told n ≠ [] → ∀ result, ∃ d', Treats tr d (.answer n result) d'
  finish : ∀ dispatch, c.stage = .telling dispatch → d.isConcluded dispatch = true →
    ∃ d', Treats tr d (.act (.endCreation n)) d'

section
variable {tr : Dealings} {d d₁ : Deployment} {k n : Nat} {draft : Roll}

theorem Underway.goesOn {c : Creation} (underway : Underway k draft tr n c)
    (hc : d.creations[n]? = some c) {s : Service} (hs : d.services[k]? = some s) :
    GoesOn tr d n c where
  throwDice drafted throw :=
    ⟨_, .act nofun (Deployment.throwDice_of_drafted hc drafted)⟩
  tell thrown htold := by
    have first : ¬ tr.Handed n := fun handed => underway.handed handed htold
    refine ⟨⟨_, .act (fun m h => ?_) (Deployment.tellRoll_of_thrown hc
      (underway.service ▸ hs) thrown)⟩, .hand hc thrown first⟩
    cases h
    exact first
  answer thrown htold result := ⟨_, .answer hc thrown (underway.awaited thrown htold) result⟩
  finish dispatch telling concluded :=
    ⟨_, .act nofun (Deployment.endCreation_of_telling hc telling concluded)⟩

end

/-! What the steps of a call do to the deployment. -/

/-- All that a step for the creation of the number does, its notifier being the endpoint. -/
inductive Advances (notifier : Endpoint) (n : Nat) (d : Deployment) (c : Creation) :
    Dealing → Deployment → Prop
  | misthrown {throw : Throw} {e : DiceError} (fails : throw c.roll = .error e) :
      Advances notifier n d c (.act (.throwDice n throw))
        (d.setCreation n { c with stage := .ended (.error e) })
  | thrown {throw : Throw} {r : Roll} (throws : throw c.roll = .ok r) :
      Advances notifier n d c (.act (.throwDice n throw))
        ((d.setCreation n { c with roll := r, stage := .thrown }).tell
          [.diceRolled r.id r.total])
  | told :
      Advances notifier n d c (.act (.tellRoll n)) ((d.notify notifier c.roll).1.setCreation n
        { c with stage := .ofNotified (d.notify notifier c.roll).2 })
  | ended :
      Advances notifier n d c (.act (.endCreation n))
        (d.setCreation n { c with stage := .ended (.ok ()) })
  | handed : Advances notifier n d c (.hand n) d
  | answered (result : Except HubError Unit) :
      Advances notifier n d c (.answer n result)
        (d.setCreation n { c with stage := .ofNotified (.done result) })

section
variable {tr : Dealings} {d d' : Deployment} {x : Dealing} {n : Nat} {c : Creation} {s : Service}

theorem Deployment.Proceeds.advances {c' : Creation} {a : Action} (proceeds : d.Proceeds n c a c')
    (hc : d.creations[n]? = some c) (hs : d.services[c.service]? = some s)
    (performed : d.perform a = some d') : Advances s.notifier n d c (.act a) d' := by
  cases proceeds with
  | @misthrown throw e drafted fails =>
      have step : d.throwDice n throw = _ := Deployment.throwDice_of_drafted hc drafted
      rw [fails] at step
      cases performed.symm.trans step
      exact .misthrown fails
  | @thrown throw r drafted throws =>
      have step : d.throwDice n throw = _ := Deployment.throwDice_of_drafted hc drafted
      rw [throws] at step
      cases performed.symm.trans step
      exact .thrown throws
  | told thrown _ =>
      cases performed.symm.trans (Deployment.tellRoll_of_thrown hc hs thrown)
      exact .told
  | ended telling =>
      simp only [Deployment.perform, Deployment.endCreation, hc, telling, Option.bind_eq_bind,
        Option.bind_some] at performed
      split at performed
      · cases performed
        exact .ended
      · cases performed

theorem Treats.advances (treats : Treats tr d x d') (own : x.creation? = some n)
    (hc : d.creations[n]? = some c) (hs : d.services[c.service]? = some s) :
    Advances s.notifier n d c x d' := by
  cases treats with
  | act first performed =>
      have passes := Passes.of_perform performed first n
      rw [hc] at passes
      generalize d'.creations[n]? = o at passes
      cases passes with
      | stays _ elsewhere => exact (elsewhere own).elim
      | proceeds _ proceeds _ => exact proceeds.advances hc hs performed
  | hand =>
      cases own
      exact .handed
  | answer hc' _ _ result =>
      cases own
      cases hc.symm.trans hc'
      exact .answered result

end

/-! Requests. -/

namespace Request

/-- There is no room, no user, or no number of dice that can be rolled at once. -/
def Invalid (q : Request) : Prop :=
  q.room = "" ∨ q.user = "" ∨ q.dice.length = 0 ∨ 100 < q.dice.length

variable (q : Request)

theorem check_of_valid (h : ¬ q.Invalid) : q.check = .ok () := by
  simp only [Invalid, not_or] at h
  obtain ⟨hroom, huser, hsome, hmany⟩ := h
  exact q.check_eq_ok_iff.mpr ⟨hroom, huser, Nat.pos_of_ne_zero hsome, Nat.not_lt.mp hmany⟩

theorem check_of_invalid (h : q.Invalid) : ∃ e, q.check = .error e := by
  cases hcheck : q.check with
  | error e => exact ⟨e, rfl⟩
  | ok =>
      obtain ⟨hroom, huser, hsome, hmany⟩ := q.check_eq_ok_iff.mp hcheck
      have hmany : q.dice.length ≤ 100 := hmany
      rcases h with h | h | h | h
      · exact (hroom h).elim
      · exact (huser h).elim
      · omega
      · omega

theorem types_draft (serial : UInt64) (ids : FreshIds) (now : Instant) :
    (q.draft serial ids now).dice.map Die.type = q.dice := by
  exact List.ext_getElem (by simp [draft]) fun i _ _ => by simp [draft]

end Request

/-! The call as a whole. -/

/-- What becomes of a call that has been taken in as the creation with the draft. -/
structure Called (d₁ : Deployment) (n : Nat) (notifier : Endpoint) (draft : Roll) : Prop where
  course : ∀ tr d, Since d₁ tr d → ∃ c, d.creations[n]? = some c ∧
    Course draft c.roll c.stage (tr.throws n) (tr.told n) (tr.answers n) ∧ GoesOn tr d n c
  /-- What the steps on these lists do: the roll that is told is the one that the hub is given. -/
  effects : ∀ tr d x d', Since d₁ tr d → Treats tr d x d' → x.creation? = some n →
    ∃ c, d.creations[n]? = some c ∧ Advances notifier n d c x d'
  /-- The error is that of the roller, and no notifier has been called, or it stands for that
  of the notifier. -/
  failed : ∀ tr d e, Since d₁ tr d → d.result? n = some (.error e) →
    (∃ throw : Throw, tr.throws n = [(draft, throw)] ∧ throw draft = .error e ∧ tr.told n = []) ∨
    ∃ (throw : Throw) (r : Roll) (error : HubError), tr.throws n = [(draft, throw)] ∧
      throw draft = .ok r ∧ tr.told n = [r] ∧ tr.answers n = [.error error] ∧ e = .event error
  /-- What is returned is what the notifier has been told of. -/
  returned : ∀ tr d r, Since d₁ tr d → d.result? n = some (.ok r) →
    ∃ throw : Throw, tr.throws n = [(draft, throw)] ∧ throw draft = .ok r ∧ tr.told n = [r] ∧
      tr.answers n = [.ok ()]

theorem called {d₁ : Deployment} {n : Nat} {c₁ : Creation} {s : Service}
    (hc₁ : d₁.creations[n]? = some c₁) (drafted : c₁.stage = .drafted)
    (hs : d₁.services[c₁.service]? = some s) : Called d₁ n s.notifier c₁.roll where
  course tr d since := by
    obtain ⟨c, hc, underway⟩ := since.underway hc₁ drafted
    obtain ⟨s', hs', -⟩ := since.notifier hs
    exact ⟨c, hc, underway.course, underway.goesOn hc hs'⟩
  effects tr d x d' since treats own := by
    obtain ⟨c, hc, underway⟩ := since.underway hc₁ drafted
    obtain ⟨s', hs', hnotifier⟩ := since.notifier hs
    exact ⟨c, hc, hnotifier ▸ treats.advances own hc (underway.service ▸ hs')⟩
  failed tr d e since hresult := by
    obtain ⟨c, hc, underway⟩ := since.underway hc₁ drafted
    obtain ⟨c', hc', ended⟩ := Deployment.of_result?_error hresult
    cases hc.symm.trans hc'
    rcases underway.course.of_error ended with roller | ⟨throw, error, notifier⟩
    · exact .inl roller
    · exact .inr ⟨throw, c.roll, error, notifier⟩
  returned tr d r since hresult := by
    obtain ⟨c, hc, underway⟩ := since.underway hc₁ drafted
    obtain ⟨c', hc', hroll, ended⟩ := Deployment.of_result?_ok hresult
    cases hc.symm.trans hc'
    exact hroll ▸ underway.course.of_ok ended

/-- The way of a call that nobody gets between, from its draft to where it has to wait. -/
inductive Straight (d₁ : Deployment) (n service : Nat) (notifier : Endpoint) (draft : Roll)
    (throw : Throw) : Dealings → Deployment → Prop
  | misthrown {e : DiceError} (fails : throw draft = .error e) :
      Straight d₁ n service notifier draft throw [(d₁, .act (.throwDice n throw))]
        (d₁.setCreation n ⟨service, draft, .ended (.error e)⟩)
  | told {r : Roll} {d₂ : Deployment} (throws : throw draft = .ok r)
      (thrown : d₂ = (d₁.setCreation n ⟨service, r, .thrown⟩).tell [.diceRolled r.id r.total]) :
      Straight d₁ n service notifier draft throw
        [(d₁, .act (.throwDice n throw)), (d₂, .act (.tellRoll n))]
        ((d₂.notify notifier r).1.setCreation n
          ⟨service, r, .ofNotified (d₂.notify notifier r).2⟩)

section
variable {d₁ : Deployment} {n service : Nat} {draft : Roll} {s : Service}
  (hc : d₁.creations[n]? = some ⟨service, draft, .drafted⟩)
  (hs : d₁.services[service]? = some s) {throw : Throw}
include hc

theorem Straight.of_misthrown {e : DiceError} (fails : throw draft = .error e) :
    ∃ tr d, Since d₁ tr d ∧ Straight d₁ n service s.notifier draft throw tr d ∧
      d₁.throwDice n throw = some d ∧ d.tellRoll n = none := by
  have step : d₁.throwDice n throw =
      some (d₁.setCreation n ⟨service, draft, .ended (.error e)⟩) := by
    simp [Deployment.throwDice_of_drafted hc, fails]
  have hended : (d₁.creations.set n ⟨service, draft, .ended (.error e)⟩)[n]? = some _ :=
    (getElem?_set_of_some hc _ n).trans (if_pos rfl)
  exact ⟨_, _, .step .start (.act (a := .throwDice n throw) nofun step), .misthrown fails, step,
    Deployment.tellRoll_of_not_thrown hended nofun⟩

include hs

theorem Straight.of_thrown {r : Roll} (throws : throw draft = .ok r) :
    ∃ tr d₂ d, Since d₁ tr d ∧ Straight d₁ n service s.notifier draft throw tr d ∧
      d₁.throwDice n throw = some d₂ ∧ d₂.tellRoll n = some d := by
  generalize hd₂ : (d₁.setCreation n ⟨service, r, .thrown⟩).tell [.diceRolled r.id r.total] = d₂
  have step : d₁.throwDice n throw = some d₂ := by
    simp [Deployment.throwDice_of_drafted hc, throws, hd₂]
  have hc₂ : d₂.creations[n]? = some ⟨service, r, .thrown⟩ := by
    rw [← hd₂]
    exact (getElem?_set_of_some hc _ n).trans (if_pos rfl)
  have hs₂ : d₂.services[service]? = some s := by
    rw [← hd₂]
    exact hs
  have tells := Deployment.tellRoll_of_thrown hc₂ hs₂ rfl
  have first : ¬ Dealings.Handed [(d₁, .act (.throwDice n throw))] n := by
    rintro ⟨d, hhanded⟩
    cases List.mem_singleton.mp hhanded
  refine ⟨_, d₂, _, .step (.step .start (.act (a := .throwDice n throw) nofun step))
    (.act (a := .tellRoll n) (fun m h => ?_) tells), .told throws hd₂.symm, step, tells⟩
  cases h
  exact first

/-- A call that nobody gets between goes its way. -/
theorem Straight.exists (throw : Throw) :
    ∃ tr d, Since d₁ tr d ∧ Straight d₁ n service s.notifier draft throw tr d ∧
      (d₁.throwDice n throw).map (fun d => (d.tellRoll n).getD d) = some d := by
  cases h : throw draft with
  | error e =>
      obtain ⟨tr, d, since, straight, step, silent⟩ := Straight.of_misthrown (s := s) hc h
      exact ⟨tr, d, since, straight, by simp [step, silent]⟩
  | ok r =>
      obtain ⟨tr, d₂, d, since, straight, step, tells⟩ := Straight.of_thrown hc hs h
      exact ⟨tr, d, since, straight, by simp [step, tells]⟩

end

/-- How a service deals with a request that would be drafted like that. -/
structure Answers (d₀ : Deployment) (k : Nat) (s : Service) (ids : UInt64 → FreshIds)
    (now : Instant) (q : Request) (draft : Roll) : Prop where
  /-- Nothing changes, whoever was to throw the dice. -/
  refused : q.Invalid → ∃ e, d₀.requestRoll k ids now q = some (d₀, .error e) ∧
    ∀ throw, d₀.createRoll k throw ids now q = some (d₀, .error e)
  accepted : ¬ q.Invalid → ∃ d₁, d₁ = { d₀ with
      services := d₀.services.set k { s with serial := s.serial + 1 }
      creations := d₀.creations ++ [⟨k, draft, .drafted⟩] } ∧
    d₀.requestRoll k ids now q = some (d₁, .ok d₀.creations.length) ∧
    Called d₁ d₀.creations.length s.notifier draft ∧
    ∀ throw, ∃ tr d, Since d₁ tr d ∧ Straight d₁ d₀.creations.length k s.notifier draft throw tr d ∧
      d₀.createRoll k throw ids now q = some (d, .ok d₀.creations.length)
  /-- A roller that only sets sides makes of the draft what was asked for. -/
  sides : ∀ (throw : Throw) r, throw.SetsSides → throw draft = .ok r →
    r.room = q.room ∧ r.user = q.user ∧ r.dice.map Die.type = q.dice
  /-- A random roller does, and no die lies on a side that it has not. -/
  random : ∀ {σ : Type} (source : Source σ) (g : σ), (source.throw g).SetsSides ∧
    ∃ r, source.throw g draft = .ok r ∧
      (∀ d ∈ r.dice, 1 ≤ d.side.toNat ∧ d.side.toNat ≤ d.type.sides) ∧
      (¬ q.Invalid → q.dice.length ≤ r.total ∧ r.total ≤ 20 * q.dice.length ∧
        20 * q.dice.length ≤ 2000 ∧ r.total < UInt64.size)
  /-- The random rollers of the scenarios are among these. -/
  scenarios : ∀ e, Scenario.Play.throwWith (.random e) = Entropy.source.throw e

theorem Request.sides_of_draft (q : Request) {serial : UInt64} {ids : FreshIds} {now : Instant}
    {throw : Throw} {r : Roll} (sets : throw.SetsSides)
    (throws : throw (q.draft serial ids now) = .ok r) :
    r.room = q.room ∧ r.user = q.user ∧ r.dice.map Die.type = q.dice := by
  have hr := (sets _ r throws).1
  refine ⟨?_, ?_, ?_⟩
  · rw [hr]
    rfl
  · rw [hr]
    rfl
  · rw [sets.types throws, q.types_draft]

theorem service_answers {d₀ : Deployment} {k : Nat} {s : Service} (hs : d₀.services[k]? = some s)
    (ids : UInt64 → FreshIds) (now : Instant) (q : Request) :
    Answers d₀ k s ids now q (q.draft (s.serial + 1) (ids (s.serial + 1)) now) where
  refused h := by
    obtain ⟨e, he⟩ := q.check_of_invalid h
    have hrequest : d₀.requestRoll k ids now q = some (d₀, .error e) :=
      Deployment.requestRoll_of_refused hs he
    refine ⟨e, hrequest, fun throw => ?_⟩
    rw [Deployment.createRoll, hrequest]
    rfl
  accepted h := by
    have hrequest : d₀.requestRoll k ids now q = _ :=
      Deployment.requestRoll_of_accepted hs (q.check_of_valid h)
    generalize q.draft (s.serial + 1) (ids (s.serial + 1)) now = draft at hrequest ⊢
    generalize hd₁ : ({ d₀ with
      services := d₀.services.set k { s with serial := s.serial + 1 }
      creations := d₀.creations ++ [⟨k, draft, .drafted⟩] } : Deployment) = d₁ at hrequest
    have hservice : d₁.services[k]? = some { s with serial := s.serial + 1 } := by
      rw [← hd₁]
      exact List.getElem?_set_self (List.getElem?_eq_some_iff.mp hs).1
    have hcreation : d₁.creations[d₀.creations.length]? = some ⟨k, draft, .drafted⟩ := by
      rw [← hd₁]
      exact List.getElem?_concat_length
    have hcalled : Called d₁ _ s.notifier draft :=
      @called d₁ _ ⟨k, draft, .drafted⟩ { s with serial := s.serial + 1 } hcreation rfl hservice
    refine ⟨d₁, rfl, hrequest, hcalled, fun throw => ?_⟩
    obtain ⟨tr, d, since, straight, hd⟩ := Straight.exists hcreation hservice throw
    obtain ⟨d₂, hthrow, htell⟩ := Option.map_eq_some_iff.mp hd
    refine ⟨tr, d, since, straight, ?_⟩
    simp [Deployment.createRoll, hrequest, hthrow, htell]
  sides throw r sets throws := q.sides_of_draft sets throws
  random source g := by
    generalize hdraft : q.draft (s.serial + 1) (ids (s.serial + 1)) now = draft
    refine ⟨source.setsSides_throw g, _, rfl, source.lies_throwAll g draft.dice, fun h => ?_⟩
    have hlength : draft.dice.length = q.dice.length := by
      rw [← hdraft, ← List.length_map Die.type, q.types_draft]
    have hbounds := source.total_throw g (r := draft) rfl
    rw [hlength] at hbounds
    have hmost := (q.check_eq_ok_iff.mp (q.check_of_valid h)).2.2.2
    have hmost : q.dice.length ≤ 100 := hmost
    refine ⟨hbounds.1, hbounds.2, by omega, ?_⟩
    rw [UInt64.size]
    omega
  scenarios := throwWith_random

/-- The counter starts over behind the last serial there is. -/
theorem service_answers_last :
    ∃ (d₀ : Deployment) (s : Service) (q : Request), d₀.services[0]? = some s ∧
      s.serial = 18446744073709551615 ∧ ¬ q.Invalid ∧
      Answers d₀ 0 s (fun _ => ⟨"e", fun _ => "i"⟩) ⟨0, 0, by decide⟩ q
        (q.draft 0 ⟨"e", fun _ => "i"⟩ ⟨0, 0, by decide⟩) := by
  refine ⟨{ Deployment.empty with
    hubs := [.memory .empty], services := [⟨18446744073709551615, ⟨0, ["m"]⟩, ⟨0, []⟩⟩] },
    ⟨18446744073709551615, ⟨0, ["m"]⟩, ⟨0, []⟩⟩, ⟨"r", "u", [.d20, .d4]⟩, rfl, rfl, ?_, ?_⟩
  · simp [Request.Invalid]
  · exact service_answers rfl _ _ _

end DiceRooms
