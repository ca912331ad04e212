import DiceRooms.Proofs.Deployment.Glances
import DiceRooms.Proofs.Feed.Row

/-!
The two streams of a feed beside each other. The rows keep the order in which the calls of its
handler have begun, and the ids the order in which they have ended, so that row and id of a roll
have the same place in both as long as no call is overtaken by a later one. On a hub that hears
through a broker none ever is.
-/
namespace DiceRooms

open Deployment Glances

section
variable {tr : Glances} {d d' : Deployment} {x : Glance} {f : Feed} {k n i : Nat} {r : Roll}

/-! Calls and invocations. -/

/-- How the invocation with the roll is told by what it has sent: nothing while it waits, a row
from its beginning on, and an id besides when it has ended. It fails just when neither has got to
anybody. -/
inductive Answered (c : HandlerCall) (r : Roll) :
    List Feed.Sending → List Feed.Sending → Progress → Prop
  | waiting : Answered c r [] [] .waiting
  | halfway (row : Bool) : Answered c r [⟨c, r, row⟩] [] .running
  | success {row id : Bool} (arrives : row = true ∨ id = true) :
      Answered c r [⟨c, r, row⟩] [⟨c, r, id⟩] (.ended .success)
  | failure :
      Answered c r [⟨c, r, false⟩] [⟨c, r, false⟩] (.ended (.failure "feed session is gone"))

/-- Of the sends, those of the invocation. -/
def sentBy (c : HandlerCall) (ts : List Feed.Sending) : List Feed.Sending :=
  ts.filter (·.call = c)

/-- Sends and invocations of the handler answer each other. -/
structure Attested (tr : Glances) (d : Deployment) (k : Nat) : Prop where
  sent : ∀ t ∈ tr.begun k ++ tr.ended k,
    d.rollFor? k t.call.dispatch t.call.invocation = some t.roll
  invocations : ∀ {n i r progress}, d.rollFor? k n i = some r →
    d.core.progress? n i = some progress →
      Answered ⟨n, i⟩ r (sentBy ⟨n, i⟩ (tr.begun k)) (sentBy ⟨n, i⟩ (tr.ended k)) progress

theorem sentBy_append (c : HandlerCall) (ts us : List Feed.Sending) :
    sentBy c (ts ++ us) = sentBy c ts ++ sentBy c us :=
  List.filter_append ..

theorem mem_sentBy {c : HandlerCall} {t : Feed.Sending} {ts : List Feed.Sending} :
    t ∈ sentBy c ts ↔ t ∈ ts ∧ t.call = c := by
  rw [sentBy, List.mem_filter, decide_eq_true_iff]

/-- What a glance makes a call send, the call is told. -/
theorem rollFor?_of_sends {t : Feed.Sending}
    (ht : (moveAt k (d, x)).row? f = some t ∨ (moveAt k (d, x)).id? f = some t) :
    d.rollFor? k t.call.dispatch t.call.invocation = some t.roll ∧
      ∃ after, (d.eventOf x).after? t.call.dispatch t.call.invocation = some after := by
  have comes := comes k d x
  generalize moveAt k (d, x) = m at comes ht
  cases comes with
  | row told =>
      rcases ht with hrow | hid
      · cases hrow
        exact ⟨told, _, if_pos ⟨rfl, rfl⟩⟩
      · cases hid
  | id told =>
      rcases ht with hrow | hid
      · cases hrow
      · cases hid
        exact ⟨told, _, if_pos ⟨rfl, rfl⟩⟩
  | neither row id =>
      rcases ht with hrow | hid
      · cases (row f).symm.trans hrow
      · cases (id f).symm.trans hid

/-- Every send, the last one among them, is that of a call that had been told before. -/
theorem Attested.sent_before (attested : Attested tr d k) (x : Glance) :
    ∀ t ∈ Glances.begun k (tr ++ [(d, x)]) ++ Glances.ended k (tr ++ [(d, x)]),
      d.rollFor? k t.call.dispatch t.call.invocation = some t.roll := by
  intro t ht
  rw [begun_concat, ended_concat, List.mem_append, List.mem_append, List.mem_append,
    Option.mem_toList, Option.mem_toList] at ht
  rcases ht with (hold | hrow) | (hold | hid)
  · exact attested.sent t (List.mem_append_left _ hold)
  · exact (rollFor?_of_sends (.inl hrow)).1
  · exact attested.sent t (List.mem_append_right _ hold)
  · exact (rollFor?_of_sends (.inr hid)).1

/-- An invocation that is not brought on sends nothing. -/
theorem sentBy_of_after?_eq_none (tr : Glances) (k : Nat)
    (hafter : (d.eventOf x).after? n i = none) :
    sentBy ⟨n, i⟩ (Glances.begun k (tr ++ [(d, x)])) = sentBy ⟨n, i⟩ (tr.begun k) ∧
      sentBy ⟨n, i⟩ (Glances.ended k (tr ++ [(d, x)])) = sentBy ⟨n, i⟩ (tr.ended k) := by
  have none : ∀ {o : Option Feed.Sending}, (∀ t, o = some t →
      (moveAt k (d, x)).row? (d.feedAt k) = some t ∨ (moveAt k (d, x)).id? (d.feedAt k) = some t) →
      sentBy ⟨n, i⟩ o.toList = [] := by
    intro o ho
    refine List.filter_eq_nil_iff.mpr fun t ht hcall => ?_
    obtain ⟨-, after, hsome⟩ := rollFor?_of_sends (ho t (Option.mem_toList.mp ht))
    rw [of_decide_eq_true hcall, hafter] at hsome
    cases hsome
  rw [begun_concat, ended_concat, sentBy_append, sentBy_append, none fun t => .inl,
    none fun t => .inr, List.append_nil, List.append_nil]
  exact ⟨rfl, rfl⟩

/-- The glances that bring an invocation on. -/
theorem glance_of_after? {after : Progress} (h : (d.eventOf x).after? n i = some after) :
    x = .act (.start n i) ∨ ∃ o, x = .act (.finish n i o) := by
  cases x with
  | act a =>
      have causes := d.causes_event a
      rw [eventOf] at h
      generalize d.event a = e at causes h
      cases causes with
      | start k j | finish k j o =>
          simp only [Event.after?] at h
          split at h
          · next heq =>
              obtain ⟨rfl, rfl⟩ := heq
              simp
          · cases h
      | _ => cases h
  | takeRow | takeNotification => cases h

/-- A call that stands between its sends is known to be halfway if its row has got to somebody. -/
theorem Carry.mem_halfway_iff (carry : Carry tr d k) {row : Bool}
    (hbegun : sentBy ⟨n, i⟩ (tr.begun k) = [⟨⟨n, i⟩, r, row⟩])
    (hended : sentBy ⟨n, i⟩ (tr.ended k) = []) :
    (⟨n, i⟩ : HandlerCall) ∈ (d.feedAt k).halfway ↔ row = true := by
  constructor
  · intro hmem
    obtain ⟨t, ht, hcall, harrives⟩ := carry.halfway _ hmem
    have ht := mem_sentBy.mpr ⟨ht, hcall⟩
    rw [hbegun] at ht
    cases List.mem_singleton.mp ht
    exact harrives
  · rintro rfl
    have ht : (⟨⟨n, i⟩, r, true⟩ : Feed.Sending) ∈ sentBy ⟨n, i⟩ (tr.begun k) :=
      hbegun ▸ List.mem_singleton_self _
    rcases carry.arrived _ (mem_sentBy.mp ht).1 rfl with hmem | ⟨u, hu, hcall⟩
    · exact hmem
    · have hu := mem_sentBy.mpr ⟨hu, hcall⟩
      rw [hended] at hu
      cases hu

/-- A call ends as its two sends tell. -/
theorem Watched.outcomeAt_eq (watched : Watched tr d) (hroll : d.rollFor? k n i = some r)
    (row : Bool) (hbegun : sentBy ⟨n, i⟩ (tr.begun k) = [⟨⟨n, i⟩, r, row⟩])
    (hended : sentBy ⟨n, i⟩ (tr.ended k) = []) (said : Outcome) : d.outcomeAt n i said =
      if row = true ∨ (d.feedAt k).notifications.isOpen = true then .success
      else Feed.unheard := by
  have hlt := watched.placed.lt_of_rollFor? hroll
  obtain ⟨p, inv, hp, hinv, hhandler, -⟩ := rollFor?_eq_some_iff.mp hroll
  have hfeed : d.feedAt k = d.feeds[k] := by
    rw [Deployment.feedAt, List.getElem?_eq_getElem hlt]
    rfl
  rw [Deployment.outcomeAt_eq hp hinv, hhandler, outcomeOf, List.getElem?_eq_getElem hlt,
    Option.map_some, Option.getD_some, ← hfeed, Feed.outcome_eq]
  exact if_congr (or_congr_left ((watched.carry k).mem_halfway_iff hbegun hended)) rfl rfl

theorem Answered.ended (c : HandlerCall) (r : Roll) (row id : Bool) :
    Answered c r [⟨c, r, row⟩] [⟨c, r, id⟩]
      (.ended (if row = true ∨ id = true then .success else Feed.unheard)) := by
  split
  · next arrives => exact .success arrives
  · next hneither =>
      rw [not_or, Bool.not_eq_true, Bool.not_eq_true] at hneither
      obtain ⟨rfl, rfl⟩ := hneither
      exact .failure

/-- An invocation that is brought on sends the half of its call that is next. -/
theorem Attested.brought {after : Progress} (attested : Attested tr d k) (watched : Watched tr d)
    (looks : Looks d x d') (hroll : d.rollFor? k n i = some r)
    (hafter : (d.eventOf x).after? n i = some after) :
    Answered ⟨n, i⟩ r (sentBy ⟨n, i⟩ (Glances.begun k (tr ++ [(d, x)])))
      (sentBy ⟨n, i⟩ (Glances.ended k (tr ++ [(d, x)]))) after := by
  obtain ⟨first, hevent, -, hfirst⟩ := progress?_of_after? looks.happens.possible hafter
  have answered := attested.invocations hroll hfirst
  have houtcome := watched.outcomeAt_eq hroll
  rw [begun_concat, ended_concat, sentBy_append, sentBy_append]
  generalize sentBy ⟨n, i⟩ (tr.begun k) = bs, sentBy ⟨n, i⟩ (tr.ended k) = es
    at answered houtcome
  rcases glance_of_after? hafter with rfl | ⟨said, rfl⟩
  · have hmove : moveAt k (d, .act (.start n i)) = .sendRow ⟨n, i⟩ r := by simp [moveAt, hroll]
    cases hevent
    cases answered
    rw [hmove]
    simpa [sentBy, Feed.Move.row?, Feed.Move.id?] using .halfway _
  · have hmove : moveAt k (d, .act (.finish n i said)) = .sendId ⟨n, i⟩ r := by
      simp [moveAt, hroll]
    obtain ⟨-, -, rfl, rfl⟩ := Event.proceed.inj
      (show Event.proceed n i .running (.ended (d.outcomeAt n i said)) = _ from hevent)
    cases answered with
    | halfway row =>
        rw [hmove, houtcome row rfl rfl]
        simpa [sentBy, Feed.Move.row?, Feed.Move.id?] using Answered.ended ⟨n, i⟩ r row _

theorem Attested.step (attested : Attested tr d k) (watched : Watched tr d)
    (looks : Looks d x d') : Attested (tr ++ [(d, x)]) d' k where
  sent t ht := by
    have hsent := attested.sent_before x t ht
    rw [looks.rollFor? (lt_of_rollFor? hsent)]
    exact hsent
  invocations {n i r progress} hroll hprogress := by
    rw [looks.happens.core_eq, progress?_apply] at hprogress
    split at hprogress
    · next hnew =>
        have hnone : ∀ ts ⊆ Glances.begun k (tr ++ [(d, x)]) ++ Glances.ended k (tr ++ [(d, x)]),
            sentBy ⟨n, i⟩ ts = [] := by
          intro ts hts
          refine List.filter_eq_nil_iff.mpr fun t ht hcall => ?_
          have hlt := lt_of_rollFor? (attested.sent_before x t (hts ht))
          rw [of_decide_eq_true hcall] at hlt
          exact Nat.ne_of_lt hlt hnew
        rw [hnone _ (List.subset_append_left _ _), hnone _ (List.subset_append_right _ _)]
        obtain ⟨p, -, hp⟩ := Option.bind_eq_some_iff.mp hprogress
        obtain ⟨inv, -, rfl⟩ := Option.map_eq_some_iff.mp hp
        exact .waiting
    · obtain ⟨first, hfirst, rfl⟩ := Option.map_eq_some_iff.mp hprogress
      have hn : n < d.core.dispatches.length := by
        obtain ⟨p, hp, -⟩ := Option.bind_eq_some_iff.mp hfirst
        exact (List.getElem?_eq_some_iff.mp hp).1
      rw [looks.rollFor? hn] at hroll
      cases hafter : (d.eventOf x).after? n i with
      | none =>
          obtain ⟨hbegun, hended⟩ := sentBy_of_after?_eq_none tr k hafter
          rw [hbegun, hended]
          exact attested.invocations hroll hfirst
      | some after => exact attested.brought watched looks hroll hafter

theorem Watched.attested (watched : Watched tr d) (k : Nat) : Attested tr d k := by
  induction watched with
  | start => exact ⟨nofun, fun hroll => by cases hroll⟩
  | step before looks ih => exact ih.step before looks

/-! Calls that do not overtake each other. -/

/-- Of the calls that have begun, all but one at most have ended, in the same order. -/
def OneByOne (k : Nat) (tr : Glances) : Prop :=
  (tr.begun k).map (·.call) = (tr.ended k).map (·.call) ∨
    ∃ c, (tr.begun k).map (·.call) = (tr.ended k).map (·.call) ++ [c]

theorem exists_progress? (hroll : d.rollFor? k n i = some r) :
    ∃ progress, d.core.progress? n i = some progress := by
  obtain ⟨p, inv, hp, hinv, -⟩ := rollFor?_eq_some_iff.mp hroll
  exact ⟨inv.progress, Core.progress?_of (getElem?_core.mpr hp) hinv⟩

theorem count_map_call (c : HandlerCall) (ts : List Feed.Sending) :
    (ts.map (·.call)).count c = (sentBy c ts).length := by
  rw [List.count, List.countP_map, sentBy, ← List.countP_eq_length_filter]
  exact List.countP_congr fun t _ => by simp

/-- The one that has not ended stands halfway. -/
theorem Attested.halfway (attested : Attested tr d k) {c : HandlerCall}
    (heq : (tr.begun k).map (·.call) = (tr.ended k).map (·.call) ++ [c]) : d.Halfway k := by
  have hmem : c ∈ (tr.begun k).map (·.call) :=
    heq ▸ List.mem_append_right _ (List.mem_singleton_self c)
  obtain ⟨⟨⟨n, i⟩, r, arrives⟩, ht, rfl⟩ := List.mem_map.mp hmem
  have hroll := attested.sent _ (List.mem_append_left _ ht)
  obtain ⟨progress, hprogress⟩ := exists_progress? hroll
  have answered := attested.invocations hroll hprogress
  have hcount := congrArg (List.count ⟨n, i⟩) heq
  rw [List.count_append, List.count_singleton_self, count_map_call, count_map_call] at hcount
  refine ⟨n, i, hroll ▸ Option.some_ne_none r, hprogress.trans ?_⟩
  dsimp only at answered
  generalize sentBy ⟨n, i⟩ (tr.begun k) = bs, sentBy ⟨n, i⟩ (tr.ended k) = es at answered hcount
  cases answered with
  | halfway => rfl
  | waiting | success | failure => cases hcount

/-- If none begins while another stands halfway, they come one by one. -/
theorem OneByOne.step (oneByOne : OneByOne k tr) (attested : Attested tr d k)
    (looks : Looks d x d') (alone : Begins k (d, x) → ¬ d.Halfway k) :
    OneByOne k (tr ++ [(d, x)]) := by
  have comes := comes k d x
  rw [OneByOne, begun_concat, ended_concat, List.map_append, List.map_append]
  generalize moveAt k (d, x) = m at comes
  cases comes with
  | @row n i r told =>
      rcases oneByOne with heq | ⟨c, heq⟩
      · exact .inr ⟨⟨n, i⟩, by simpa [Feed.Move.row?, Feed.Move.id?] using heq⟩
      · exact (alone ⟨n, i, rfl, told ▸ Option.some_ne_none r⟩ (attested.halfway heq)).elim
  | @id n i said r told =>
      have answered := attested.invocations told (progress?_of_proceed looks.happens.possible)
      have hbegun := count_map_call ⟨n, i⟩ (tr.begun k)
      have hended := count_map_call ⟨n, i⟩ (tr.ended k)
      generalize sentBy ⟨n, i⟩ (tr.begun k) = bs, sentBy ⟨n, i⟩ (tr.ended k) = es
        at answered hbegun hended
      cases answered
      rcases oneByOne with heq | ⟨c, heq⟩
      · rw [heq, hended] at hbegun
        cases hbegun
      · rw [heq, List.count_append, hended] at hbegun
        have hc : c = ⟨n, i⟩ := by
          by_contra hne
          rw [List.count_singleton, if_neg (by simpa using hne)] at hbegun
          cases hbegun
        exact .inl (by simpa [Feed.Move.row?, Feed.Move.id?, hc] using heq)
  | neither row id =>
      rw [row, id]
      simpa [OneByOne] using oneByOne

theorem Watched.oneByOne (watched : Watched tr d)
    (alone : ∀ s ∈ tr, Begins k s → ¬ s.1.Halfway k) : OneByOne k tr := by
  induction watched with
  | start => exact .inl rfl
  | step before looks ih =>
      rw [List.forall_mem_append, List.forall_mem_singleton] at alone
      exact (ih alone.1).step (before.attested k) looks alone.2

end

end DiceRooms
