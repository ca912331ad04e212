import DiceRooms.Proofs.Deployment.Joining
import DiceRooms.Proofs.Deployment.Seats
import DiceRooms.Proofs.Deployment.Serving
import DiceRooms.Proofs.Feed.Streams

/-!
The feeds of a deployment at every glance, whatever else goes on there. A call of the handler of
a feed sends a row when it begins and an id when it ends, and anything may come in between. The
two receivers of the feed are read and dropped each for itself, and what has been read of either
is what has been sent to it, in the order of the sends.
-/
namespace DiceRooms

/-- An action, or somebody reads the first of what has come in one stream of a feed. -/
inductive Glance
  | act (a : Action)
  | takeRow (feed : Nat)
  | takeNotification (feed : Nat)

/-- Each with the deployment that it meets, the newest last. -/
abbrev Glances := List (Deployment × Glance)

/-- The feed that somebody who holds its receivers reads or lets go of, and what that does. -/
def Glance.atFeed? : Glance → Option (Nat × Feed.Move)
  | act (.dropRows k) => some (k, .dropRows)
  | act (.dropNotifications k) => some (k, .dropNotifications)
  | act (.readFeed k) => some (k, .drain)
  | act (.closeSession s) => some (s.feed, .drop)
  | takeRow k => some (k, .takeRow)
  | takeNotification k => some (k, .takeNotification)
  | _ => none

/-- The handler that somebody registers without a session. -/
def Action.handler? : Action → Option Handler
  | subscribe _ _ _ h | subscribeViewer _ _ _ h => some h
  | _ => none

namespace Deployment

def eventOf (d : Deployment) : Glance → Event
  | .act a => d.event a
  | .takeRow _ | .takeNotification _ => .idle

/-- The feed of the given number, new as it is when it is opened. -/
def feedAt (d : Deployment) (k : Nat) : Feed := (d.feeds[k]?).getD .fresh

/-- The roll of an invocation, if it is one of the handler of the feed. -/
def rollFor? (d : Deployment) (k n i : Nat) : Option Roll := do
  let p ← d.dispatches[n]?
  let inv ← p.broadcast[i]?
  if inv.handler = .feed k then some p.roll else none

/-- A call of the handler of the feed has sent the row, and the id is yet to be sent. -/
def Halfway (d : Deployment) (k : Nat) : Prop :=
  ∃ n i, d.rollFor? k n i ≠ none ∧ d.core.progress? n i = some .running

end Deployment

/-- One more glance, and the deployment that it leads to. The handler of a feed is registered with
the session that the feed belongs to, and by nobody else. -/
inductive Looks (d : Deployment) : Glance → Deployment → Prop
  | act {a : Action} {d' : Deployment} (own : ∀ k, a.handler? ≠ some (.feed k))
      (performed : d.perform a = some d') : Looks d (.act a) d'
  | takeRow {k : Nat} {f : Feed} (hf : d.feeds[k]? = some f) (more : f.rows.unread ≠ []) :
      Looks d (.takeRow k) (d.adjustFeed k Feed.Move.takeRow.on)
  | takeNotification {k : Nat} {f : Feed} (hf : d.feeds[k]? = some f)
      (more : f.notifications.unread ≠ []) :
      Looks d (.takeNotification k) (d.adjustFeed k Feed.Move.takeNotification.on)

/-- The glances lead to the deployment. -/
inductive Watched : Glances → Deployment → Prop
  | start : Watched [] .empty
  | step {tr : Glances} {d d' : Deployment} {x : Glance} (before : Watched tr d)
      (looks : Looks d x d') : Watched (tr ++ [(d, x)]) d'

namespace Glances

/-- What happens to the feed of the given number. -/
def moveAt (k : Nat) : Deployment × Glance → Feed.Move
  | (d, .act (.start n i)) => (d.rollFor? k n i).elim .stay (.sendRow ⟨n, i⟩)
  | (d, .act (.finish n i _)) => (d.rollFor? k n i).elim .stay (.sendId ⟨n, i⟩)
  | (d, x) =>
    match x.atFeed? with
    | some (j, m) => if j = k ∧ k < d.feeds.length then m else .stay
    | none => .stay

/-- The calls of a feed's handler in the order in which they have begun, with a row each, -/
def begun (k : Nat) (tr : Glances) : List Feed.Sending :=
  tr.filterMap fun s => (moveAt k s).row? (s.1.feedAt k)

/-- and in the order in which they have ended, with an id each. -/
def ended (k : Nat) (tr : Glances) : List Feed.Sending :=
  tr.filterMap fun s => (moveAt k s).id? (s.1.feedAt k)

/-- A call of the handler begins. -/
def Begins (k : Nat) (s : Deployment × Glance) : Prop :=
  ∃ n i, s.2 = .act (.start n i) ∧ s.1.rollFor? k n i ≠ none

/-- The rows that have been read. -/
def rows (k : Nat) (tr : Glances) : List Row :=
  tr.flatMap fun s => (moveAt k s).rows.taken (s.1.feedAt k).rows

/-- The ids that have been read. -/
def notifications (k : Nat) (tr : Glances) : List String :=
  tr.flatMap fun s => (moveAt k s).notifications.taken (s.1.feedAt k).notifications

end Glances

open Deployment Glances

/-! Invocations of the handlers of feeds. -/

section
variable {d d' : Deployment} {x : Glance} {k n i : Nat} {r : Roll}

theorem rollFor?_eq_some_iff : d.rollFor? k n i = some r ↔
    ∃ p inv, d.dispatches[n]? = some p ∧ p.broadcast[i]? = some inv ∧
      inv.handler = .feed k ∧ p.roll = r := by
  simp only [rollFor?, Option.bind_eq_bind, Option.bind_eq_some_iff]
  constructor
  · rintro ⟨p, hp, inv, hinv, h⟩
    split at h
    · next hhandler => exact ⟨p, inv, hp, hinv, hhandler, Option.some.inj h⟩
    · cases h
  · rintro ⟨p, inv, hp, hinv, hhandler, rfl⟩
    exact ⟨p, hp, inv, hinv, if_pos hhandler⟩

theorem rollFor?_of {p : Dispatch} {inv : Invocation} (hp : d.dispatches[n]? = some p)
    (hinv : p.broadcast[i]? = some inv) (k : Nat) :
    d.rollFor? k n i = if inv.handler = .feed k then some p.roll else none := by
  simp only [rollFor?, hp, hinv, Option.bind_eq_bind, Option.bind_some]

theorem Looks.happens (looks : Looks d x d') : Happens d (d.eventOf x) d' := by
  cases looks with
  | act _ performed => exact happens_perform performed
  | takeRow | takeNotification => exact happens_idle rfl

theorem dispatches_onDispatch {e : Event} (happens : Happens d e d') {p : Dispatch}
    (hp : d.dispatches[n]? = some p) : d'.dispatches[n]? = some (e.onDispatch n p) := by
  rw [← getElem?_core, happens.core_eq]
  exact Core.getElem?_dispatches_apply_of_some (getElem?_core.mpr hp) e

/-- What a dispatch tells to the handler of a feed it goes on telling to it. -/
theorem Looks.rollFor? (looks : Looks d x d') (hn : n < d.core.dispatches.length) :
    d'.rollFor? k n i = d.rollFor? k n i := by
  obtain ⟨p, hp⟩ : ∃ p, d.dispatches[n]? = some p :=
    ⟨_, (getElem?_core_dispatches d n).symm.trans (List.getElem?_eq_getElem hn)⟩
  have hroll : ((d.eventOf x).onDispatch n p).roll = p.roll :=
    congrArg Telling.roll (telling_onDispatch n p _)
  simp only [Deployment.rollFor?, hp, dispatches_onDispatch looks.happens hp, hroll,
    getElem?_onDispatch, Option.bind_eq_bind, Option.bind_some]
  cases p.broadcast[i]? <;> rfl

theorem lt_of_rollFor? (h : d.rollFor? k n i = some r) : n < d.core.dispatches.length := by
  obtain ⟨p, -, hp, -⟩ := rollFor?_eq_some_iff.mp h
  exact (List.getElem?_eq_some_iff.mp (getElem?_core.mpr hp)).1

/-- The send that a glance makes a call of the feed's handler come to, if it makes one. -/
inductive Comes (k : Nat) (d : Deployment) : Glance → Feed.Move → Prop
  | row {n i : Nat} {r : Roll} (told : d.rollFor? k n i = some r) :
      Comes k d (.act (.start n i)) (.sendRow ⟨n, i⟩ r)
  | id {n i : Nat} {said : Outcome} {r : Roll} (told : d.rollFor? k n i = some r) :
      Comes k d (.act (.finish n i said)) (.sendId ⟨n, i⟩ r)
  | neither {x : Glance} {m : Feed.Move} (row : ∀ f, m.row? f = none) (id : ∀ f, m.id? f = none) :
      Comes k d x m

theorem comes (k : Nat) (d : Deployment) (x : Glance) : Comes k d x (moveAt k (d, x)) := by
  have stays : ∀ x, Comes k d x .stay := fun x => .neither (fun _ => rfl) fun _ => rfl
  have held : ∀ {j : Nat} {m : Feed.Move}, (∀ f, m.row? f = none) → (∀ f, m.id? f = none) →
      Comes k d x (if j = k ∧ k < d.feeds.length then m else .stay) := by
    intro j m row id
    split
    · exact .neither row id
    · exact stays x
  cases x with
  | takeRow j | takeNotification j => exact held (fun _ => rfl) fun _ => rfl
  | act a =>
      cases a with
      | start n i =>
          cases hr : d.rollFor? k n i with
          | none => simpa [moveAt, hr] using stays _
          | some r => simpa [moveAt, hr] using .row hr
      | finish n i said =>
          cases hr : d.rollFor? k n i with
          | none => simpa [moveAt, hr] using stays _
          | some r => simpa [moveAt, hr] using .id hr
      | closeSession _ | dropRows _ | dropNotifications _ | readFeed _ =>
          exact held (fun _ => rfl) fun _ => rfl
      | _ => exact stays _

/-! Where the handlers of feeds stand. -/

/-- The handler of a feed is registered by the session that the feed is opened for. -/
theorem Looks.registers (looks : Looks d x d') {room subscriber : String}
    (he : d.eventOf x = .register n room subscriber (.feed k)) :
    ∃ e, x = .act (.openSession e subscriber room) ∧ e.hub = n ∧ k = d.feeds.length := by
  cases looks with
  | takeRow | takeNotification => cases he
  | @act a _ own performed =>
      have causes := d.causes_event a
      rw [show d.event a = _ from he] at causes
      cases causes with
      | subscribe | subscribeViewer => exact (own k rfl).elim
      | openSession e => exact ⟨e, rfl, rfl, rfl⟩

end

section
variable {tr : Glances} {d d' : Deployment} {x : Glance} {k n i : Nat} {r : Roll}

theorem Watched.reached (watched : Watched tr d) : ∃ h, Reached h d.core := by
  induction watched with
  | start => exact ⟨[], .start⟩
  | step _ looks ih =>
      obtain ⟨h, reached⟩ := ih
      rw [looks.happens.core_eq]
      exact ⟨_, reached.step looks.happens.possible⟩

theorem Looks.length_feeds_le (looks : Looks d x d') : d.feeds.length ≤ d'.feeds.length := by
  cases looks with
  | takeRow | takeNotification => exact Nat.le_of_eq (List.length_modify _ _ _).symm
  | @act a _ own performed =>
      cases a with
      | start | finish => exact Nat.le_of_eq (front_of_settles rfl performed).2.symm
      | openSession e id room =>
          cases performed
          rw [feeds_openSession, List.length_append]
          exact Nat.le_add_right _ _
      | closeSession s =>
          cases performed
          rw [feeds_closeSession, List.length_modify]
      | dropRows | dropNotifications | readFeed =>
          cases performed
          exact Nat.le_of_eq (List.length_modify _ _ _).symm
      | _ => exact Nat.le_of_eq (congrArg List.length (feeds_of_not_stirs performed rfl)).symm

/-- The handler of a feed stands nowhere before there is the feed, and then on the seat of the
session that the feed has been opened for. -/
structure Placed (tr : Glances) (d : Deployment) : Prop where
  unopened : ∀ {k}, d.feeds.length ≤ k → Stands d.core (.feed k) none
  opened : ∀ {d₀ e id room}, (d₀, .act (.openSession e id room)) ∈ tr →
    d₀.feeds.length < d.feeds.length ∧
      Stands d.core (.feed d₀.feeds.length) (some ⟨e.hub, room, id⟩) ∧
      ∀ {hub}, d₀.brokerHub? e.hub = some hub → ∃ hub', d.core.brokerHub? e.hub = some hub'

theorem Looks.exists_brokerHub? (looks : Looks d x d') {hub : BrokerHub}
    (hn : d.core.brokerHub? n = some hub) : ∃ hub', d'.core.brokerHub? n = some hub' := by
  rw [looks.happens.core_eq]
  exact ⟨_, Core.brokerHub?_apply_of_some looks.happens.possible hn⟩

/-- Opening a session is one more feed. -/
theorem Looks.length_feeds_opened {e : Endpoint} {id room : String}
    (looks : Looks d (.act (.openSession e id room)) d') :
    d'.feeds.length = d.feeds.length + 1 := by
  cases looks with
  | act _ performed =>
      cases performed
      rw [feeds_openSession, List.length_append, List.length_singleton]

/-- The handler of a feed is given no other seat once the feed is there. -/
theorem Looks.stands (looks : Looks d x d') {h : History} (reached : Reached h d.core)
    (hk : k < d.feeds.length) {seat? : Option Seat} (stands : Stands d.core (.feed k) seat?) :
    Stands d'.core (.feed k) seat? := by
  rw [looks.happens.core_eq]
  refine stands.apply reached looks.happens.possible fun n room subscriber he => ?_
  obtain ⟨-, -, -, heq⟩ := looks.registers he
  exact (Nat.ne_of_lt hk heq).elim

namespace Placed

variable (placed : Placed tr d) {h : History} (reached : Reached h d.core) (looks : Looks d x d')
include placed reached looks

theorem unopened_step (hk : d'.feeds.length ≤ k) : Stands d'.core (.feed k) none := by
  rw [looks.happens.core_eq]
  refine (placed.unopened (Nat.le_trans looks.length_feeds_le hk)).apply reached
    looks.happens.possible fun n room subscriber he => ?_
  obtain ⟨e, rfl, -, rfl⟩ := looks.registers he
  rw [looks.length_feeds_opened] at hk
  exact (Nat.not_succ_le_self _ hk).elim

omit looks in
/-- The handler of a new feed is given the seat of its session. -/
theorem new_step {e : Endpoint} {id room : String}
    (looks : Looks d (.act (.openSession e id room)) d') :
    Stands d'.core (.feed d.feeds.length) (some ⟨e.hub, room, id⟩) := by
  rw [looks.happens.core_eq]
  refine ((placed.unopened (Nat.le_refl _)).seated _).apply reached looks.happens.possible
    fun n room' subscriber he => ?_
  obtain ⟨e', hx, rfl, -⟩ := looks.registers he
  cases hx
  rfl

theorem step : Placed (tr ++ [(d, x)]) d' where
  unopened hk := placed.unopened_step reached looks hk
  opened {d₀ e id room} hmem := by
    rcases List.mem_append.mp hmem with hold | hnew
    · obtain ⟨hlt, stands, hbroker⟩ := placed.opened hold
      refine ⟨Nat.lt_of_lt_of_le hlt looks.length_feeds_le,
        looks.stands reached hlt stands, fun hhub => ?_⟩
      obtain ⟨hub', hhub'⟩ := hbroker hhub
      exact looks.exists_brokerHub? hhub'
    · cases List.mem_singleton.mp hnew
      refine ⟨?_, placed.new_step reached looks, fun hhub => ?_⟩
      · rw [looks.length_feeds_opened]
        exact Nat.lt_succ_self _
      · exact looks.exists_brokerHub? ((brokerHub?_core d e.hub).trans hhub)

end Placed

theorem Watched.placed (watched : Watched tr d) : Placed tr d := by
  induction watched with
  | start => exact ⟨fun _ => .empty _ _, nofun⟩
  | step before looks ih =>
      obtain ⟨h, reached⟩ := before.reached
      exact ih.step reached looks

/-- Only the handler of a feed that there is can be invoked. -/
theorem Placed.lt_of_rollFor? (placed : Placed tr d) (h : d.rollFor? k n i = some r) :
    k < d.feeds.length := by
  obtain ⟨p, inv, hp, hinv, hhandler, rfl⟩ := rollFor?_eq_some_iff.mp h
  refine Nat.lt_of_not_le fun hle => ?_
  have hmem : (inv.subscriber, .feed k) ∈ p.audience := by
    rw [← hhandler]
    exact List.mem_map_of_mem (List.mem_of_getElem? hinv)
  cases (placed.unopened hle).told (getElem?_core.mpr hp) hmem

/-! What glances make of feeds. -/

/-- What becomes of the feeds by a glance. -/
inductive Stirs (d : Deployment) (x : Glance) (fs : List Feed) : Prop
  | aside (feeds : fs = d.feeds) (still : ∀ k, moveAt k (d, x) = .stay)
  | opens (feeds : fs = d.feeds ++ [.fresh]) (still : ∀ k, moveAt k (d, x) = .stay)
  | moves {j : Nat} {m : Feed.Move} (feeds : fs = d.feeds.modify j m.on)
      (moves : ∀ k, moveAt k (d, x) = if j = k ∧ k < d.feeds.length then m else .stay)

theorem Stirs.of_atFeed? {j : Nat} {m : Feed.Move} (hx : x.atFeed? = some (j, m))
    (feeds : d'.feeds = d.feeds.modify j m.on) : Stirs d x d'.feeds := by
  refine .moves feeds fun k => ?_
  cases x with
  | takeRow | takeNotification =>
      cases hx
      rfl
  | act a =>
      cases a with
      | closeSession | dropRows | dropNotifications | readFeed =>
          cases hx
          rfl
      | _ => cases hx

/-- A call sends to the feed that its handler belongs to, if it belongs to one. -/
theorem Stirs.of_adjustFeedOf (placed : Placed tr d) {p : Dispatch} {inv : Invocation}
    (hp : d.dispatches[n]? = some p) (hinv : p.broadcast[i]? = some inv) {m : Roll → Feed.Move}
    (hmove : ∀ k, moveAt k (d, x) = (d.rollFor? k n i).elim .stay m)
    {d₁ : Deployment} (hfeeds : d₁.feeds = d.feeds) :
    Stirs d x (d₁.adjustFeedOf inv.handler (m p.roll).on).feeds := by
  have hroll := rollFor?_of hp hinv
  cases hhandler : inv.handler with
  | feed j =>
      rw [hhandler] at hroll
      refine .moves (j := j) (congrArg (List.modify · j _) hfeeds) fun k => ?_
      rw [hmove, hroll]
      by_cases hk : j = k
      · subst hk
        have hlt := placed.lt_of_rollFor? ((hroll j).trans (if_pos rfl))
        rw [if_pos rfl, if_pos ⟨rfl, hlt⟩]
        rfl
      · rw [if_neg fun h => hk (Handler.feed.inj h), if_neg fun h => hk h.1]
        rfl
  | idle | outside =>
      refine .aside hfeeds fun k => ?_
      rw [hmove, hroll, hhandler]
      rfl

/-- Every glance does to feeds what its kind says. -/
theorem Looks.stirs (placed : Placed tr d) (looks : Looks d x d') : Stirs d x d'.feeds := by
  cases looks with
  | takeRow | takeNotification => exact .of_atFeed? rfl rfl
  | @act a d' own performed =>
      cases a with
      | start n i =>
          obtain ⟨p, inv, b, hp, hinv, -, rfl⟩ := of_startInvocation performed
          exact .of_adjustFeedOf (m := .sendRow ⟨n, i⟩) placed hp hinv (fun _ => rfl) rfl
      | finish n i said =>
          obtain ⟨p, inv, b, hp, hinv, -, rfl⟩ := of_finishInvocation performed
          exact .of_adjustFeedOf (m := .sendId ⟨n, i⟩) placed hp hinv (fun _ => rfl) rfl
      | openSession e id room =>
          cases performed
          exact .opens (d.feeds_openSession e id room) fun _ => rfl
      | closeSession s =>
          cases performed
          exact .of_atFeed? rfl (d.feeds_closeSession s)
      | dropRows k | dropNotifications k | readFeed k =>
          cases performed
          exact .of_atFeed? rfl rfl
      | _ => exact .aside (feeds_of_not_stirs performed rfl) fun _ => rfl

theorem Stirs.feedAt (stirs : Stirs d x d'.feeds) (k : Nat) :
    d'.feedAt k = (moveAt k (d, x)).on (d.feedAt k) := by
  rw [Deployment.feedAt, Deployment.feedAt]
  cases stirs with
  | aside feeds still =>
      rw [feeds, still]
      rfl
  | opens feeds still =>
      rw [feeds, still, getElem?_concat]
      split
      · next hk =>
          rw [hk, List.getElem?_eq_none (Nat.le_refl _)]
          rfl
      · rfl
  | @moves j m feeds moves =>
      rw [feeds, moves, List.getElem?_modify]
      cases hk : d.feeds[k]? with
      | none =>
          rw [if_neg fun h => Nat.not_le.mpr h.2 (List.getElem?_eq_none_iff.mp hk)]
          rfl
      | some f =>
          have hlt := (List.getElem?_eq_some_iff.mp hk).1
          by_cases hj : j = k
          · rw [if_pos ⟨hj, hlt⟩]
            simp [hj]
          · rw [if_neg fun h => hj h.1]
            simp [hj, Feed.Move.on, Feed.Move.rows, Feed.Move.notifications, Feed.Move.halfway,
              Stream.Move.on]

theorem Watched.feedAt (watched : Watched tr d) (looks : Looks d x d') (k : Nat) :
    d'.feedAt k = (moveAt k (d, x)).on (d.feedAt k) :=
  (looks.stirs watched.placed).feedAt k

end

/-! What the streams have been given, and what has been read. -/

namespace Glances

variable {tr : Glances} {s : Deployment × Glance} {k : Nat}

theorem begun_concat : begun k (tr ++ [s]) =
    tr.begun k ++ ((moveAt k s).row? (s.1.feedAt k)).toList :=
  Broker.filterMap_concat _ tr s

theorem ended_concat : ended k (tr ++ [s]) =
    tr.ended k ++ ((moveAt k s).id? (s.1.feedAt k)).toList :=
  Broker.filterMap_concat _ tr s

theorem rows_concat : rows k (tr ++ [s]) =
    tr.rows k ++ (moveAt k s).rows.taken (s.1.feedAt k).rows := by
  rw [rows, List.flatMap_append, List.flatMap_singleton]
  rfl

theorem notifications_concat : notifications k (tr ++ [s]) =
    tr.notifications k ++ (moveAt k s).notifications.taken (s.1.feedAt k).notifications := by
  rw [notifications, List.flatMap_append, List.flatMap_singleton]
  rfl

end Glances

section
variable {tr : Glances} {d d' : Deployment} {x : Glance} {f : Feed} {k n i : Nat} {r : Roll}

/-- Both streams carry all that calls have sent to them. The calls that stand halfway are known,
as far as their rows have got to somebody. -/
structure Carry (tr : Glances) (d : Deployment) (k : Nat) : Prop where
  rows : (d.feedAt k).rows.Carries ((tr.begun k).map fun t => .ofRoll t.roll) (tr.rows k)
  notifications :
    (d.feedAt k).notifications.Carries ((tr.ended k).map (·.roll.id)) (tr.notifications k)
  halfway : ∀ c ∈ (d.feedAt k).halfway, ∃ t ∈ tr.begun k, t.call = c ∧ t.arrives = true
  arrived : ∀ t ∈ tr.begun k, t.arrives = true →
    t.call ∈ (d.feedAt k).halfway ∨ ∃ u ∈ tr.ended k, u.call = t.call

theorem Carry.step (carry : Carry tr d k)
    (hfeed : d'.feedAt k = (moveAt k (d, x)).on (d.feedAt k)) : Carry (tr ++ [(d, x)]) d' k where
  rows := by
    rw [hfeed, begun_concat, rows_concat, List.map_append, ← Feed.Move.given_rows]
    exact carry.rows.move _
  notifications := by
    rw [hfeed, ended_concat, notifications_concat, List.map_append,
      ← Feed.Move.given_notifications]
    exact carry.notifications.move _
  halfway c hc := by
    rw [hfeed] at hc
    rw [begun_concat]
    rcases Feed.Move.of_mem_halfway hc with hold | ⟨t, ht, hcall, harrives⟩
    · obtain ⟨t, ht, hcall, harrives⟩ := carry.halfway c hold
      exact ⟨t, List.mem_append_left _ ht, hcall, harrives⟩
    · exact ⟨t, List.mem_append_right _ (Option.mem_toList.mpr ht), hcall, harrives⟩
  arrived t ht harrives := by
    rw [hfeed, ended_concat]
    rw [begun_concat, List.mem_append, Option.mem_toList] at ht
    rcases ht with hold | hnew
    · rcases carry.arrived t hold harrives with hmem | ⟨u, hu, hcall⟩
      · rcases Feed.Move.mem_halfway hmem with hmem | ⟨u, hu, hcall⟩
        · exact .inl hmem
        · exact .inr ⟨u, List.mem_append_right _ (Option.mem_toList.mpr hu), hcall⟩
      · exact .inr ⟨u, List.mem_append_left _ hu, hcall⟩
    · exact .inl (Feed.Move.mem_halfway_of_arrives hnew harrives)

theorem Watched.carry (watched : Watched tr d) (k : Nat) : Carry tr d k := by
  induction watched with
  | start => exact ⟨.fresh, .fresh, nofun, nofun⟩
  | step before looks ih => exact ih.step (before.feedAt looks k)

/-- A stream of a feed is open until its receiver has been dropped. -/
theorem Watched.isOpen (watched : Watched tr d) (k : Nat) :
    ((d.feedAt k).rows.isOpen = true ↔ ∀ s ∈ tr, (moveAt k s).rows.drops = false) ∧
      ((d.feedAt k).notifications.isOpen = true ↔
        ∀ s ∈ tr, (moveAt k s).notifications.drops = false) := by
  induction watched with
  | start =>
      have hfresh : Deployment.empty.feedAt k = .fresh := rfl
      rw [hfresh]
      simp [Feed.fresh, Stream.fresh]
  | step before looks ih =>
      rw [before.feedAt looks, Feed.Move.on, Stream.Move.isOpen_on, Stream.Move.isOpen_on, ih.1,
        ih.2]
      simp only [List.forall_mem_append, List.forall_mem_singleton, and_self]

end

end DiceRooms
