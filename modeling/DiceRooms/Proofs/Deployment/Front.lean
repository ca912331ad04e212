import DiceRooms.Proofs.Deployment.Attended

/-!
The side of a deployment that its users see: the feeds, the services, the rolls under way and
the calls that shut hubs down. Loops and handlers leave all but the feeds alone. A feed is sent
a row just when its handler begins, and an id just when it ends.
-/
namespace DiceRooms

structure Front where
  feeds : List Feed
  services : List Service
  creations : List Creation
  shutdowns : List Shutdown

/-! What the handler of a feed sends, and where. -/

namespace Moment

def Item : Moment → Type
  | beginning => Row
  | ending => String

def item : (m : Moment) → Roll → m.Item
  | beginning, r => Row.ofRoll r
  | ending, r => r.id

def sendAll (m : Moment) (rs : List Roll) (s : Stream m.Item) : Stream m.Item :=
  rs.foldl (fun s r => s.send (m.item r)) s

theorem sendAll_concat (m : Moment) (rs : List Roll) (r : Roll) (s : Stream m.Item) :
    m.sendAll (rs ++ [r]) s = (m.sendAll rs s).send (m.item r) := by
  rw [sendAll, List.foldl_concat]
  rfl

end Moment

namespace Feed

def stream (f : Feed) : (m : Moment) → Stream m.Item
  | .beginning => f.rows
  | .ending => f.notifications

variable (f : Feed) (c : HandlerCall) (r : Roll) (m : Moment)

theorem stream_sendRow : (f.sendRow c r).stream m =
    if Progress.waiting.rank < m.rank ∧ m.rank ≤ Progress.running.rank then
      (f.stream m).send (m.item r)
    else f.stream m := by
  cases m <;> rfl

theorem stream_sendId (o : Outcome) : (f.sendId c r).stream m =
    if Progress.running.rank < m.rank ∧ m.rank ≤ (Progress.ended o).rank then
      (f.stream m).send (m.item r)
    else f.stream m := by
  cases m <;> rfl

end Feed

/-- What becomes of a stream of the feed of the given number if the moment has come for the
invocation. -/
def Stream.sent {m : Moment} (k : Nat) (v : Option Invoked) (s : Stream m.Item) : Stream m.Item :=
  match v with
  | some v => if v.handler = .feed k then s.send (m.item v.roll) else s
  | none => s

/-- A part of a deployment in which no change to the broker, the hubs, the dispatches or the
notices shows. -/
structure Aside {α : Type} (F : Deployment → α) : Prop where
  tell : ∀ d ns, F (Deployment.tell d ns) = F d
  exchange : ∀ (d : Deployment) (exchange : Exchange), F { d with exchange } = F d
  hubs : ∀ (d : Deployment) (hubs : List Hub), F { d with hubs } = F d
  dispatches : ∀ (d : Deployment) (dispatches : Array Dispatch), F { d with dispatches } = F d

namespace Aside

variable {α : Type} {F : Deployment → α} (aside : Aside F) (d : Deployment)

include aside

theorem setPhase (n : Nat) (phase : Phase) : F (d.setPhase n phase) = F d := by
  rw [Deployment.setPhase]
  split
  · exact aside.hubs d _
  · rfl

theorem viaExchange {β : Type} (r : Exchange × List Notice × β) :
    F (d.viaExchange r).1 = F d :=
  (aside.tell _ r.2.1).trans (aside.exchange d r.1)

theorem openDispatch (owner : Owner) (registry : Registry Handler) (r : Roll) :
    F (d.openDispatch owner registry r).1 = F d :=
  (aside.dispatches _ _).trans (aside.tell d _)

theorem publish (b : BrokerHub) (r : Roll) : F (d.publish b r).1 = F d := by
  have hvia := aside.viaExchange d (d.exchange.publish b.route ⟨b.topic, Wire.encode r⟩)
  rw [Deployment.publish]
  split
  · next heq =>
      rw [heq] at hvia
      exact (aside.tell _ _).trans hvia
  · next heq =>
      rw [heq] at hvia
      exact hvia

theorem leaveBroker (n : Nat) (h : BrokerHub) : F (d.leaveBroker n h) = F d := by
  have hvia := aside.viaExchange d (d.exchange.unsubscribe h.route h.topic h.subscription)
  rw [Deployment.leaveBroker]
  dsimp only
  rw [aside.tell, aside.setPhase]
  split
  · exact hvia
  · exact (aside.tell _ _).trans hvia

/-- Loops leave it alone. -/
theorem turn {d d' : Deployment} {n : Nat} (h : d.turn n = some d') : F d' = F d := by
  rw [Deployment.turn] at h
  split at h
  · cases h
  · split at h
    · split at h
      · cases h
        rw [aside.setPhase, aside.tell]
      · rw [Deployment.takeMessage] at h
        dsimp only at h
        split at h
        · cases h
        · cases h
          rw [aside.setPhase, aside.tell]
          exact aside.exchange d _
        · split at h
          · cases h
            rw [aside.tell]
            exact aside.exchange d _
          · cases h
            rw [aside.setPhase, aside.openDispatch, aside.tell]
            exact aside.exchange d _
    · cases h
    · cases h
      rw [aside.setPhase]
      exact aside.exchange d _
    · cases h
      exact aside.leaveBroker d n _
    · cases h

end Aside

namespace Deployment

def front (d : Deployment) : Front := ⟨d.feeds, d.services, d.creations, d.shutdowns⟩

theorem aside_front : Aside front :=
  ⟨fun _ _ => rfl, fun _ _ => rfl, fun _ _ => rfl, fun _ _ => rfl⟩

variable {d d' : Deployment} {n : Nat}

/-! What each change to a deployment does to its front. -/

theorem front_changeRegistry (d : Deployment) (e : Endpoint) (op : Operation)
    (change : Registry Handler → Registry Handler × Bool) (notice : Bool → Notice) :
    (d.changeRegistry e op change notice).1.front = d.front := by
  rw [changeRegistry]
  split
  · rfl
  · split
    · rfl
    · dsimp only
      split <;> rfl

theorem front_notify (d : Deployment) (e : Endpoint) (r : Roll) :
    (d.notify e r).1.front = d.front := by
  rw [notify]
  cases d.hubs[e.hub]? with
  | none => rfl
  | some hub =>
      cases hub with
      | broker b => exact aside_front.publish d b r
      | _ => rfl

theorem front_conclude (h : d.conclude n = some d') : d'.front = d.front := by
  simp only [conclude, Option.bind_eq_bind, Option.bind_eq_some_iff] at h
  obtain ⟨p, -, h⟩ := h
  split at h
  · cases h
    rw [settle]
    cases p.owner with
    | caller e =>
        dsimp only
        split <;> rfl
    | receiver k =>
        dsimp only
        rw [aside_front.setPhase]
        split <;> rfl
  · cases h

theorem getElem?_adjustFeedOf (d : Deployment) (h : Handler) (g : Feed → Feed) (k : Nat) :
    (d.adjustFeedOf h g).feeds[k]? = d.feeds[k]?.map fun f => if h = .feed k then g f else f := by
  cases h with
  | feed j =>
      simp only [adjustFeedOf, adjustFeed, List.getElem?_modify, Handler.feed.injEq]
      rfl
  | outside | idle => simp [adjustFeedOf]

/-- A handler sends to its feed if the moment comes that the stream is for. -/
theorem stream_adjustFeedOf (d : Deployment) (v : Invoked) {g : Feed → Feed} {m : Moment}
    {comes : Prop} [Decidable comes] (hg : ∀ f, (g f).stream m =
      if comes then (f.stream m).send (m.item v.roll) else f.stream m) (k : Nat) :
    (d.adjustFeedOf v.handler g).feeds[k]?.map (·.stream m) =
      d.feeds[k]?.map fun f => (f.stream m).sent k (if comes then some v else none) := by
  rw [getElem?_adjustFeedOf, Option.map_map]
  refine congrArg (Option.map · _) (funext fun f => ?_)
  rw [Function.comp_apply]
  by_cases hhandler : v.handler = .feed k
  · rw [if_pos hhandler, hg]
    by_cases hcomes : comes <;> simp [hcomes, Stream.sent, hhandler]
  · rw [if_neg hhandler]
    by_cases hcomes : comes <;> simp [hcomes, Stream.sent, hhandler]

theorem length_adjustFeedOf (d : Deployment) (h : Handler) (g : Feed → Feed) :
    (d.adjustFeedOf h g).feeds.length = d.feeds.length := by
  cases h with
  | feed j => exact List.length_modify _ _ _
  | outside | idle => rfl

theorem front_adjustFeedOf (d : Deployment) (h : Handler) (g : Feed → Feed) :
    (d.adjustFeedOf h g).front = { d.front with feeds := (d.adjustFeedOf h g).feeds } := by
  cases h <;> rfl

/-- Handlers and loops leave all but the feeds alone, and make no feeds. -/
theorem front_of_settles {a : Action} (ha : a.settles = true) (step : d.perform a = some d') :
    d'.front = { d.front with feeds := d'.feeds } ∧ d'.feeds.length = d.feeds.length := by
  have same : d'.front = d.front →
      d'.front = { d.front with feeds := d'.feeds } ∧ d'.feeds.length = d.feeds.length :=
    fun hfront => ⟨hfront.trans (congrArg (fun fs => Front.mk fs _ _ _)
      (congrArg Front.feeds hfront).symm), congrArg (·.feeds.length) hfront⟩
  cases a with
  | start n i =>
      obtain ⟨p, inv, b, -, -, -, rfl⟩ := of_startInvocation step
      exact ⟨front_adjustFeedOf .., length_adjustFeedOf ..⟩
  | finish n i said =>
      obtain ⟨p, inv, b, -, -, -, rfl⟩ := of_finishInvocation step
      exact ⟨front_adjustFeedOf .., length_adjustFeedOf ..⟩
  | conclude n => exact same (front_conclude step)
  | turn n => exact same (aside_front.turn step)
  | _ => cases ha

theorem reaches?_proceed {m : Moment} {n i : Nat} {p : Dispatch} {inv : Invocation}
    {before after : Progress} (hn : d.dispatches[n]? = some p) (hi : p.broadcast[i]? = some inv) :
    (Event.proceed n i before after).reaches? m d.core =
      if before.rank < m.rank ∧ m.rank ≤ after.rank then some (p.invoke n inv) else none := by
  rw [Event.reaches?, getElem?_core_dispatches, hn, Option.bind_eq_bind, Option.bind_some, hi]
  rfl

/-- A stream is sent to just when the moment comes for the handler of its feed. -/
theorem stream_of_settles {a : Action} (ha : a.settles = true) (step : d.perform a = some d')
    (m : Moment) (k : Nat) : d'.feeds[k]?.map (·.stream m) =
      d.feeds[k]?.map fun f => (f.stream m).sent k ((d.event a).reaches? m d.core) := by
  have same : d'.front = d.front → (d.event a).reaches? m d.core = none →
      d'.feeds[k]?.map (·.stream m) =
        d.feeds[k]?.map fun f => (f.stream m).sent k ((d.event a).reaches? m d.core) :=
    fun hfront hnone => by
      rw [hnone, show d'.feeds = d.feeds from congrArg Front.feeds hfront]
      rfl
  have causes := d.causes_event a
  cases a with
  | start n i =>
      obtain ⟨p, inv, b, hn, hi, -, rfl⟩ := of_startInvocation step
      rw [event, reaches?_proceed hn hi]
      exact stream_adjustFeedOf _ (p.invoke n inv) (fun f => f.stream_sendRow _ _ m) k
  | finish n i said =>
      obtain ⟨p, inv, b, hn, hi, -, rfl⟩ := of_finishInvocation step
      rw [event, reaches?_proceed hn hi]
      exact stream_adjustFeedOf _ (p.invoke n inv) (fun f => f.stream_sendId _ _ m _) k
  | conclude n =>
      refine same (front_conclude step) ?_
      generalize d.event (.conclude n) = e at causes ⊢
      cases causes with
      | idle | conclude => rfl
      | byHand byHand => cases byHand
  | turn n =>
      refine same (aside_front.turn step) ?_
      generalize d.event (.turn n) = e at causes ⊢
      cases causes with
      | idle | turn => rfl
      | byHand byHand => cases byHand
  | _ => cases ha

theorem still_of_settled {h : History} (reached : Reached h d.core) (attended : Attended d.core)
    (settled : d.Settled) : Still d.core where
  concluded p hp := by
    obtain ⟨n, hn⟩ := List.mem_iff_getElem?.mp hp
    exact concluded_of_settled settled (getElem?_core.mp hn)
  silent := by
    intro n hub hn
    rcases loop_of_settled reached settled ((brokerHub?_core d n).symm.trans hn) with
      ⟨-, -, hempty⟩ | hstopped
    · have hfirst := d.exchange.broker.message?_receive hub.topic hub.subscription
      rw [hempty] at hfirst
      show ((d.exchange.broker.channels[hub.subscription]?).map (·.buffer)).getD [] = []
      cases hchannel : d.exchange.broker.channels[hub.subscription]? with
      | none => rfl
      | some channel =>
          rw [hchannel] at hfirst
          exact List.head?_eq_none_iff.mp hfirst.symm
    · cases attended with
      | memory registry hubs =>
          rw [Core.brokerHub?_eq_some_iff, hubs] at hn
          cases n <;> cases hn
      | brokers topic attend =>
          have hlt := (List.getElem?_eq_some_iff.mp (Core.brokerHub?_eq_some_iff.mp hn)).1
          obtain ⟨hub', hthere, attends⟩ := attend n hlt
          cases hn.symm.trans hthere
          have hruns := attends.runs
          rw [hstopped] at hruns
          cases hruns

end Deployment

end DiceRooms
