import DiceRooms.Proofs.Deployment.Settling

/-!
A hub on a broker as it looks from the inside: its handlers, its channel and what its loop is
doing, with no word about other hubs. What concerns the hub is a part of what happens, and a
view goes from step to step by that part alone.
-/
namespace DiceRooms

/-- What a loop is doing. -/
inductive Doing
  | waiting
  | telling (r : Roll) (b : Broadcast)
  | draining
  | closed
  | stopped

structure View where
  topic : String
  registry : Registry Handler
  doing : Doing
  joinable : Bool
  channel : Option Channel
  registered : Bool
  cancelled : Bool

/-- What concerns a hub. -/
inductive Concern
  | built (topic : String) (capacity : Nat) (cancelled : Bool)
  | register (room subscriber : String) (h : Handler)
  | unregister (room subscriber : String)
  /-- Somebody publishes on the topic of the hub. -/
  | publish (m : Message)
  /-- An invocation of the dispatch that the loop is telling begins or ends. -/
  | proceed (invocation : Nat) (after : Progress)
  | conclude
  | turn
  | cancel
  /-- Somebody comes for the handle of the loop. -/
  | detach

def Doing.ofPhase (ps : List Dispatch) : Phase → Doing
  | .running => .waiting
  | .dispatching k => (ps[k]?.map fun p => telling p.roll p.broadcast).getD .waiting
  | .draining => .draining
  | .closed => .closed
  | .stopped => .stopped

def Doing.state : Doing → LoopState
  | waiting | telling .. => .running
  | draining | closed => .draining
  | stopped => .stopped

theorem Doing.state_ofPhase (ps : List Dispatch) (phase : Phase) :
    (Doing.ofPhase ps phase).state = phase.state := by
  cases phase with
  | dispatching k => cases hp : ps[k]? <;> simp [ofPhase, hp, state, Phase.state]
  | _ => rfl

namespace Core

def viewOf (c : Core) (hub : BrokerHub) : View where
  topic := hub.topic
  registry := hub.registry
  doing := .ofPhase c.dispatches hub.phase
  joinable := hub.joinable
  channel := c.broker.channels[hub.subscription]?
  registered := c.broker.isRegistered hub.topic hub.subscription
  cancelled := c.tokens.isCancelled hub.token

def view? (c : Core) (n : Nat) : Option View := (c.brokerHub? n).map c.viewOf

theorem loopState?_eq_view? (c : Core) (n : Nat) :
    c.loopState? n = (c.view? n).map (·.doing.state) := by
  rw [loopState?, view?]
  cases c.brokerHub? n with
  | none => rfl
  | some hub => exact congrArg some (Doing.state_ofPhase c.dispatches hub.phase).symm

end Core

namespace Event

/-- How the hub of the given number comes up, if it does. -/
def birth? (c : Core) (n : Nat) : Event → Option Concern
  | build capacity h =>
    if n = c.hubs.length then some (.built h.topic capacity (c.tokens.isCancelled h.token))
    else none
  | _ => none

/-- The part of an event that concerns the hub of the given number. -/
def concern? (c : Core) (n : Nat) (hub : BrokerHub) : Event → Option Concern
  | register k room subscriber h => if k = n then some (.register room subscriber h) else none
  | unregister k room subscriber => if k = n then some (.unregister room subscriber) else none
  | broker (.publish m) => if m.topic = hub.topic then some (.publish m) else none
  | announce _ h r => if h.topic = hub.topic then some (.publish ⟨h.topic, Wire.encode r⟩) else none
  | proceed k i _ after => if hub.phase = .dispatching k then some (.proceed i after) else none
  | conclude k _ => if hub.phase = .dispatching k then some .conclude else none
  | turn k _ _ => if k = n then some .turn else none
  | cancel t =>
    if hub.token.DescendsFrom t ∧ c.tokens.isCancelled hub.token = false then some .cancel
    else none
  | detach k _ => if k = n then some .detach else none
  | _ => none

/-- The handler of the hub that a roll is told to in the event, with its subscriber. -/
def hearing? (c : Core) (hub : BrokerHub) : Event → Option (String × Handler × Roll)
  | proceed k i .waiting _ =>
    if hub.phase = .dispatching k then do
      let p ← c.dispatches[k]?
      let inv ← p.broadcast[i]?
      some (inv.subscriber, inv.handler, p.roll)
    else none
  | _ => none

end Event

/-! How a view goes on. -/

namespace Doing

def proceed (i : Nat) (after : Progress) : Doing → Doing
  | telling r b => telling r (b.modify i fun inv => { inv with progress := after })
  | doing => doing

def hearing? (i : Nat) : Doing → Option (String × Handler × Roll)
  | telling r b => do
    let inv ← b[i]?
    if inv.progress = .waiting then some (inv.subscriber, inv.handler, r) else none
  | _ => none

end Doing

namespace View

def built (topic : String) (capacity : Nat) (cancelled : Bool) : View where
  topic
  registry := .empty
  doing := .waiting
  joinable := true
  channel := some (.ofCapacity capacity)
  registered := true
  cancelled

def isOpen (v : View) : Bool := (v.channel.map (·.isOpen)).getD false

/-- The next message in the channel. -/
def next? (v : View) : Option Message := v.channel.bind (·.buffer.head?)

def take (v : View) : View :=
  { v with channel := v.channel.map fun c => { c with buffer := c.buffer.tail } }

/-- What a turn of the loop makes of it, where it can take one. -/
def turn (v : View) : View :=
  match v.doing with
  | .waiting =>
    if v.cancelled then { v with doing := .draining }
    else
      match v.next? with
      | none => { v with doing := .draining }
      | some m =>
        match Wire.decode m.payload with
        | .error _ => v.take
        | .ok r => { v.take with doing := .telling r (.ofRegistry v.registry r.room) }
  | .draining => { v with doing := .closed, channel := v.channel.map Channel.close }
  | .closed => { v with doing := .stopped, registered := false }
  | .telling .. | .stopped => v

def after (v : View) : Concern → View
  | .built .. => v
  | .register room subscriber h => { v with registry := (v.registry.set room subscriber h).1 }
  | .unregister room subscriber => { v with registry := (v.registry.delete room subscriber).1 }
  | .publish m =>
    if v.registered then
      { v with channel := v.channel.map (·.offer m), registered := v.isOpen }
    else v
  | .proceed i after => { v with doing := v.doing.proceed i after }
  | .conclude => { v with doing := .waiting }
  | .turn => v.turn
  | .cancel => { v with cancelled := true }
  | .detach => { v with joinable := false }

/-- How the view of a hub goes on that may not have been built yet. -/
def next : Option View → Concern → Option View
  | none, .built topic capacity cancelled => some (built topic capacity cancelled)
  | none, _ => none
  | some v, concern => some (v.after concern)

def hearing? (v : View) : Concern → Option (String × Handler × Roll)
  | .proceed i _ => v.doing.hearing? i
  | _ => none

end View

/-! What an event does not touch. -/

section
variable {h : History} {c : Core} {e : Event} {n : Nat} {hub : BrokerHub}

/-- The loop is doing what it did. -/
theorem doing_apply (hphase : e.phase? n = none)
    (hdispatch : ∀ {k p}, hub.phase = .dispatching k → c.dispatches[k]? = some p →
      e.onDispatch k p = p) (busy : Busy c) (hn : c.brokerHub? n = some hub) :
    Doing.ofPhase (c.apply e).dispatches (e.onHub n hub).phase =
      Doing.ofPhase c.dispatches hub.phase := by
  rw [Event.phase_onHub, hphase, Option.getD_none]
  cases hhub : hub.phase with
  | dispatching k =>
      obtain ⟨p, hp, -, -⟩ := busy.telling hn hhub
      simp only [Doing.ofPhase]
      rw [Core.getElem?_dispatches_apply_of_some hp, hdispatch hhub hp, hp]
  | _ => rfl

/-- The channel and the registration of the hub are as they were. -/
theorem feeding_apply (reached : Reached h c) (hn : c.brokerHub? n = some hub)
    (htarget : e.move.target? ≠ some hub.subscription)
    (hpublish : ∀ m, e.move = .publish m → m.topic ≠ hub.topic) :
    (c.apply e).broker.channels[hub.subscription]? = c.broker.channels[hub.subscription]? ∧
      (c.apply e).broker.isRegistered hub.topic hub.subscription =
        c.broker.isRegistered hub.topic hub.subscription := by
  obtain ⟨capacity, hmade⟩ := reached.housed.made n hub hn
  obtain ⟨hchannel, hregistered⟩ := Broker.spared reached.account.tidy
    (reached.subscription_lt hn) (reached.account.own_topic hmade) htarget hpublish
  exact ⟨hchannel, Bool.eq_iff_iff.mpr ((Broker.isRegistered_iff _ _ _).trans
    (hregistered.trans (Broker.isRegistered_iff _ _ _).symm))⟩

theorem viewOf_onHub (c : Core) (e : Event) (n : Nat) (hub : BrokerHub) :
    (c.apply e).viewOf (e.onHub n hub) =
      { topic := hub.topic
        registry := (e.onHub n hub).registry
        doing := .ofPhase (c.apply e).dispatches (e.onHub n hub).phase
        joinable := (e.onHub n hub).joinable
        channel := (c.apply e).broker.channels[hub.subscription]?
        registered := (c.apply e).broker.isRegistered hub.topic hub.subscription
        cancelled := (c.apply e).tokens.isCancelled hub.token } := by
  simp [Core.viewOf]

/-! What an event does touch. -/

/-- A message on the topic of the hub is offered to its channel. -/
theorem feeding_publish (reached : Reached h c) (hub : BrokerHub) {m : Message}
    (hmove : e.move = .publish m) (htopic : m.topic = hub.topic) :
    (c.apply e).broker.channels[hub.subscription]? =
        (if c.broker.isRegistered hub.topic hub.subscription then
          c.broker.channels[hub.subscription]?.map (·.offer m)
        else c.broker.channels[hub.subscription]?) ∧
      (c.apply e).broker.isRegistered hub.topic hub.subscription =
        (c.broker.isRegistered hub.topic hub.subscription &&
          c.broker.isOpen hub.subscription) := by
  have hbroker : (c.apply e).broker = (c.broker.publish m).1 :=
    congrArg c.broker.apply hmove
  have hnodup := reached.account.tidy.nodup m.topic
  rw [hbroker]
  constructor
  · rw [Broker.channels_publish _ m hnodup, htopic]
    exact if_congr (Broker.isRegistered_iff _ _ _).symm rfl rfl
  · rw [Bool.eq_iff_iff, Bool.and_eq_true, Broker.isRegistered_iff, Broker.isRegistered_iff,
      Broker.subscriptions_publish, if_pos htopic, List.mem_filter]

theorem viewOf_publish (reached : Reached h c) {m : Message} (hmove : e.move = .publish m)
    (htopic : m.topic = hub.topic) (honHub : e.onHub n hub = hub)
    (hdispatches : e.dispatches c.dispatches = c.dispatches)
    (htokens : e.tokens c.tokens = c.tokens) :
    (c.apply e).viewOf (e.onHub n hub) = (c.viewOf hub).after (.publish m) := by
  obtain ⟨hchannel, hregistered⟩ := feeding_publish reached hub hmove htopic
  have hdoing : (c.apply e).dispatches = c.dispatches := hdispatches
  have hcancelled : (c.apply e).tokens = c.tokens := htokens
  rw [viewOf_onHub, honHub, hdoing, hcancelled, hchannel, hregistered]
  cases hthere : c.broker.isRegistered hub.topic hub.subscription with
  | true => simp [View.after, Core.viewOf, hthere, View.isOpen, Broker.isOpen]
  | false => simp [View.after, Core.viewOf, hthere]

/-- When a loop asks for a message, what its channel holds first is gone. -/
theorem viewOf_receive {t : Turn} (hmove : t.move hub = .receive hub.topic hub.subscription) :
    (c.apply (.turn n hub t)).viewOf ((Event.turn n hub t).onHub n hub) =
      { (c.viewOf hub).take with
        doing := .ofPhase (c.apply (.turn n hub t)).dispatches t.phase } := by
  have honHub : (Event.turn n hub t).onHub n hub = { hub with phase := t.phase } := if_pos rfl
  have hbroker : (c.apply (.turn n hub t)).broker =
      (c.broker.receive hub.topic hub.subscription).1 := congrArg c.broker.apply hmove
  rw [viewOf_onHub, honHub, hbroker, Broker.channels_receive, if_pos rfl, Broker.isRegistered,
    Broker.subscriptions_congr (Broker.topics_receive _ _ _)]
  rfl

theorem next?_viewOf {received : Broker.Received} (receives : Turn.Receives c hub received) :
    (c.viewOf hub).doing = .waiting ∧ (c.viewOf hub).cancelled = false ∧
      (c.viewOf hub).next? = received.message? := by
  obtain ⟨hphase, hcancelled, hreceive⟩ := receives
  refine ⟨?_, hcancelled, ?_⟩
  · rw [Core.viewOf, hphase]
    rfl
  · rw [← hreceive, Broker.message?_receive]
    rfl

theorem View.take_of_next?_eq_none {v : View} (h : v.next? = none) : v.take = v := by
  obtain ⟨topic, registry, doing, joinable, channel, registered, cancelled⟩ := v
  cases channel with
  | none => rfl
  | some c =>
      obtain ⟨capacity, buffer, isOpen⟩ := c
      cases buffer with
      | nil => rfl
      | cons m rest => cases h

/-- For a turn of the loop its view is all that matters, if it gets to the broker when it
leaves. -/
theorem viewOf_turn {t : Turn} (possible : t.Possible c hub) (arrives : t ≠ .leave false) :
    (c.apply (.turn n hub t)).viewOf ((Event.turn n hub t).onHub n hub) =
      (c.viewOf hub).turn := by
  have honHub : (Event.turn n hub t).onHub n hub = { hub with phase := t.phase } := if_pos rfl
  cases t with
  | cancelled =>
      obtain ⟨hphase, hcancelled⟩ := possible
      have hstill : (c.apply (.turn n hub .cancelled)).tokens.isCancelled hub.token = true :=
        hcancelled
      rw [viewOf_onHub, honHub, hstill]
      simp only [View.turn, Core.viewOf, hphase, Doing.ofPhase, hcancelled, if_true]
      rfl
  | channelClosed =>
      obtain ⟨hdoing, hcancelled, hnext⟩ := next?_viewOf possible
      rw [viewOf_receive rfl, View.take_of_next?_eq_none hnext]
      simp only [View.turn, hdoing, hcancelled, hnext]
      rfl
  | undecodable m =>
      obtain ⟨receives, e, hdecode⟩ := possible
      obtain ⟨hdoing, hcancelled, hnext⟩ := next?_viewOf receives
      rw [viewOf_receive rfl]
      simp only [View.turn, hdoing, hcancelled, hnext, Broker.Received.message?, hdecode]
      exact congrArg (fun doing => { (c.viewOf hub).take with doing }) hdoing.symm
  | dispatch m r number =>
      obtain ⟨receives, hdecode, rfl⟩ := possible
      obtain ⟨hdoing, hcancelled, hnext⟩ := next?_viewOf receives
      rw [viewOf_receive rfl]
      simp only [View.turn, hdoing, hcancelled, hnext, Broker.Received.message?, hdecode]
      have hbegun := Core.getElem?_dispatches_apply c
        (.turn n hub (.dispatch m r c.dispatches.length)) c.dispatches.length
      rw [if_pos rfl] at hbegun
      simp only [Turn.phase, Doing.ofPhase, hbegun]
      rfl
  | close =>
      have hphase : hub.phase = .draining := possible
      have hbroker : (c.apply (.turn n hub .close)).broker =
        c.broker.closeChannel hub.subscription := rfl
      rw [viewOf_onHub, honHub, hbroker, Broker.channels_closeChannel, if_pos rfl,
        Broker.isRegistered, Broker.subscriptions_congr (Broker.topics_closeChannel _ _)]
      simp only [View.turn, Core.viewOf, hphase, Doing.ofPhase]
      rfl
  | leave arrived =>
      have hphase : hub.phase = .closed := possible
      obtain rfl : arrived = true := by
        cases arrived
        · exact (arrives rfl).elim
        · rfl
      have hbroker : (c.apply (.turn n hub (.leave true))).broker =
        (c.broker.unsubscribe hub.topic hub.subscription).1 := rfl
      have hgone : (c.broker.unsubscribe hub.topic hub.subscription).1.isRegistered hub.topic
          hub.subscription = false := by
        rw [Broker.isRegistered, Broker.subscriptions_unsubscribe, if_pos rfl]
        simp
      rw [viewOf_onHub, honHub, hbroker, Broker.channels_unsubscribe, hgone]
      simp only [View.turn, Core.viewOf, hphase, Doing.ofPhase]
      rfl

/-! What is somebody else's, or only the caller's, stays out of the way. -/

/-- Nobody else goes to the channel of the hub, and its loop gets to the broker when it leaves. -/
structure Minds (c : Core) (n : Nat) (hub : BrokerHub) (e : Event) : Prop where
  hands : ∀ {move}, e = .broker move → move.target? ≠ some hub.subscription
  arrives : Deployment.Arrives e

/-- What does not concern the hub leaves its view. -/
theorem viewOf_of_untouched (hregistry : (e.onHub n hub).registry = hub.registry)
    (hjoinable : (e.onHub n hub).joinable = hub.joinable)
    (hdoing : Doing.ofPhase (c.apply e).dispatches (e.onHub n hub).phase =
      Doing.ofPhase c.dispatches hub.phase)
    (hfeeding : (c.apply e).broker.channels[hub.subscription]? =
        c.broker.channels[hub.subscription]? ∧
      (c.apply e).broker.isRegistered hub.topic hub.subscription =
        c.broker.isRegistered hub.topic hub.subscription)
    (hcancelled : (c.apply e).tokens.isCancelled hub.token = c.tokens.isCancelled hub.token) :
    (c.apply e).viewOf (e.onHub n hub) = c.viewOf hub := by
  rw [viewOf_onHub, hregistry, hjoinable, hdoing, hfeeding.1, hfeeding.2, hcancelled]
  rfl

theorem viewOf_turn_elsewhere (reached : Reached h c) (hn : c.brokerHub? n = some hub) {k : Nat}
    {other : BrokerHub} (hk : c.brokerHub? k = some other) (hne : k ≠ n) {t : Turn} :
    (c.apply (.turn k other t)).viewOf ((Event.turn k other t).onHub n hub) = c.viewOf hub := by
  have honHub : (Event.turn k other t).onHub n hub = hub := if_neg hne
  refine viewOf_of_untouched (congrArg _ honHub) (congrArg _ honHub)
    (doing_apply (if_neg hne) (fun _ _ => rfl) reached.busy hn)
    (feeding_apply reached hn ?_ ?_) rfl
  · intro htarget
    rcases t.target?_move other with hnone | hsome
    · cases hnone.symm.trans htarget
    · exact hne (reached.housed.distinct k n other hub hk hn
        (Option.some.inj (hsome.symm.trans htarget)))
  · exact fun m hm => (t.move_ne_publish other m hm).elim

theorem viewOf_broker (reached : Reached h c) (hn : c.brokerHub? n = some hub)
    {move : Broker.Move} (minds : Minds c n hub (.broker move)) :
    (c.apply (.broker move)).viewOf hub =
      (((Event.broker move).concern? c n hub).map (c.viewOf hub).after).getD (c.viewOf hub) := by
  have hdoing : Doing.ofPhase (c.apply (.broker move)).dispatches hub.phase =
    Doing.ofPhase c.dispatches hub.phase := rfl
  have hspared : (∀ m, move = .publish m → m.topic ≠ hub.topic) →
      (c.apply (.broker move)).viewOf hub = c.viewOf hub := fun hpublish =>
    viewOf_of_untouched (e := .broker move) (n := n) rfl rfl hdoing
      (feeding_apply (e := .broker move) reached hn (minds.hands rfl) hpublish) rfl
  cases move with
  | publish m =>
      simp only [Event.concern?]
      split
      · next htopic =>
          exact viewOf_publish (e := .broker (.publish m)) (n := n) reached rfl htopic rfl rfl rfl
      · next hne =>
          refine hspared fun m' hm' => ?_
          cases hm'
          exact hne
  | _ => exact hspared nofun

/-- A dispatch of the loop goes on, or another one does. -/
theorem viewOf_proceed (reached : Reached h c) (hn : c.brokerHub? n = some hub) {k i : Nat}
    {first next : Progress} : (c.apply (.proceed k i first next)).viewOf hub =
      (((Event.proceed k i first next).concern? c n hub).map (c.viewOf hub).after).getD
        (c.viewOf hub) := by
  have hfeeding := feeding_apply (e := .proceed k i first next) reached hn nofun nofun
  simp only [Event.concern?]
  split
  · next hphase =>
      obtain ⟨p, hp, -, -⟩ := reached.busy.telling hn hphase
      have hafter := Core.getElem?_dispatches_apply_of_some hp (.proceed k i first next)
      rw [Event.onDispatch, if_pos rfl] at hafter
      have hview := viewOf_onHub c (.proceed k i first next) n hub
      rw [hfeeding.1, hfeeding.2] at hview
      refine hview.trans ?_
      simp only [Event.onHub, hphase, Doing.ofPhase, hafter, Option.map_some, Option.getD_some,
        View.after, Core.viewOf, hp]
      rfl
  · next hphase =>
      refine viewOf_of_untouched (e := .proceed k i first next) (n := n) rfl rfl ?_ hfeeding rfl
      refine doing_apply rfl (fun {k'} p hphase' _ => if_neg ?_) reached.busy hn
      rintro rfl
      exact hphase hphase'

theorem viewOf_conclude (reached : Reached h c) (hn : c.brokerHub? n = some hub) {k : Nat}
    {p : Dispatch} (possible : (Event.conclude k p).Possible c) :
    (c.apply (.conclude k p)).viewOf ((Event.conclude k p).onHub n hub) =
      (((Event.conclude k p).concern? c n hub).map (c.viewOf hub).after).getD (c.viewOf hub) := by
  have hfeeding := feeding_apply (e := .conclude k p) reached hn nofun nofun
  simp only [Event.concern?]
  split
  · next hphase =>
      obtain ⟨q, hq, howner, -⟩ := reached.busy.telling hn hphase
      obtain rfl : q = p := Option.some.inj (hq.symm.trans possible.1)
      have honHub : (Event.conclude k q).onHub n hub = { hub with phase := .running } :=
        if_pos howner
      rw [viewOf_onHub, hfeeding.1, hfeeding.2, honHub]
      rfl
  · next hphase =>
      have howner : p.owner ≠ .receiver n := fun howner =>
        hphase (reached.busy.dispatching_of_conclude possible howner hn)
      have honHub : (Event.conclude k p).onHub n hub = hub := if_neg howner
      refine viewOf_of_untouched (congrArg _ honHub) (congrArg _ honHub) ?_ hfeeding rfl
      refine doing_apply (if_neg howner) (fun {k'} p hphase' _ => if_neg ?_) reached.busy hn
      rintro rfl
      exact hphase hphase'

theorem viewOf_detach (reached : Reached h c) (hn : c.brokerHub? n = some hub) {k : Nat}
    {other : BrokerHub} :
    (c.apply (.detach k other)).viewOf ((Event.detach k other).onHub n hub) =
      (((Event.detach k other).concern? c n hub).map (c.viewOf hub).after).getD
        (c.viewOf hub) := by
  have hfeeding := feeding_apply (e := .detach k other) reached hn nofun nofun
  have hdoing := doing_apply (e := .detach k other) rfl (fun _ _ => rfl) reached.busy hn
  simp only [Event.concern?]
  split
  · next heq =>
      have honHub : (Event.detach k other).onHub n hub = { hub with joinable := false } :=
        if_pos heq
      rw [viewOf_onHub, hdoing, hfeeding.1, hfeeding.2, honHub]
      rfl
  · next hne =>
      have honHub : (Event.detach k other).onHub n hub = hub := if_neg hne
      exact viewOf_of_untouched (congrArg _ honHub) (congrArg _ honHub) hdoing hfeeding rfl

theorem viewOf_cancel (reached : Reached h c) (hn : c.brokerHub? n = some hub) (t : Token) :
    (c.apply (.cancel t)).viewOf hub =
      (((Event.cancel t).concern? c n hub).map (c.viewOf hub).after).getD (c.viewOf hub) := by
  have hfeeding := feeding_apply (e := .cancel t) reached hn nofun nofun
  have hdoing := doing_apply (e := .cancel t) rfl (fun _ _ => rfl) reached.busy hn
  have hcancelled : (c.apply (.cancel t)).tokens.isCancelled hub.token = true ↔
      hub.token.DescendsFrom t ∨ c.tokens.isCancelled hub.token = true :=
    c.tokens.isCancelled_cancel t hub.token
  simp only [Event.concern?]
  split
  · next hreaches =>
      have hview := viewOf_onHub c (.cancel t) n hub
      rw [hdoing, hfeeding.1, hfeeding.2, hcancelled.mpr (.inl hreaches.1)] at hview
      exact hview
  · next hnot =>
      refine viewOf_of_untouched (e := .cancel t) (n := n) rfl rfl hdoing hfeeding ?_
      rw [Bool.eq_iff_iff, hcancelled]
      refine or_iff_right_of_imp fun hdescends => ?_
      by_contra hstill
      exact hnot ⟨hdescends, Bool.eq_false_iff.mpr hstill⟩

/-- Registering and unregistering change the registry of one hub. -/
theorem viewOf_registry (reached : Reached h c) (hn : c.brokerHub? n = some hub) {k : Nat}
    (change : Registry Handler → Registry Handler) (hmove : e.move = .stay)
    (hphase : e.phase? n = none) (hdispatch : ∀ k p, e.onDispatch k p = p)
    (htokens : e.tokens c.tokens = c.tokens)
    (honHub : e.onHub n hub =
      if k = n then { hub with registry := change hub.registry } else hub) :
    (c.apply e).viewOf (e.onHub n hub) =
      if k = n then { c.viewOf hub with registry := change hub.registry } else c.viewOf hub := by
  have hdoing := doing_apply hphase (fun _ _ => hdispatch _ _) reached.busy hn
  have hfeeding := feeding_apply reached hn (by rw [hmove]; nofun) (by rw [hmove]; nofun)
  have hcancelled : (c.apply e).tokens = c.tokens := htokens
  rw [viewOf_onHub, hdoing, hfeeding.1, hfeeding.2, hcancelled, honHub]
  split <;> rfl

/-- A view goes on by what concerns the hub, and by nothing else. -/
theorem viewOf_apply (reached : Reached h c) (possible : e.Possible c)
    (hn : c.brokerHub? n = some hub) (hroute : hub.route = .direct) (minds : Minds c n hub e) :
    (c.apply e).viewOf (e.onHub n hub) =
      ((e.concern? c n hub).map (c.viewOf hub).after).getD (c.viewOf hub) := by
  cases e with
  | idle | hub _ | build _ _ | token | tell _ _ _ =>
      exact viewOf_of_untouched rfl rfl (doing_apply rfl (fun _ _ => rfl) reached.busy hn)
        (feeding_apply reached hn nofun nofun) rfl
  | broker move => exact viewOf_broker reached hn minds
  | register k room subscriber f =>
      rw [viewOf_registry (k := k) reached hn (fun r => (r.set room subscriber f).1)
        rfl rfl (fun _ _ => rfl) rfl rfl, Event.concern?]
      split <;> rfl
  | unregister k room subscriber =>
      rw [viewOf_registry (k := k) reached hn (fun r => (r.delete room subscriber).1)
        rfl rfl (fun _ _ => rfl) rfl rfl, Event.concern?]
      split <;> rfl
  | announce k other r =>
      simp only [Event.concern?]
      split
      · next htopic => exact viewOf_publish reached rfl htopic rfl rfl rfl
      · next hne =>
          refine viewOf_of_untouched rfl rfl (doing_apply rfl (fun _ _ => rfl) reached.busy hn)
            (feeding_apply reached hn nofun fun m hm => ?_) rfl
          cases hm
          exact hne
  | proceed k i first next => exact viewOf_proceed reached hn
  | conclude k p => exact viewOf_conclude reached hn possible
  | turn k other t =>
      simp only [Event.concern?]
      split
      · next heq =>
          subst heq
          obtain ⟨rfl, hturn⟩ := Event.of_turn possible hn
          refine viewOf_turn hturn ?_
          rintro rfl
          cases minds.arrives hroute
      · next hne => exact viewOf_turn_elsewhere reached hn possible.1 hne
  | cancel t => exact viewOf_cancel reached hn t
  | detach k other => exact viewOf_detach reached hn

/-- A hub that has come up has an empty channel, and nobody is registered with it. -/
theorem view?_birth (possible : e.Possible c) (hn : c.brokerHub? n = none)
    (hjoinable : ∀ {capacity hub}, e = .build capacity hub → hub.joinable = true) :
    (c.apply e).view? n = (e.birth? c n).bind (View.next none) := by
  rw [Core.view?, Core.brokerHub?_apply possible, hn, Option.map_none]
  cases e with
  | build capacity hub =>
      simp only [Event.built?, Event.birth?]
      split
      · obtain ⟨hregistry, hphase, hsubscription, -⟩ := possible
        have hchannel : (c.apply (.build capacity hub)).broker.channels[hub.subscription]? =
            some (.ofCapacity capacity) := by
          rw [hsubscription]
          exact List.getElem?_concat_length
        have hregistered : (c.apply (.build capacity hub)).broker.isRegistered hub.topic
            hub.subscription = true := by
          rw [Broker.isRegistered_iff]
          show hub.subscription ∈ (c.broker.apply (.subscribe hub.topic capacity)).subscriptions
            hub.topic
          rw [Broker.subscriptions_subscribe, if_pos rfl, hsubscription]
          exact List.mem_append_right _ List.mem_cons_self
        simp only [Option.map_some, Option.bind_some, View.next, Core.viewOf, hregistry, hphase,
          hjoinable rfl, hchannel, hregistered]
        rfl
      · rfl
  | _ =>
      simp only [Event.built?, ite_self]
      rfl

/-- Who hears of a roll shows in the view. -/
theorem hearing?_eq (n : Nat) (hub : BrokerHub) (possible : e.Possible c) :
    e.hearing? c hub = (e.concern? c n hub).bind (c.viewOf hub).hearing? := by
  cases e with
  | proceed k i first next =>
      obtain ⟨-, p, inv, hp, hi, rfl⟩ := possible
      simp only [Event.concern?]
      split
      · next hphase =>
          have hdoing : (c.viewOf hub).doing = .telling p.roll p.broadcast := by
            simp [Core.viewOf, hphase, Doing.ofPhase, hp]
          simp only [Option.bind_some, View.hearing?, hdoing, Doing.hearing?, hi]
          cases hprogress : inv.progress <;> simp [Event.hearing?, hphase, hp, hi, hprogress]
      · next hphase =>
          cases inv.progress <;> simp [Event.hearing?, hphase]
  | broker move =>
      cases move with
      | publish m => simp only [Event.concern?]; split <;> rfl
      | _ => rfl
  | register _ _ _ _ | unregister _ _ _ | announce _ _ _ | conclude _ _ | turn _ _ _ | cancel _
  | detach _ _ =>
      simp only [Event.concern?]
      split <;> rfl
  | _ => rfl

end

end DiceRooms
