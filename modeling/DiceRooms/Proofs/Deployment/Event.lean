import DiceRooms.Deployment.Action
import DiceRooms.Proofs.Broker.Flow

/-!
What the actions on a deployment come to for its broker, its hubs, its dispatches and its
tokens. Every action is one event, chosen by what it meets. An event says what changes,
and `Possible` says what it can have met. Notices, measurements, feeds and services are
left out.
-/
namespace DiceRooms

/-- The part of a deployment that messages and rolls pass through. -/
structure Core where
  broker : Broker
  hubs : List Hub
  dispatches : List Dispatch
  tokens : Tokens

def Deployment.core (d : Deployment) : Core :=
  ⟨d.exchange.broker, d.hubs, d.dispatches.toList, d.tokens⟩

/-! Changes to single hubs, dispatches and invocations. -/

namespace Hub

def mapRegistry (f : Registry Handler → Registry Handler) : Hub → Hub
  | memory r => memory (f r)
  | bare r => bare (f r)
  | broker h => broker { h with registry := f h.registry }
  | failing error => failing error

def enter (phase : Phase) : Hub → Hub
  | broker h => broker { h with phase }
  | hub => hub

/-- Its loop cannot be waited for any more. -/
def giveUp : Hub → Hub
  | broker h => broker { h with joinable := false }
  | hub => hub

def broker? : Hub → Option BrokerHub
  | broker h => some h
  | _ => none

end Hub

def Core.brokerHub? (c : Core) (n : Nat) : Option BrokerHub :=
  c.hubs[n]?.bind Hub.broker?

namespace Progress

/-- How far an invocation has come. -/
def rank : Progress → Nat
  | waiting => 0
  | running => 1
  | ended _ => 2

end Progress

namespace Dispatch

/-- A roll told to the handlers that a registry has for its room. -/
def begin (owner : Owner) (registry : Registry Handler) (r : Roll) : Dispatch :=
  ⟨owner, r, Broadcast.ofRegistry registry r.room, false⟩

def proceed (i : Nat) (after : Progress) (p : Dispatch) : Dispatch :=
  { p with broadcast := p.broadcast.modify i fun inv => { inv with progress := after } }

def conclude (p : Dispatch) : Dispatch :=
  { p with concluded := true }

end Dispatch

/-- What a receive loop does in one turn. -/
inductive Turn
  /-- It finds its token cancelled. -/
  | cancelled
  /-- It finds its channel empty, and nothing can come any more. -/
  | channelClosed
  | undecodable (m : Message)
  /-- It takes a message and begins to tell its roll in the dispatch of the given number. -/
  | dispatch (m : Message) (r : Roll) (number : Nat)
  | close
  /-- It unsubscribes; the call may fail before it gets to the broker. -/
  | leave (arrives : Bool)

namespace Turn

def phase : Turn → Phase
  | cancelled | channelClosed => .draining
  | undecodable _ => .running
  | dispatch _ _ number => .dispatching number
  | close => .closed
  | leave _ => .stopped

def move (h : BrokerHub) : Turn → Broker.Move
  | cancelled | leave false => .stay
  | channelClosed | undecodable _ | dispatch .. => .receive h.topic h.subscription
  | close => .close h.subscription
  | leave true => .leave h.topic h.subscription

/-- A running loop gets a message or an end only while its token is not cancelled. -/
def Receives (c : Core) (h : BrokerHub) (received : Broker.Received) : Prop :=
  h.phase = .running ∧ c.tokens.isCancelled h.token = false ∧
    (c.broker.receive h.topic h.subscription).2 = received

def Possible (c : Core) (h : BrokerHub) : Turn → Prop
  | cancelled => h.phase = .running ∧ c.tokens.isCancelled h.token = true
  | channelClosed => Receives c h .closed
  | undecodable m => Receives c h (.message m) ∧ ∃ e, Wire.decode m.payload = .error e
  | dispatch m r number => Receives c h (.message m) ∧ Wire.decode m.payload = .ok r ∧
      number = c.dispatches.length
  | close => h.phase = .draining
  | leave _ => h.phase = .closed

end Turn

inductive Event
  /-- Nothing that the core shows. -/
  | idle
  /-- A new hub that works without a broker. -/
  | hub (h : Hub)
  /-- A new hub with a channel of the given capacity and a loop. -/
  | build (capacity : Nat) (h : BrokerHub)
  | token
  | cancel (t : Token)
  | register (hub : Nat) (room subscriber : String) (h : Handler)
  | unregister (hub : Nat) (room subscriber : String)
  /-- Somebody uses the broker without a hub. -/
  | broker (move : Broker.Move)
  /-- A hub publishes a roll that it has been notified of. -/
  | announce (n : Nat) (h : BrokerHub) (r : Roll)
  /-- A hub without a broker begins to tell a roll that it has been notified of. -/
  | tell (e : Endpoint) (registry : Registry Handler) (r : Roll)
  | proceed (dispatch invocation : Nat) (before after : Progress)
  | conclude (number : Nat) (p : Dispatch)
  | turn (n : Nat) (h : BrokerHub) (t : Turn)
  /-- The handle of the loop of a hub is taken from its place. -/
  | detach (n : Nat) (h : BrokerHub)

namespace Event

def move : Event → Broker.Move
  | build capacity h => .subscribe h.topic capacity
  | broker move => move
  | announce _ h r => .publish ⟨h.topic, Wire.encode r⟩
  | turn _ h t => t.move h
  | _ => .stay

def hubs (hs : List Hub) : Event → List Hub
  | hub h => hs ++ [h]
  | build _ h => hs ++ [.broker h]
  | register n room subscriber h =>
    hs.modify n (Hub.mapRegistry fun r => (r.set room subscriber h).1)
  | unregister n room subscriber =>
    hs.modify n (Hub.mapRegistry fun r => (r.delete room subscriber).1)
  | conclude _ p =>
    match p.owner with
    | .caller _ => hs
    | .receiver n => hs.modify n (Hub.enter .running)
  | turn n _ t => hs.modify n (Hub.enter t.phase)
  | detach n _ => hs.modify n Hub.giveUp
  | _ => hs

def dispatches (ps : List Dispatch) : Event → List Dispatch
  | tell e registry r => ps ++ [.begin (.caller e) registry r]
  | turn n h (.dispatch _ r _) => ps ++ [.begin (.receiver n) h.registry r]
  | proceed n i _ after => ps.modify n (Dispatch.proceed i after)
  | conclude n _ => ps.modify n Dispatch.conclude
  | _ => ps

def tokens (ts : Tokens) : Event → Tokens
  | build .. | token => ts.root.1
  | cancel t => ts.cancel t
  | _ => ts

def Possible (c : Core) : Event → Prop
  | hub h => h.broker? = none ∧ ∀ r, h.registry = .ok r → r = .empty
  | build _ h => h.registry = .empty ∧ h.phase = .running ∧
      h.subscription = c.broker.channels.length ∧
      ∃ parent, h.token = (c.tokens.child parent).2
  | announce n h _ | detach n h => c.brokerHub? n = some h
  | tell e registry _ =>
    c.hubs[e.hub]? = some (.memory registry) ∨ c.hubs[e.hub]? = some (.bare registry)
  | proceed n i before after => before.rank < after.rank ∧
      ∃ p inv, c.dispatches[n]? = some p ∧ p.broadcast[i]? = some inv ∧ inv.progress = before
  | conclude n p => c.dispatches[n]? = some p ∧ p.broadcast.isOver = true ∧
      p.concluded = false
  | turn n h t => c.brokerHub? n = some h ∧ t.Possible c h
  | _ => True

end Event

def Core.apply (c : Core) (e : Event) : Core :=
  ⟨c.broker.apply e.move, e.hubs c.hubs, e.dispatches c.dispatches, e.tokens c.tokens⟩

/-! The subscriptions that turns and events go to. -/

theorem Turn.target?_move (t : Turn) (h : BrokerHub) :
    (t.move h).target? = none ∨ (t.move h).target? = some h.subscription := by
  cases t with
  | cancelled => exact .inl rfl
  | leave arrives => cases arrives <;> simp [move, Broker.Move.target?]
  | _ => exact .inr rfl

theorem Turn.move_ne_publish (t : Turn) (h : BrokerHub) (m : Message) : t.move h ≠ .publish m := by
  cases t with
  | leave arrives => cases arrives <;> simp [move]
  | _ => simp [move]

/-- Only turns of loops and those who use the broker without a hub go to a channel. -/
theorem Event.target?_move {e : Event} {id : Nat} (h : e.move.target? = some id) :
    (∃ move, e = .broker move) ∨ ∃ n hub t, e = .turn n hub t ∧ id = hub.subscription := by
  cases e with
  | broker move => exact .inl ⟨move, rfl⟩
  | turn n hub t =>
      refine .inr ⟨n, hub, t, rfl, ?_⟩
      rcases t.target?_move hub with hnone | hsome
      · cases hnone.symm.trans h
      · exact Option.some.inj (h.symm.trans hsome)
  | _ => cases h

/-! The event that an action is, given the deployment it meets. -/

/-- The action is a step of a call that shuts a hub down. -/
def Action.stops : Action → Bool
  | shutdown _ | takeHandle _ | endShutdown _ | abandonShutdown _ => true
  | _ => false

/-- The relay has been told to fail such calls. -/
def Route.fails : Route → Option String → Bool
  | .relayed, fault => fault.isSome
  | .direct, _ => false

namespace Deployment

def buildEvent (d : Deployment) (c : HubConfig) : Event :=
  match c.check with
  | .error _ => .idle
  | .ok (route, token, channel) =>
    if route.fails d.exchange.relay.subscribeFault then .idle
    else .build channel.capacity ⟨c.topic, route, .empty, (d.tokens.child token).2,
      d.exchange.broker.channels.length, .running, true⟩

def notifyEvent (d : Deployment) (e : Endpoint) (r : Roll) : Event :=
  match d.hubs[e.hub]? with
  | some (.broker h) =>
    if h.route.fails d.exchange.relay.publishFault then .idle else .announce e.hub h r
  | some (.memory registry) | some (.bare registry) => .tell e registry r
  | some (.failing _) | none => .idle

/-- How an invocation ends that is said to end so. -/
def outcomeAt (d : Deployment) (n i : Nat) (said : Outcome) : Outcome :=
  let bound := do
    let p ← d.dispatches[n]?
    let inv ← p.broadcast[i]?
    some (d.outcomeOf ⟨n, i⟩ said inv.handler)
  bound.getD said

def runningTurn (d : Deployment) (h : BrokerHub) : Turn :=
  if d.tokens.isCancelled h.token then .cancelled
  else
    match (d.exchange.broker.receive h.topic h.subscription).2 with
    | .message m =>
      match Wire.decode m.payload with
      | .ok r => .dispatch m r d.dispatches.size
      | .error _ => .undecodable m
    | _ => .channelClosed

def turnEvent (d : Deployment) (n : Nat) : Event :=
  match d.brokerHub? n with
  | none => .idle
  | some h =>
    match h.phase with
    | .running => .turn n h (d.runningTurn h)
    | .draining => .turn n h .close
    | .closed => .turn n h (.leave !(h.route.fails d.exchange.relay.unsubscribeFault))
    | .dispatching _ | .stopped => .idle

def takeHandleEvent (d : Deployment) (k : Nat) : Event :=
  let taking : Option Event := do
    let s ← d.shutdowns[k]?
    let h ← d.brokerHub? s.hub
    if s.stage = .called then some (Event.detach s.hub h) else none
  taking.getD .idle

def tellRollEvent (d : Deployment) (n : Nat) : Event :=
  let telling := do
    let c ← d.creations[n]?
    let s ← d.services[c.service]?
    some (d.notifyEvent s.notifier c.roll)
  telling.getD .idle

def event (d : Deployment) : Action → Event
  | .openMemory => .hub (.memory .empty)
  | .openBare => .hub (.bare .empty)
  | .openFailing error => .hub (.failing error)
  | .build c => d.buildEvent c
  | .newToken | .childToken _ => .token
  | .cancel t => .cancel t
  | .subscribe e room subscriber h => .register e.hub room subscriber h
  | .unsubscribe e room subscriber => .unregister e.hub room subscriber
  | .notify e r => d.notifyEvent e r
  | .start n i => .proceed n i .waiting .running
  | .finish n i said => .proceed n i .running (.ended (d.outcomeAt n i said))
  | .conclude n => (d.dispatches[n]?.map (.conclude n ·)).getD .idle
  | .turn n => d.turnEvent n
  | .shutdown n | .dropHub n => ((d.brokerHub? n).map (.cancel ·.token)).getD .idle
  | .takeHandle k => d.takeHandleEvent k
  | .listen topic capacity closed =>
    if (Channel.ofCapacity? capacity).isOk && !closed then .broker (.subscribe topic capacity)
    else .idle
  | .receive topic id => .broker (.receive topic id)
  | .closeChannel id => .broker (.close id)
  | .leave topic id => .broker (.leave topic id)
  | .publish m => .broker (.publish m)
  | .tellRoll n => d.tellRollEvent n
  | .subscribeViewer e id room h => if room = "" then .idle else .register e.hub room id h
  | .unsubscribeViewer v => .unregister v.endpoint.hub v.room v.id
  | .openSession e id room => .register e.hub room id (.feed d.feeds.length)
  | .closeSession s => .unregister s.endpoint.hub s.room s.id
  | .setFaults .. | .addService .. | .requestRoll .. | .throwDice .. | .endCreation _
  | .endShutdown _ | .abandonShutdown _ | .dropRows _ | .dropNotifications _ | .readFeed _ => .idle

end Deployment

end DiceRooms
