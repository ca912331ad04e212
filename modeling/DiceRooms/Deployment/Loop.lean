import DiceRooms.Deployment.Hubs
import DiceRooms.Settings

/-!
Hubs on a broker: how they are built, the turns of their receive loops, and how they
are stopped. A loop looks for cancellation before it looks for messages, so a backlog
is not worked off once its token is cancelled; a dispatch that has begun is finished.
-/
namespace DiceRooms

structure HubConfig where
  route : Option Route
  token : Option Token
  topic : String
  capacity : Nat

/-- Without a client and a token a hub cannot be built; the rest has defaults. -/
def HubConfig.default : HubConfig := ⟨none, none, defaultTopic, defaultCapacity⟩

inductive BuildError
  | refused (cause : HubError)
  /-- There is no channel of such a capacity. -/
  | unsupported (fault : CapacityFault)
deriving DecidableEq

def BuildError.message : BuildError → String
  | .refused cause => cause.message
  | .unsupported fault => fault.message

/-- The client, the token and the channel for a config that has all it needs. -/
def HubConfig.check (c : HubConfig) : Except BuildError (Route × Token × Channel) :=
  match c.route, c.token with
  | none, _ => .error (.refused (.configuration "the transport client is required"))
  | _, none => .error (.refused (.configuration "a cancellation token is required"))
  | some route, some token =>
    if c.topic = "" then .error (.refused (.configuration "the topic can't be empty"))
    else if c.capacity = 0 then
      .error (.refused (.configuration "the delivery capacity must be greater than zero"))
    else
      match Channel.ofCapacity? c.capacity with
      | .error fault => .error (.unsupported fault)
      | .ok channel => .ok (route, token, channel)

namespace Deployment

/-- Subscribes to the topic and starts the receive loop. -/
def buildHub (d : Deployment) (c : HubConfig) : Deployment × Except BuildError Nat :=
  match c.check with
  | .error e => (d, .error e)
  | .ok (route, token, channel) =>
    match d.viaExchange (d.exchange.subscribe route c.topic channel) with
    | (d, .error e) =>
      (d, .error (.refused (.transport "subscribe on dice roll created topic" e)))
    | (d, .ok subscription) =>
      let (tokens, own) := d.tokens.child token
      let d := { d with tokens }
      let (d, n) := d.addHub
        (.broker ⟨c.topic, route, .empty, own, subscription, .running, true⟩)
      (d.tell [.hubReady c.topic, .loopStarted c.topic], .ok n)

/-- Works on the next message of a running loop, if there is anything to do. -/
def takeMessage (d : Deployment) (n : Nat) (h : BrokerHub) : Option Deployment :=
  let (broker, received) := d.exchange.broker.receive h.topic h.subscription
  let d := d.setBroker broker
  match received with
  | .empty => none
  | .closed => some ((d.tell [.channelClosed h.topic]).setPhase n .draining)
  | .message m =>
    match Wire.decode m.payload with
    | .error e => some (d.tell [.undecodable m.topic e])
    | .ok r =>
      let d := d.tell [.received r.room r.id]
      let (d, dispatch) := d.openDispatch (.receiver n) h.registry r
      some (d.setPhase n (.dispatching dispatch))

/-- Leaves the broker, which ends the loop whether or not it succeeds. -/
def leaveBroker (d : Deployment) (n : Nat) (h : BrokerHub) : Deployment :=
  let (d, result) := d.viaExchange (d.exchange.unsubscribe h.route h.topic h.subscription)
  let d := match result with
    | .ok () => d
    | .error e => d.tell [.unsubscribeFailed h.topic e]
  (d.setPhase n .stopped).tell [.loopStopped h.topic]

/-- One turn of a hub's receive loop; none if it has to wait or has ended. -/
def turn (d : Deployment) (n : Nat) : Option Deployment :=
  match d.brokerHub? n with
  | none => none
  | some h =>
    match h.phase with
    | .running =>
      if d.tokens.isCancelled h.token then
        some ((d.tell [.loopStopping h.topic]).setPhase n .draining)
      else d.takeMessage n h
    | .dispatching _ => none
    | .draining =>
      some ((d.setBroker (d.exchange.broker.closeChannel h.subscription)).setPhase n .closed)
    | .closed => some (d.leaveBroker n h)
    | .stopped => none

def cancel (d : Deployment) (t : Token) : Deployment :=
  { d with tokens := d.tokens.cancel t }

def isStopped (d : Deployment) (n : Nat) : Bool :=
  ((d.brokerHub? n).map fun h => h.phase == .stopped).getD true

/-- A call that shuts a hub down begins: it cancels the hub's own token. -/
def shutdown (d : Deployment) (n : Nat) : Deployment :=
  match d.brokerHub? n with
  | none => d
  | some h => { d.cancel h.token with shutdowns := d.shutdowns ++ [⟨n, .called⟩] }

def setShutdown (d : Deployment) (k : Nat) (s : Shutdown) : Deployment :=
  { d with shutdowns := d.shutdowns.set k s }

/-- The call takes the handle of the loop from its place. Only the first to come gets it and
waits; the others find the place empty and return. -/
def takeHandle (d : Deployment) (k : Nat) : Option Deployment := do
  let s ← d.shutdowns[k]?
  let h ← d.brokerHub? s.hub
  if s.stage = .called then
    let stage := if h.joinable then .waiting else .returned false
    some ((d.setHub s.hub (.broker { h with joinable := false })).setShutdown k { s with stage })
  else none

/-- A call that has waited returns once the loop has stopped. -/
def endShutdown (d : Deployment) (k : Nat) : Option Deployment := do
  let s ← d.shutdowns[k]?
  if s.stage = .waiting ∧ d.isStopped s.hub = true then
    some (d.setShutdown k { s with stage := .returned true })
  else none

/-- The caller lets go of a call that waits. -/
def abandonShutdown (d : Deployment) (k : Nat) : Option Deployment := do
  let s ← d.shutdowns[k]?
  if s.stage = .waiting then some (d.setShutdown k { s with stage := .abandoned }) else none

/-- Whether the loop can be waited for and has not ended. -/
def isRunning (d : Deployment) (n : Nat) : Bool :=
  ((d.brokerHub? n).map fun h => h.joinable && h.phase != .stopped).getD false

/-- Lets go of a hub: nobody holds it any more. -/
def dropHub (d : Deployment) (n : Nat) : Deployment :=
  match d.brokerHub? n with
  | none => d
  | some h => d.cancel h.token

end Deployment

end DiceRooms
