import DiceRooms.Broadcast
import DiceRooms.Broker.Relay
import DiceRooms.Feed.Session
import DiceRooms.Hub.Measurement
import DiceRooms.Token

/-!
A deployment: the hubs of one process with the broker, the tokens, the feeds and the
services they work with, and the calls under way. Its operations are atomic; whatever runs concurrently is an
interleaving of them. Nothing is ever renumbered: hubs, dispatches, feeds, services,
creations and shutdowns are known by their place, and notices and measurements are only ever added.
-/
namespace DiceRooms

/-- Where a receive loop stands. It drains by closing its channel first and leaving the
broker next. -/
inductive Phase
  | running
  /-- Telling a roll to the handlers, in the dispatch of the given number. -/
  | dispatching (dispatch : Nat)
  | draining
  | closed
  | stopped
deriving DecidableEq

/-- A hub that hears through a broker what any hub on its topic publishes. -/
structure BrokerHub where
  topic : String
  route : Route
  registry : Registry Handler
  /-- Its own, a child of the one it was built on. -/
  token : Token
  subscription : Nat
  phase : Phase
  /-- The loop can still be waited for: no shutdown has taken its handle. -/
  joinable : Bool

inductive Hub
  /-- Tells rolls to its own handlers while the caller waits. -/
  | memory (registry : Registry Handler)
  /-- A registry used without a hub around it. -/
  | bare (registry : Registry Handler)
  | broker (hub : BrokerHub)
  /-- Refuses everything. -/
  | failing (error : HubError)

namespace Hub

/-- The registry of a hub, or the error of one that refuses. -/
def registry : Hub → Except HubError (Registry Handler)
  | memory r | bare r => .ok r
  | broker h => .ok h.registry
  | failing error => .error error

def withRegistry : Hub → Registry Handler → Hub
  | memory _, r => memory r
  | bare _, r => bare r
  | broker h, r => broker { h with registry := r }
  | failing error, _ => failing error

def isBare : Hub → Bool
  | bare _ => true
  | _ => false

end Hub

/-- A hub behind layers that measure its operations, the innermost layer first. -/
structure Endpoint where
  hub : Nat
  layers : List String
deriving DecidableEq

/-- Whom a dispatch reports to. -/
inductive Owner
  | caller (e : Endpoint)
  /-- The receive loop of a hub. -/
  | receiver (hub : Nat)
deriving DecidableEq

/-- A roll being told to the handlers of its room. -/
structure Dispatch where
  owner : Owner
  roll : Roll
  broadcast : Broadcast
  concluded : Bool

structure Service where
  /-- The serial given out last. -/
  serial : UInt64
  notifier : Endpoint
  subscriber : Endpoint

/-- How far the creation of a roll has come. -/
inductive Stage
  /-- It has its serial, and the dice lie unthrown. -/
  | drafted
  | thrown
  /-- The notifier tells it to handlers, in the dispatch of the given number. -/
  | telling (dispatch : Nat)
  | ended (result : Except DiceError Unit)

/-- A roll that a service has been asked for. -/
structure Creation where
  service : Nat
  roll : Roll
  stage : Stage

/-- How far a call that shuts a hub down has come. -/
inductive ShutdownStage
  /-- It has cancelled the token of the hub. -/
  | called
  /-- It has taken the handle of the loop, and waits for the loop to end. -/
  | waiting
  | returned (waited : Bool)
  /-- Its caller has let go of it while it waited, and of the handle with it. -/
  | abandoned
deriving DecidableEq

structure Shutdown where
  hub : Nat
  stage : ShutdownStage
deriving DecidableEq

structure Deployment where
  tokens : Tokens
  exchange : Exchange
  hubs : List Hub
  dispatches : Array Dispatch
  feeds : List Feed
  services : List Service
  creations : List Creation
  shutdowns : List Shutdown
  measurements : List Measurement
  /-- The newest comes first. -/
  notices : List Notice

namespace Deployment

def empty : Deployment := ⟨.empty, .empty, [], #[], [], [], [], [], [], []⟩

def tell (d : Deployment) (ns : List Notice) : Deployment :=
  { d with notices := ns.reverse ++ d.notices }

/-- One measurement by each layer, from the innermost outwards. -/
def measure (d : Deployment) (e : Endpoint) (op : Operation) (success : Bool) : Deployment :=
  { d with measurements := d.measurements ++ e.layers.map (Measurement.of · op success) }

def setHub (d : Deployment) (n : Nat) (h : Hub) : Deployment :=
  { d with hubs := d.hubs.set n h }

def addHub (d : Deployment) (h : Hub) : Deployment × Nat :=
  ({ d with hubs := d.hubs ++ [h] }, d.hubs.length)

def brokerHub? (d : Deployment) (n : Nat) : Option BrokerHub :=
  match d.hubs[n]? with
  | some (.broker h) => some h
  | _ => none

def registry? (d : Deployment) (n : Nat) : Option (Registry Handler) :=
  d.hubs[n]?.bind (·.registry.toOption)

def subscriberCount (d : Deployment) (n : Nat) (room : String) : Nat :=
  ((d.registry? n).map (·.subscriberCount room)).getD 0

def setBroker (d : Deployment) (broker : Broker) : Deployment :=
  { d with exchange := { d.exchange with broker } }

def setRelay (d : Deployment) (relay : Relay) : Deployment :=
  { d with exchange := { d.exchange with relay } }

/-- Carries out a call to the exchange. -/
def viaExchange (d : Deployment) (r : Exchange × List Notice × α) : Deployment × α :=
  (({ d with exchange := r.1 } : Deployment).tell r.2.1, r.2.2)

end Deployment

end DiceRooms
