import DiceRooms.Broker.Broker

/-!
Clients of the broker. One goes there directly; the other passes through a relay that
counts what it forwards and can be told to fail.
-/
namespace DiceRooms

structure Relay where
  published : Nat
  unsubscribed : Nat
  publishFault : Option String
  subscribeFault : Option String
  unsubscribeFault : Option String
  /-- The subscriptions made through the relay, in order, with their topics. -/
  subscriptions : List (String × Nat)
deriving DecidableEq

def Relay.idle : Relay := ⟨0, 0, none, none, none, []⟩

inductive Route
  | direct
  | relayed
deriving DecidableEq

/-- The broker and the relay in front of it. -/
structure Exchange where
  broker : Broker
  relay : Relay
deriving DecidableEq

namespace Exchange

def empty : Exchange := ⟨.empty, .idle⟩

/-- A publication that the relay fails is not counted. -/
def publish (x : Exchange) (route : Route) (m : Message) :
    Exchange × List Notice × Except TransportError Unit :=
  match route, x.relay.publishFault with
  | .relayed, some reason => (x, [], .error (.publish reason))
  | .relayed, none =>
    let (b, ns) := x.broker.publish m
    (⟨b, { x.relay with published := x.relay.published + 1 }⟩, ns, .ok ())
  | .direct, _ =>
    let (b, ns) := x.broker.publish m
    ({ x with broker := b }, ns, .ok ())

def subscribe (x : Exchange) (route : Route) (topic : String) (c : Channel) :
    Exchange × List Notice × Except TransportError Nat :=
  match route, x.relay.subscribeFault with
  | .relayed, some reason => (x, [], .error (.subscribe reason))
  | .relayed, none =>
    match x.broker.subscribe topic c with
    | (b, ns, .ok id) =>
      (⟨b, { x.relay with subscriptions := x.relay.subscriptions ++ [(topic, id)] }⟩, ns, .ok id)
    | (b, ns, .error e) => ({ x with broker := b }, ns, .error e)
  | .direct, _ =>
    let (b, ns, r) := x.broker.subscribe topic c
    ({ x with broker := b }, ns, r)

/-- Every attempt to unsubscribe counts, also one that the relay fails. -/
def unsubscribe (x : Exchange) (route : Route) (topic : String) (id : Nat) :
    Exchange × List Notice × Except TransportError Unit :=
  match route with
  | .direct =>
    let (b, ns, r) := x.broker.unsubscribe topic id
    ({ x with broker := b }, ns, r)
  | .relayed =>
    let relay := { x.relay with unsubscribed := x.relay.unsubscribed + 1 }
    match x.relay.unsubscribeFault with
    | some reason => (⟨x.broker, relay⟩, [], .error (.unsubscribe reason))
    | none =>
      let (b, ns, r) := x.broker.unsubscribe topic id
      (⟨b, relay⟩, ns, r)

end Exchange

end DiceRooms
