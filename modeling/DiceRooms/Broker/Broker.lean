import DiceRooms.Broker.Channel
import DiceRooms.Notice
import DiceRooms.Table

/-!
A broker within one process. Subscriptions are numbered in the order they are made and
never renumbered, and each has a channel of its own. A topic without subscriptions is
not kept.

Publishing looks up the receivers first and then serves one after the other, so it is
told as a `Publication` that is worked off in steps; `publish` does all of them at once.
-/
namespace DiceRooms

structure Broker where
  /-- The channel of every subscription ever made, by its number. -/
  channels : List Channel
  /-- The subscriptions that a message on the topic goes to. -/
  topics : Table String (List Nat)
deriving DecidableEq

/-- A message on its way: the subscriptions it has yet to be offered to, and one that
was found closed and has yet to be pruned. -/
structure Publication where
  message : Message
  receivers : List Nat
  pruning : Option Nat
deriving DecidableEq

namespace Broker

def empty : Broker := ⟨[], []⟩

def subscriptions (b : Broker) (topic : String) : List Nat :=
  (b.topics.at? topic).getD []

def subscriptionCount (b : Broker) (topic : String) : Nat :=
  (b.subscriptions topic).length

def isRegistered (b : Broker) (topic : String) (id : Nat) : Bool :=
  (b.subscriptions topic).contains id

/-- Takes a subscription off its topic and tells whether it was there. -/
def remove (b : Broker) (topic : String) (id : Nat) : Broker × Bool :=
  match b.topics.at? topic with
  | none => (b, false)
  | some ids =>
    let rest := ids.filter (· ≠ id)
    ({ b with topics := if rest = [] then b.topics.remove topic else b.topics.put topic rest },
      ids.contains id)

/-- Subscribes a new channel to a topic; a channel that is closed already is refused. -/
def subscribe (b : Broker) (topic : String) (c : Channel) :
    Broker × List Notice × Except TransportError Nat :=
  if c.isOpen then
    let id := b.channels.length
    (⟨b.channels ++ [c], b.topics.put topic (b.subscriptions topic ++ [id])⟩,
      [.topicSubscribed topic id], .ok id)
  else (b, [], .error (.subscribe "delivery channel is closed"))

def unsubscribe (b : Broker) (topic : String) (id : Nat) :
    Broker × List Notice × Except TransportError Unit :=
  let (b, removed) := b.remove topic id
  if removed then (b, [.topicUnsubscribed topic id], .ok ())
  else
    (b, [], .error (.unsubscribe
      ("subscription " ++ toString id ++ " on " ++ topic ++ " is not active")))

def setChannel (b : Broker) (id : Nat) (c : Channel) : Broker :=
  { b with channels := b.channels.set id c }

def beginPublication (b : Broker) (m : Message) : Publication × List Notice :=
  let receivers := b.subscriptions m.topic
  (⟨m, receivers, none⟩, [.publishing m.topic receivers.length])

/-- Sends a message into the channel of one subscription. -/
def send (b : Broker) (m : Message) (id : Nat) : Except SendFault Broker :=
  match b.channels[id]? with
  | none => .error .closed
  | some c => (c.send m).map (b.setChannel id)

/-- The next step of a publication, if it is not over: pruning what was found closed, or
offering the message to the next receiver, where a full channel loses it. -/
def stepPublication (b : Broker) (p : Publication) :
    Option (Broker × Publication × List Notice) :=
  match p.pruning, p.receivers with
  | some id, _ => some ((b.remove p.message.topic id).1, { p with pruning := none }, [])
  | none, [] => none
  | none, id :: ids =>
    let p := { p with receivers := ids }
    match b.send p.message id with
    | .ok b => some (b, p, [])
    | .error .full => some (b, p, [.slowConsumer p.message.topic id])
    | .error .closed => some (b, { p with pruning := some id }, [.pruned p.message.topic id])

def workOff : Nat → Broker → Publication → Broker × List Notice
  | 0, b, _ => (b, [])
  | fuel + 1, b, p =>
    match b.stepPublication p with
    | none => (b, [])
    | some (b, p, first) =>
      let (b, rest) := workOff fuel b p
      (b, first ++ rest)

/-- A receiver takes two steps at most. -/
def publish (b : Broker) (m : Message) : Broker × List Notice :=
  let (p, begun) := b.beginPublication m
  let (b, rest) := workOff (2 * p.receivers.length) b p
  (b, begun ++ rest)

inductive Received
  | message (m : Message)
  | empty
  /-- Nothing is left, and nothing can come any more. -/
  | closed
deriving DecidableEq

/-- Takes the next message of a subscription's channel. -/
def receive (b : Broker) (topic : String) (id : Nat) : Broker × Received :=
  match b.channels[id]? with
  | none => (b, .closed)
  | some c =>
    match c.take? with
    | some (m, c) => (b.setChannel id c, .message m)
    | none => (b, if c.isOpen && b.isRegistered topic id then .empty else .closed)

def closeChannel (b : Broker) (id : Nat) : Broker :=
  match b.channels[id]? with
  | none => b
  | some c => b.setChannel id c.close

end Broker

end DiceRooms
