import DiceRooms.Scenario.Play
import DiceRooms.Text.Lossy

/-!
Steps on the broker itself: subscriptions without a hub, messages published by hand and
the faults of the relay.
-/
namespace DiceRooms.Scenario

namespace Play

def closeReceiver (p : Play) (name : String) : Play :=
  match p.receivers.at? name with
  | none => p
  | some r => { p with deployment := p.deployment.closeChannel r.subscription }

def forgetReceiver (p : Play) (name : String) : Play :=
  let p := p.closeReceiver name
  { p with receivers := p.receivers.adjust name fun r => { r with present := false } }

/-- Drops a receiver and answers whether it was there. What was sent to it goes with it. -/
def dropReceiver (p : Play) (name : String) : Play × Answer :=
  (p.forgetReceiver name, .flag (((p.receivers.at? name).map (·.present)).getD false))

/-- A name that is given away anew lets go of its receiver. -/
def listen (p : Play) (name topic : String) (capacity : Nat) (closed : Bool) : Play × Answer :=
  match p.deployment.listen topic capacity closed with
  | (deployment, .error e) => ({ p with deployment }, .failed (.listen e))
  | (deployment, .ok id) =>
    let p := { p with deployment }.forgetReceiver name
    ({ p with receivers := p.receivers.put name ⟨topic, id, true⟩ }, .ok)

def receiveEnd : Option Broker.Received → ReceiveEnd
  | none | some (.message _) => .most
  | some .empty => .empty
  | some .closed => .closed

/-- The text of a payload, with marks in a roll that a service made. -/
def payloadText (p : Play) (payload : Bytes) : String :=
  lossyText <| match Wire.decode payload with
    | .error _ => payload
    | .ok r =>
      if p.isClockTime r.createdAt then Wire.encodeAs writeMark (writeMark nowMark) r
      else payload

def receive (p : Play) (name : String) (most : Option Nat) : Play × Answer :=
  match (p.receivers.at? name).filter (·.present) with
  | none => (p, .messages [] .closed)
  | some r =>
    let most := most.getD (p.deployment.buffered r.subscription + 1)
    let shown (m : Message) := (m.topic, p.payloadText m.payload)
    p.via (fun (ms, ending) => .messages (ms.map shown) (receiveEnd ending))
      (p.deployment.receiveMany r.topic r.subscription most)

def leaveTopic (p : Play) (topic : String) (id : Nat) : Play × Answer :=
  p.via (answerOf .transport) (p.deployment.leave topic id)

def leave (p : Play) (name : String) : Play × Answer :=
  match p.receivers.at? name with
  | none => (p, .ok)
  | some r => p.leaveTopic r.topic r.subscription

/-- Unsubscribes the subscription that was made through the relay in the given place. -/
def kick (p : Play) (index : Nat) : Play × Answer :=
  match p.deployment.exchange.relay.subscriptions[index]? with
  | none => (p, .ok)
  | some (topic, id) => p.leaveTopic topic id

def publish (p : Play) (topic : String) (payload : Bytes) : Play × Answer :=
  p.via (answerOf .transport) (p.deployment.publishMessage ⟨topic, payload⟩)

def setFaults (p : Play) (c : FaultChange) : Play :=
  let relay := p.deployment.exchange.relay
  { p with
    deployment := p.deployment.setFaults (c.publish.getD relay.publishFault)
      (c.subscribe.getD relay.subscribeFault) (c.unsubscribe.getD relay.unsubscribeFault) }

def relayStats (p : Play) : Answer :=
  let relay := p.deployment.exchange.relay
  .stats relay.published relay.unsubscribed

end Play

end DiceRooms.Scenario
