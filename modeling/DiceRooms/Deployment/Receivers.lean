import DiceRooms.Deployment.Basic

/-!
Subscriptions to the broker that belong to no hub: whoever makes one reads its channel,
closes it and unsubscribes it by hand.
-/
namespace DiceRooms

inductive ListenError
  /-- There is no channel of such a capacity. -/
  | unsupported (fault : CapacityFault)
  | refused (cause : TransportError)
deriving DecidableEq

namespace Deployment

/-- Subscribes a new channel of the given capacity, perhaps one closed already. -/
def listen (d : Deployment) (topic : String) (capacity : Nat) (closed : Bool) :
    Deployment × Except ListenError Nat :=
  match Channel.ofCapacity? capacity with
  | .error fault => (d, .error (.unsupported fault))
  | .ok c =>
    match d.viaExchange
        (d.exchange.subscribe .direct topic (if closed then c.close else c)) with
    | (d, .error e) => (d, .error (.refused e))
    | (d, .ok id) => (d, .ok id)

def receive (d : Deployment) (topic : String) (subscription : Nat) : Deployment × Broker.Received :=
  let (broker, received) := d.exchange.broker.receive topic subscription
  (d.setBroker broker, received)

/-- What the channel holds can still be read. -/
def closeChannel (d : Deployment) (subscription : Nat) : Deployment :=
  d.setBroker (d.exchange.broker.closeChannel subscription)

def leave (d : Deployment) (topic : String) (subscription : Nat) :
    Deployment × Except TransportError Unit :=
  d.viaExchange (d.exchange.unsubscribe .direct topic subscription)

def publishMessage (d : Deployment) (m : Message) : Deployment × Except TransportError Unit :=
  d.viaExchange (d.exchange.publish .direct m)

/-- How many messages a channel holds. -/
def buffered (d : Deployment) (subscription : Nat) : Nat :=
  (d.exchange.broker.channels[subscription]?.map (·.buffer.length)).getD 0

/-- Takes messages until as many as asked for have come or none is there. -/
def receiveMany (d : Deployment) (topic : String) (subscription : Nat) :
    Nat → Deployment × List Message × Option Broker.Received
  | 0 => (d, [], none)
  | most + 1 =>
    match d.receive topic subscription with
    | (d, .message m) =>
      let (d, ms, ending) := d.receiveMany topic subscription most
      (d, m :: ms, ending)
    | (d, ending) => (d, [], some ending)

end Deployment

end DiceRooms
