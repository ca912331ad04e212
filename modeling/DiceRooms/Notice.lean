import DiceRooms.Hub.Error

/-!
What the parts of a deployment tell about their work, and its text as a log line: a
level, a message and fields in the order of their names.
-/
namespace DiceRooms

inductive Level
  | debug
  | info
  | warn
  | error
deriving DecidableEq

def Level.name : Level → String
  | debug => "DEBUG"
  | info => "INFO"
  | warn => "WARN"
  | error => "ERROR"

inductive Notice
  | handlerSet (room subscriber : String) (replaced : Bool)
  | handlerDeleted (room subscriber : String) (removed : Bool)
  | nobodyThere (room : String)
  | dispatching (room roll : String) (handlers : Nat)
  | handlerFailed (room subscriber handler reason : String)
  | dispatched (room roll : String) (delivered failed : Nat)
  | received (room roll : String)
  | partlyDelivered (room roll : String) (delivered failed : Nat)
  | undecodable (topic : String) (error : Wire.DecodeError)
  | publishing (topic : String) (receivers : Nat)
  | slowConsumer (topic : String) (subscription : Nat)
  | pruned (topic : String) (subscription : Nat)
  | topicSubscribed (topic : String) (subscription : Nat)
  | topicUnsubscribed (topic : String) (subscription : Nat)
  | published (topic room roll : String)
  | hubReady (topic : String)
  | loopStarted (topic : String)
  | loopStopping (topic : String)
  | channelClosed (topic : String)
  | unsubscribeFailed (topic : String) (error : TransportError)
  | loopStopped (topic : String)
  | diceRolled (roll : String) (total : Nat)
  | viewerSubscribed (subscription : String)
  | feedOpened (room session : String)
  | feedClosed (room session : String)
deriving DecidableEq

namespace Notice

def level : Notice → Level
  | handlerSet .. | handlerDeleted .. | nobodyThere .. | dispatching .. | dispatched ..
  | received .. | publishing .. | pruned .. | topicSubscribed .. | topicUnsubscribed ..
  | published .. | diceRolled .. | feedClosed .. => .debug
  | hubReady .. | loopStarted .. | loopStopping .. | loopStopped .. | viewerSubscribed ..
  | feedOpened .. => .info
  | partlyDelivered .. | slowConsumer .. | channelClosed .. | unsubscribeFailed .. => .warn
  | handlerFailed .. | undecodable .. => .error

def message : Notice → String
  | handlerSet .. => "Subscribed to DiceRollCreated events"
  | handlerDeleted .. => "Unsubscribed from DiceRollCreated events"
  | nobodyThere .. => "No subscribers for room, event dropped"
  | dispatching _ _ handlers => "Dispatching event to " ++ toString handlers ++ " handlers"
  | handlerFailed .. => "Error executing hub event handler"
  | dispatched .. => "DiceRollCreated event dispatched"
  | received .. => "DiceRollCreated event received, broadcasting"
  | partlyDelivered .. => "DiceRollCreated event partially delivered"
  | undecodable .. => "Could not handle DiceRollCreated event, message dropped"
  | publishing .. => "Publishing message"
  | slowConsumer .. => "Slow consumer, message dropped"
  | pruned .. => "Delivery channel closed, pruning"
  | topicSubscribed .. => "Subscribed to topic"
  | topicUnsubscribed .. => "Unsubscribed from topic"
  | published .. => "DiceRollCreated event published"
  | hubReady .. => "Broker event hub ready"
  | loopStarted .. => "Started event receiver loop"
  | loopStopping .. => "Stopping event receiver loop, cancellation requested"
  | channelClosed .. => "Delivery channel closed by the transport"
  | unsubscribeFailed .. => "Could not unsubscribe from transport"
  | loopStopped .. => "Stopped event receiver loop"
  | diceRolled .. => "Dice rolled"
  | viewerSubscribed .. => "Room viewer subscribed"
  | feedOpened .. => "Feed session opened"
  | feedClosed .. => "Feed session closed"

def fields : Notice → List (String × String)
  | handlerSet room subscriber replaced =>
    [("replaced", toString replaced), ("room_id", room), ("subscriber_id", subscriber)]
  | handlerDeleted room subscriber removed =>
    [("removed", toString removed), ("room_id", room), ("subscriber_id", subscriber)]
  | nobodyThere room => [("room_id", room)]
  | dispatching room roll _ | received room roll => [("dice_roll_id", roll), ("room_id", room)]
  | handlerFailed room subscriber handler reason =>
    [("error", "Handler error: " ++ reason), ("handler", handler), ("room_id", room),
     ("subscriber_id", subscriber)]
  | dispatched room roll delivered failed | partlyDelivered room roll delivered failed =>
    [("delivered", toString delivered), ("dice_roll_id", roll), ("failed", toString failed),
     ("room_id", room)]
  | undecodable topic error => [("error", error.message), ("topic", topic)]
  | publishing topic receivers => [("receivers", toString receivers), ("topic", topic)]
  | slowConsumer topic subscription | pruned topic subscription
  | topicSubscribed topic subscription | topicUnsubscribed topic subscription =>
    [("subscription", toString subscription), ("topic", topic)]
  | published topic room roll => [("dice_roll_id", roll), ("room_id", room), ("topic", topic)]
  | hubReady topic | loopStarted topic | loopStopping topic | channelClosed topic
  | loopStopped topic => [("topic", topic)]
  | unsubscribeFailed topic error => [("error", error.message), ("topic", topic)]
  | diceRolled roll total => [("dice_roll_id", roll), ("total", toString total)]
  | viewerSubscribed subscription => [("subscription_id", subscription)]
  | feedOpened room session | feedClosed room session =>
    [("room_id", room), ("session_id", session)]

/-- The line with every value in the form that `form` gives it. -/
def lineWith (form : String → String) (n : Notice) : String :=
  n.level.name ++ " " ++ n.message ++
    String.join (n.fields.map fun f => "; " ++ f.1 ++ "=" ++ form f.2)

def line (n : Notice) : String := n.lineWith id

end Notice

end DiceRooms
