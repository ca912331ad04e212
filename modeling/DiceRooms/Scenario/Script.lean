import DiceRooms.Deployment.Loop
import DiceRooms.Deployment.Receivers
import DiceRooms.Deployment.Rolls

/-!
The language of scenarios: steps that build a deployment and work on it by name, and
plans that say how a handler behaves when it is called. Dice are told by the ids of
their types, which are looked up when a roll is used.
-/
namespace DiceRooms.Scenario

mutual

/-- What a handler does on its own account. -/
inductive Act
  | subscribe (hub room subscriber : String) (plan : Plan)
  | unsubscribe (hub room subscriber : String)
  | notify (hub : String) (roll : Wire.RawRoll)

/-- A handler: ignoring everything, or waiting at a gate, noting the roll at a sink,
acting if the call is one of the first `times`, and then ending in one way. -/
inductive Plan
  | idle
  | scripted (name : String) (sink gate : Option String) (acts : List Act) (times : Nat)
      (ending : Outcome)

end

inductive FeedStream
  | rows
  | notifications
deriving DecidableEq

/-- Faults to set on the relay; what is not mentioned stays as it is. -/
structure FaultChange where
  publish : Option (Option String)
  subscribe : Option (Option String)
  unsubscribe : Option (Option String)

inductive Step
  | newMemory (hub : String)
  | newRegistry (hub : String)
  | newBroker (hub : String) (route : Option Route) (token : Option String)
      (topic : Option String) (capacity : Option Nat)
  | newFailing (hub : String) (error : HubError)
  | measure (hub inner kind : String)
  | measures
  | subscribe (hub room subscriber : String) (plan : Plan)
  | unsubscribe (hub room subscriber : String)
  | notify (hub : String) (roll : Wire.RawRoll)
  | burst (hub : String) (rolls : List Wire.RawRoll)
  | count (hub room : String)
  | rooms (hub : String)
  | snapshot (hub room : String)
  | topic (hub : String)
  | running (hub : String)
  | shutdown (hub : String)
  | dropHub (hub : String)
  | cancel (token : String)
  | token (token : String)
  | release (gate : String) (permits : Nat)
  | join
  | events (sink : String)
  | listen (receiver topic : String) (capacity : Nat) (closed : Bool)
  | receive (receiver : String) (most : Option Nat)
  | dropReceiver (receiver : String)
  | closeReceiver (receiver : String)
  | leave (receiver : String)
  | subscriptions (topic : String)
  | publish (topic : String) (payload : Bytes)
  | setFaults (change : FaultChange)
  | relayStats
  | kick (index : Nat)
  | newService (service notifier subscriber : String) (roller : Roller)
  | listDice (service : String)
  | roll (service room user : String) (dice : List String) (hideSides : Bool)
  | watch (viewer service room : String) (plan : Plan)
  | unwatch (viewer : String)
  | openFeed (feed hub room : String)
  | readFeed (feed : String)
  | dropStream (feed : String) (which : FeedStream)
  | closeFeed (feed : String)

/-- Why a step could not do what it was asked to. -/
inductive Failure
  | hub (e : HubError)
  | dice (e : DiceError)
  | transport (e : TransportError)
  | listen (e : ListenError)
  | build (e : BuildError)
  | dieType (e : UnknownDieType)

/-- A roll and whether the clock gave it its time. -/
structure Shown where
  roll : Roll
  clocked : Bool

inductive ReceiveEnd
  | most
  | empty
  | closed
deriving DecidableEq

inductive Answer
  | ok
  | pending
  | failed (e : Failure)
  | flag (b : Bool)
  | count (n : Nat)
  | text (s : String)
  | replaced (b : Bool)
  | removed (b : Bool)
  | report (r : Report)
  | sequence (answers : List Answer)
  | joined (answers : List (Nat × Answer))
  | rolls (rolls : List Shown)
  | rolled (roll : Shown)
  /-- A roll whose sides are only told to be in range or not. -/
  | rolledHidden (serial : UInt64) (inRange : Bool) (types : List DieType)
  | measurements (ms : List Measurement)
  | handlers (hs : List (String × String))
  | dice (types : List DieType)
  | opened (id room : String)
  | feed (rows : List Bytes) (notifications : List String)
  /-- The topic and the text of every message. -/
  | messages (ms : List (String × String)) (ending : ReceiveEnd)
  | stats (published unsubscribed : Nat)

/-- What one step gave: its answer, what handlers noted meanwhile and what was told. -/
structure Result where
  answer : Answer
  noted : Table String (List String)
  lines : List String

end DiceRooms.Scenario
