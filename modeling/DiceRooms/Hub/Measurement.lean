/-!
Measurements of hub operations: how long one took, labelled by the kind of the hub,
the operation and whether it succeeded.
-/
namespace DiceRooms

inductive Operation
  | notify
  | subscribe
  | unsubscribe
deriving DecidableEq

def Operation.name : Operation → String
  | .notify => "notify_dice_roll_created"
  | .subscribe => "subscribe_dice_roll_created"
  | .unsubscribe => "unsubscribe_dice_roll_created"

/-- The histogram that a measurement goes to. -/
inductive Histogram
  | notifier
  | subscriber
deriving DecidableEq

def Histogram.name : Histogram → String
  | .notifier => "rollify_notifier_operation_duration_seconds"
  | .subscriber => "rollify_subscriber_operation_duration_seconds"

def Operation.histogram : Operation → Histogram
  | .notify => .notifier
  | .subscribe => .subscriber
  | .unsubscribe => .subscriber

structure Measurement where
  histogram : Histogram
  hubKind : String
  operation : String
  success : Bool
deriving DecidableEq

namespace Measurement

def of (hubKind : String) (op : Operation) (success : Bool) : Measurement :=
  ⟨op.histogram, hubKind, op.name, success⟩

/-- Ascending by key. -/
def labels (m : Measurement) : List (String × String) :=
  [("hub_kind", m.hubKind), ("op", m.operation),
   ("success", if m.success then "true" else "false")]

end Measurement

/-- A span of time in seconds, rounded first to whole seconds and then as a sum. -/
def durationSeconds (secs nanos : UInt64) : Float :=
  secs.toFloat + nanos.toFloat / 1000000000

end DiceRooms
