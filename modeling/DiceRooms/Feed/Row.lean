import DiceRooms.Json.Writer
import DiceRooms.Roll
import DiceRooms.Time.Rfc3339

/-!
The line that a viewer of a room gets for a roll: one JSON object with the fields in
a fixed order.
-/
namespace DiceRooms

structure Row where
  rollId : String
  serial : UInt64
  user : String
  createdAt : Instant
  /-- The dice by their text. -/
  dice : List String
  total : Nat
deriving DecidableEq

namespace Row

def ofRoll (r : Roll) : Row :=
  ⟨r.id, r.serial, r.user, r.createdAt, r.dice.map Die.text, r.total⟩

/-- The line with the id and the time as they are given. -/
def lineAs (id time : Bytes) (r : Row) : Bytes :=
  Json.writeObject
    [("dice_roll_id", id),
     ("serial", Ascii.decimal r.serial.toNat),
     ("user_id", Json.writeText r.user),
     ("created_at", time),
     ("dice", Json.writeList (r.dice.map Json.writeText)),
     ("total", Ascii.decimal r.total)]

def line (r : Row) : Bytes :=
  r.lineAs (Json.writeText r.rollId) (Json.writeOctets (Rfc3339.write .shortest r.createdAt))

end Row

end DiceRooms
