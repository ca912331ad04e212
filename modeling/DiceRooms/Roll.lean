import DiceRooms.Die
import DiceRooms.Time.Instant

/-!
A roll: dice thrown together by a user in a room. It is also the event that is
told to the room, for the fact that a roll was created carries nothing else.
-/
namespace DiceRooms

structure Die where
  id : String
  type : DieType
  /-- Zero until the die is thrown, then counted from one. -/
  side : UInt64
deriving DecidableEq

structure Roll where
  id : String
  serial : UInt64
  createdAt : Instant
  room : String
  user : String
  dice : List Die
deriving DecidableEq

def Die.text (d : Die) : String :=
  d.type.id ++ ":" ++ toString d.side.toNat

namespace Roll

def total (r : Roll) : Nat :=
  r.dice.foldr (fun d n => d.side.toNat + n) 0

def text (r : Roll) : String :=
  "#" ++ toString r.serial.toNat ++ " " ++ r.user ++ ":" ++
    String.join (r.dice.map fun d => " " ++ d.text) ++
    " (total " ++ toString r.total ++ ")"

/-- The roll with the time that it shows. -/
def settled (r : Roll) : Roll := { r with createdAt := r.createdAt.settled }

theorem settled_eq_self_iff {r : Roll} : r.settled = r ↔ r.createdAt.Regular := by
  rw [← Instant.settled_eq_self_iff]
  refine ⟨congrArg createdAt, fun h => ?_⟩
  rw [settled, h]

@[simp] theorem room_settled (r : Roll) : r.settled.room = r.room := rfl

@[simp] theorem settled_settled (r : Roll) : r.settled.settled = r.settled :=
  settled_eq_self_iff.mpr r.createdAt.regular_settled

end Roll

end DiceRooms
