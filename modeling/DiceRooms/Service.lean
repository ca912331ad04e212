import DiceRooms.Hub.Error
import DiceRooms.Roll

/-!
Requests for rolls. A valid request takes the next serial of the service and becomes a
roll whose dice lie unthrown; an invalid one takes nothing.
-/
namespace DiceRooms

structure Request where
  room : String
  user : String
  dice : List DieType
deriving DecidableEq

def Request.check (q : Request) : Except InvalidRequest Unit :=
  if q.room = "" then .error .noRoom
  else if q.user = "" then .error .noUser
  else if q.dice = [] then .error .noDice
  else if maxDice < q.dice.length then .error (.tooManyDice q.dice.length)
  else .ok ()

/-- New ids for a roll and for its dice by their place. -/
structure FreshIds where
  roll : String
  die : Nat → String

/-- The roll of a request before the dice are thrown. -/
def Request.draft (q : Request) (serial : UInt64) (ids : FreshIds) (now : Instant) : Roll :=
  { id := ids.roll
    serial
    createdAt := now
    room := q.room
    user := q.user
    dice := q.dice.mapIdx fun i t => ⟨ids.die i, t, 0⟩ }

/-- Checks a request and takes a serial for it; `last` is the one given out last. -/
def Request.accept (q : Request) (last : UInt64) (ids : UInt64 → FreshIds) (now : Instant) :
    UInt64 × Except InvalidRequest Roll :=
  match q.check with
  | .error e => (last, .error e)
  | .ok () => (last + 1, .ok (q.draft (last + 1) (ids (last + 1)) now))

theorem Request.check_eq_ok_iff (q : Request) :
    q.check = .ok () ↔
      q.room ≠ "" ∧ q.user ≠ "" ∧ 0 < q.dice.length ∧ q.dice.length ≤ maxDice := by
  rw [Request.check]
  repeat' split
  all_goals simp_all [List.length_pos_iff]

end DiceRooms
