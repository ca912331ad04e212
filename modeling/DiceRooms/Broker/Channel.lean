import DiceRooms.Text.Utf8

/-!
Bounded delivery channels. A channel holds what has been sent and not yet taken, and
once closed it takes nothing more but can still be read. Not every number can be the
capacity of a channel.
-/
namespace DiceRooms

structure Message where
  topic : String
  payload : Bytes
deriving DecidableEq

structure Channel where
  capacity : Nat
  buffer : List Message
  isOpen : Bool
deriving DecidableEq

inductive SendFault
  | full
  | closed
deriving DecidableEq

inductive CapacityFault
  | zero
  | tooLarge
deriving DecidableEq

namespace Channel

def ofCapacity (capacity : Nat) : Channel := ⟨capacity, [], true⟩

/-- The most messages that a channel can be made for, one less than `2 ^ 61`. -/
def maxCapacity : Nat := 0x1FFFFFFFFFFFFFFF

/-- A new channel, where one of that capacity can be made. -/
def ofCapacity? (capacity : Nat) : Except CapacityFault Channel :=
  if capacity = 0 then .error .zero
  else if maxCapacity < capacity then .error .tooLarge
  else .ok (ofCapacity capacity)

def send (c : Channel) (m : Message) : Except SendFault Channel :=
  if ¬ c.isOpen then .error .closed
  else if c.capacity ≤ c.buffer.length then .error .full
  else .ok { c with buffer := c.buffer ++ [m] }

def take? (c : Channel) : Option (Message × Channel) :=
  match c.buffer with
  | [] => none
  | m :: rest => some (m, { c with buffer := rest })

def close (c : Channel) : Channel := { c with isOpen := false }

theorem send_eq_ok_iff (c c' : Channel) (m : Message) :
    c.send m = .ok c' ↔ c.isOpen = true ∧ c.buffer.length < c.capacity ∧
      { c with buffer := c.buffer ++ [m] } = c' := by
  rw [send]
  split
  · simp_all
  · split
    · next h => exact ⟨nofun, fun h' => absurd h'.2.1 (by omega)⟩
    · simp_all

theorem send_eq_full_iff (c : Channel) (m : Message) :
    c.send m = .error .full ↔ c.isOpen = true ∧ c.capacity ≤ c.buffer.length := by
  rw [send]
  split
  · simp_all
  · split <;> simp_all

theorem send_eq_closed_iff (c : Channel) (m : Message) :
    c.send m = .error .closed ↔ c.isOpen = false := by
  rw [send]
  split
  · simp_all
  · split <;> simp_all

end Channel

def CapacityFault.message : CapacityFault → String
  | .zero => "mpsc bounded channel requires buffer > 0"
  | .tooLarge =>
    "a semaphore may not have more than MAX_PERMITS permits (" ++
      toString Channel.maxCapacity ++ ")"

end DiceRooms
