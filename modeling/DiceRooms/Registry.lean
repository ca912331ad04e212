import DiceRooms.Table

/-!
The handlers registered on a hub: for every room, by subscriber. A room without
subscribers is not kept. `get?_set` and `get?_delete` give the registry as a map from
pairs of a room and a subscriber.
-/
namespace DiceRooms

structure Registry (η : Type) where
  rooms : Table String (Table String η)

namespace Registry

variable {η : Type}

def empty : Registry η := ⟨[]⟩

def handlers (r : Registry η) (room : String) : Table String η :=
  (r.rooms.at? room).getD []

def get? (r : Registry η) (room subscriber : String) : Option η :=
  (r.handlers room).at? subscriber

/-- Registers a handler and tells whether it replaced another. -/
def set (r : Registry η) (room subscriber : String) (h : η) : Registry η × Bool :=
  let hs := r.handlers room
  (⟨r.rooms.put room (hs.put subscriber h)⟩, (hs.at? subscriber).isSome)

/-- Removes a handler and tells whether there was one. -/
def delete (r : Registry η) (room subscriber : String) : Registry η × Bool :=
  match r.rooms.at? room with
  | none => (r, false)
  | some hs =>
    let rest := hs.remove subscriber
    (⟨if rest = [] then r.rooms.remove room else r.rooms.put room rest⟩,
      (hs.at? subscriber).isSome)

/-- The handlers of a room as they stand now. -/
def snapshot (r : Registry η) (room : String) : List (String × η) :=
  r.handlers room

def subscriberCount (r : Registry η) (room : String) : Nat :=
  (r.handlers room).length

def roomCount (r : Registry η) : Nat :=
  r.rooms.length

theorem handlers_set (r : Registry η) (room subscriber room' : String) (h : η) :
    (r.set room subscriber h).1.handlers room' =
      if room = room' then (r.handlers room).put subscriber h else r.handlers room' := by
  simp only [handlers, set, Table.at?_put]
  split <;> rfl

theorem handlers_delete (r : Registry η) (room subscriber room' : String) :
    (r.delete room subscriber).1.handlers room' =
      if room = room' then (r.handlers room).remove subscriber else r.handlers room' := by
  rw [delete]
  split
  · next h =>
    split
    · next h' => subst h'; simp [handlers, h, Table.remove]
    · rfl
  · next hs h =>
    by_cases hr : hs.remove subscriber = []
    · simp only [handlers, if_pos hr, Table.at?_remove]
      split
      · next h' => subst h'; simp [h, hr]
      · rfl
    · simp only [handlers, if_neg hr, Table.at?_put]
      split
      · next h' => subst h'; simp [h]
      · rfl

theorem get?_set (r : Registry η) (room subscriber room' subscriber' : String) (h : η) :
    (r.set room subscriber h).1.get? room' subscriber' =
      if room = room' ∧ subscriber = subscriber' then some h else r.get? room' subscriber' := by
  simp only [get?, handlers_set]
  by_cases hr : room = room'
  · subst hr
    simp [Table.at?_put]
  · simp [hr]

theorem get?_delete (r : Registry η) (room subscriber room' subscriber' : String) :
    (r.delete room subscriber).1.get? room' subscriber' =
      if room = room' ∧ subscriber = subscriber' then none else r.get? room' subscriber' := by
  simp only [get?, handlers_delete]
  by_cases hr : room = room'
  · subst hr
    simp [Table.at?_remove]
  · simp [hr]

theorem set_replaces (r : Registry η) (room subscriber : String) (h : η) :
    (r.set room subscriber h).2 = (r.get? room subscriber).isSome := rfl

theorem delete_removes (r : Registry η) (room subscriber : String) :
    (r.delete room subscriber).2 = (r.get? room subscriber).isSome := by
  rw [delete, get?, handlers]
  split
  · next h => simp [h, Table.at?]
  · next hs h => simp [h]

end Registry

end DiceRooms
