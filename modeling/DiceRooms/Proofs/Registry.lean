import DiceRooms.Registry

/-!
Snapshots of registries. A registry that has been filled by its own operations holds every
subscriber of a room once, so a snapshot lists exactly the handlers that a look-up finds.
-/
namespace DiceRooms

namespace Table

variable {κ υ : Type} [DecidableEq κ]

theorem mem_iff_at?_eq_some {t : Table κ υ} (h : t.Keyed) (k : κ) (v : υ) :
    (k, v) ∈ t ↔ t.at? k = some v := by
  induction t with
  | nil => simp [at?]
  | cons e t ih =>
      obtain ⟨k', v'⟩ := e
      have hkeyed : k' ∉ keys t ∧ Keyed t := List.nodup_cons.mp h
      simp only [at?, List.mem_cons, Prod.mk.injEq]
      by_cases hk : k' = k
      · subst hk
        have hnot : (k', v) ∉ t := fun hmem => hkeyed.1 (List.mem_map_of_mem hmem)
        simp [hnot, eq_comm]
      · rw [if_neg hk, ← ih hkeyed.2]
        exact ⟨fun hor => hor.resolve_left fun heq => hk heq.1.symm, .inr⟩

end Table

namespace Registry

variable {η : Type}

/-- Every room holds every subscriber once. -/
def Keyed (r : Registry η) : Prop := ∀ room, (r.handlers room).Keyed

theorem keyed_empty : (empty : Registry η).Keyed := by
  intro room
  exact List.nodup_nil

theorem keyed_set {r : Registry η} (h : r.Keyed) (room subscriber : String) (f : η) :
    (r.set room subscriber f).1.Keyed := by
  intro room'
  rw [handlers_set]
  split
  · exact Table.keyed_put (h room) subscriber f
  · exact h room'

theorem keyed_delete {r : Registry η} (h : r.Keyed) (room subscriber : String) :
    (r.delete room subscriber).1.Keyed := by
  intro room'
  rw [handlers_delete]
  split
  · exact Table.keyed_remove (h room) subscriber
  · exact h room'

theorem nodup_snapshot {r : Registry η} (h : r.Keyed) (room : String) :
    ((r.snapshot room).map Prod.fst).Nodup :=
  h room

theorem mem_snapshot_iff {r : Registry η} (h : r.Keyed) (room subscriber : String) (f : η) :
    (subscriber, f) ∈ r.snapshot room ↔ r.get? room subscriber = some f :=
  Table.mem_iff_at?_eq_some (h room) subscriber f

end Registry

end DiceRooms
