import DiceRooms.Proofs.Registry
import Mathlib.Data.Set.Card

/-!
Registries as finite maps from pairs of a room and a subscriber. A registry that its own
operations have filled keeps no room without subscribers, so that all it lists and counts is
told by what look-ups find.
-/
namespace DiceRooms

namespace Table

variable {κ υ : Type} [DecidableEq κ] {t : Table κ υ}

theorem put_ne_nil (t : Table κ υ) (k : κ) (v : υ) : t.put k v ≠ [] := by
  cases t with
  | nil => exact List.cons_ne_nil _ _
  | cons e t =>
      rw [put]
      split <;> exact List.cons_ne_nil _ _

theorem exists_at?_iff {k : κ} : (∃ v, t.at? k = some v) ↔ k ∈ keys t := by
  rw [← Option.ne_none_iff_exists', ne_eq, at?_eq_none_iff, not_not]

theorem ncard_at? (h : t.Keyed) : {k | ∃ v, t.at? k = some v}.ncard = t.length := by
  have hkeys : {k | ∃ v, t.at? k = some v} = ((keys t).toFinset : Set κ) := by
    ext k
    rw [Set.mem_ofPred_eq, exists_at?_iff, Finset.mem_coe, List.mem_toFinset]
  rw [hkeys, Set.ncard_coe_finset, List.toFinset_card_of_nodup h]
  exact List.length_map _

end Table

namespace Registry

variable {η : Type} {r : Registry η}

/-- Rooms are kept once, and only those with subscribers, each of whom stands there once. -/
structure Tidy (r : Registry η) : Prop where
  keyed : r.Keyed
  rooms : r.rooms.Keyed
  filled : ∀ {room hs}, r.rooms.at? room = some hs → hs ≠ []

theorem tidy_empty : (empty : Registry η).Tidy where
  keyed := keyed_empty
  rooms := List.nodup_nil
  filled := nofun

theorem tidy_set (tidy : r.Tidy) (room subscriber : String) (f : η) :
    (r.set room subscriber f).1.Tidy where
  keyed := keyed_set tidy.keyed room subscriber f
  rooms := Table.keyed_put tidy.rooms room _
  filled := by
    intro room' hs hroom
    simp only [set, Table.at?_put] at hroom
    split at hroom
    · obtain rfl := Option.some.inj hroom
      exact Table.put_ne_nil _ subscriber f
    · exact tidy.filled hroom

theorem tidy_delete (tidy : r.Tidy) (room subscriber : String) :
    (r.delete room subscriber).1.Tidy where
  keyed := keyed_delete tidy.keyed room subscriber
  rooms := by
    rw [delete]
    split
    · exact tidy.rooms
    · dsimp only
      split
      · exact Table.keyed_remove tidy.rooms room
      · exact Table.keyed_put tidy.rooms room _
  filled := by
    intro room' hs hroom
    rw [delete] at hroom
    split at hroom
    · exact tidy.filled hroom
    · next old _ =>
        by_cases hrest : old.remove subscriber = []
        · simp only [if_pos hrest, Table.at?_remove] at hroom
          split at hroom
          · cases hroom
          · exact tidy.filled hroom
        · simp only [if_neg hrest, Table.at?_put] at hroom
          split at hroom
          · obtain rfl := Option.some.inj hroom
            exact hrest
          · exact tidy.filled hroom

/-- The registry is the finite map from pairs to handlers that the relation tells. -/
structure Represents (r : Registry η) (held : String → String → η → Prop) : Prop where
  finds : ∀ room subscriber f, r.get? room subscriber = some f ↔ held room subscriber f
  /-- A snapshot lists each pair of the room once, with its handler, and nothing else. -/
  nodup : ∀ room, ((r.snapshot room).map Prod.fst).Nodup
  lists : ∀ room subscriber f, (subscriber, f) ∈ r.snapshot room ↔ held room subscriber f
  counts : ∀ room, r.subscriberCount room = {subscriber | ∃ f, held room subscriber f}.ncard
  countsRooms : r.roomCount = {room | ∃ subscriber f, held room subscriber f}.ncard
  filled : ∀ entry ∈ r.rooms, entry.2 ≠ []
  finite : {pair : String × String | ∃ f, held pair.1 pair.2 f}.Finite

/-- A room is kept just when somebody has subscribed to it. -/
theorem Tidy.kept_iff (tidy : r.Tidy) (room : String) :
    (∃ hs, r.rooms.at? room = some hs) ↔ ∃ subscriber f, r.get? room subscriber = some f := by
  constructor
  · rintro ⟨hs, hroom⟩
    obtain ⟨⟨subscriber, f⟩, rest, rfl⟩ := List.exists_cons_of_ne_nil (tidy.filled hroom)
    exact ⟨subscriber, f, by simp [get?, handlers, hroom, Table.at?]⟩
  · rintro ⟨subscriber, f, hget⟩
    cases hroom : r.rooms.at? room with
    | none => simp [get?, handlers, hroom, Table.at?] at hget
    | some hs => exact ⟨hs, rfl⟩

theorem Tidy.finite (tidy : r.Tidy) :
    {pair : String × String | ∃ f, r.get? pair.1 pair.2 = some f}.Finite := by
  let pairs := r.rooms.flatMap fun entry => entry.2.map fun e => (entry.1, e.1)
  refine (List.finite_toSet pairs).subset ?_
  rintro ⟨room, subscriber⟩ ⟨f, hget⟩
  obtain ⟨hs, hroom⟩ := (tidy.kept_iff room).mpr ⟨subscriber, f, hget⟩
  have hmem : (subscriber, f) ∈ hs := by
    have hlisted := (mem_snapshot_iff tidy.keyed room subscriber f).mpr hget
    simpa [snapshot, handlers, hroom] using hlisted
  exact List.mem_flatMap.mpr ⟨(room, hs), (Table.mem_iff_at?_eq_some tidy.rooms room hs).mpr hroom,
    List.mem_map_of_mem hmem⟩

theorem Tidy.represents (tidy : r.Tidy) {held : String → String → η → Prop}
    (finds : ∀ room subscriber f, r.get? room subscriber = some f ↔ held room subscriber f) :
    r.Represents held where
  finds := finds
  nodup := nodup_snapshot tidy.keyed
  lists room subscriber f := (mem_snapshot_iff tidy.keyed room subscriber f).trans
    (finds room subscriber f)
  counts room := by
    simp only [← finds]
    exact (Table.ncard_at? (tidy.keyed room)).symm
  countsRooms := by
    simp only [← finds, ← tidy.kept_iff]
    exact (Table.ncard_at? tidy.rooms).symm
  filled entry hentry := tidy.filled ((Table.mem_iff_at?_eq_some tidy.rooms _ _).mp hentry)
  finite := by
    simp only [← finds]
    exact tidy.finite

end Registry

end DiceRooms
