/-!
The six physical dice and the identifiers by which they travel.
-/
namespace DiceRooms

inductive DieType
  | d4 | d6 | d8 | d10 | d12 | d20
deriving DecidableEq

structure UnknownDieType where
  id : String
deriving DecidableEq, Inhabited

def UnknownDieType.message (e : UnknownDieType) : String :=
  e.id ++ " die type is not valid"

namespace DieType

/-- Smallest first. -/
def all : List DieType := [d4, d6, d8, d10, d12, d20]

def id : DieType → String
  | d4 => "d4"
  | d6 => "d6"
  | d8 => "d8"
  | d10 => "d10"
  | d12 => "d12"
  | d20 => "d20"

def name : DieType → String
  | d4 => "D4"
  | d6 => "D6"
  | d8 => "D8"
  | d10 => "D10"
  | d12 => "D12"
  | d20 => "D20"

def sides : DieType → Nat
  | d4 => 4
  | d6 => 6
  | d8 => 8
  | d10 => 10
  | d12 => 12
  | d20 => 20

def ofId (s : String) : Except UnknownDieType DieType :=
  match all.find? (·.id == s) with
  | some t => .ok t
  | none => .error ⟨s⟩

theorem mem_all (t : DieType) : t ∈ all := by
  cases t <;> simp [all]

theorem ofId_id (t : DieType) : ofId t.id = .ok t := by
  cases t <;> rfl

theorem id_of_ofId {s : String} {t : DieType} (h : ofId s = .ok t) : t.id = s := by
  rw [ofId] at h
  split at h
  · next u hu =>
    obtain rfl := Except.ok.inj h
    simpa using List.find?_some hu
  · contradiction

theorem ofId_eq_ok_iff {s : String} {t : DieType} : ofId s = .ok t ↔ s = t.id :=
  ⟨fun h => (id_of_ofId h).symm, fun h => h ▸ ofId_id t⟩

theorem error_of_ofId {s : String} {e : UnknownDieType} (h : ofId s = .error e) : e = ⟨s⟩ := by
  rw [ofId] at h
  split at h
  · contradiction
  · exact (Except.error.inj h).symm

end DieType

end DiceRooms
