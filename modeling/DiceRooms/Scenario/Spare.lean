import DiceRooms.Scenario.Script

/-!
What a script leaves unused: a time for its clock and a mark for the ids that are given
out. No step of the script tells either (`unusedTime_not_mem`, `length_lt_unusedMark`), so
what the clock and the services made is told apart from what the script did.
-/
namespace DiceRooms.Scenario

mutual

/-- An act with those of the handlers it registers. -/
def Act.acts : Act → List Act
  | .subscribe hub room subscriber plan => .subscribe hub room subscriber plan :: plan.acts
  | a => [a]

def Plan.acts : Plan → List Act
  | .idle => []
  | .scripted _ _ _ acts _ _ => actsOfAll acts

def actsOfAll : List Act → List Act
  | [] => []
  | a :: as => a.acts ++ actsOfAll as

end

def Act.time? : Act → Option Instant
  | .notify _ roll => some roll.createdAt
  | .subscribe .. | .unsubscribe .. => none

def Act.subscriber? : Act → Option String
  | .subscribe _ _ subscriber _ | .unsubscribe _ _ subscriber => some subscriber
  | .notify .. => none

namespace Step

/-- What a step does on hubs, itself or through its handler. -/
def acts : Step → List Act
  | subscribe hub room subscriber plan => (Act.subscribe hub room subscriber plan).acts
  | unsubscribe hub room subscriber => [.unsubscribe hub room subscriber]
  | notify hub raw => [.notify hub raw]
  | burst hub rolls => rolls.map (.notify hub)
  | watch _ _ _ plan => plan.acts
  | _ => []

/-- The times told by a step, be it in a message, and what they are in writing. -/
def times : Step → List Instant
  | publish _ payload =>
    match Wire.decode payload with
    | .ok r => [r.createdAt]
    | .error _ => []
  | s => (s.acts.filterMap Act.time?).flatMap fun t => [t, t.settled]

def subscribers (s : Step) : List String := s.acts.filterMap Act.subscriber?

end Step

structure Spare where
  now : Instant
  mark : String

namespace Spare

/-- Where the clock might stand, another time for every number. -/
def candidate (n : Nat) : Instant := ⟨2147483647 - n, 999999937, by decide⟩

/-- The first candidate that is not used. There is one more of them than of the times. -/
def unusedTime (used : List Instant) : Instant :=
  (((List.range (used.length + 1)).map candidate).find? (!used.contains ·)).getD .epoch

def longest (names : List String) : Nat :=
  names.foldr (fun name n => max name.length n) 0

/-- Longer than each of the names, so that none of them holds it. -/
def unusedMark (names : List String) : String :=
  .ofList (List.replicate (longest names + 1) '\x00')

def ofSteps (steps : List Step) : Spare :=
  ⟨unusedTime (steps.flatMap Step.times), unusedMark (steps.flatMap Step.subscribers)⟩

theorem candidate_ne {m n : Nat} (h : m ≠ n) : candidate m ≠ candidate n := by
  intro he
  have hs : (2147483647 - m : Int) = 2147483647 - n := congrArg Instant.secs he
  omega

theorem le_length_of_candidates {n start : Nat} {used : List Instant}
    (h : ∀ i < n, candidate (start + i) ∈ used) : n ≤ used.length := by
  induction n generalizing start used with
  | zero => exact Nat.zero_le _
  | succ n ih =>
    have hmem : candidate start ∈ used := h 0 (Nat.succ_pos n)
    have hrest : ∀ i < n, candidate (start + 1 + i) ∈ used.erase (candidate start) := by
      intro i hi
      refine (List.mem_erase_of_ne (candidate_ne (by omega))).2 ?_
      rw [Nat.add_assoc, Nat.add_comm 1 i]
      exact h (i + 1) (by omega)
    have hlen := ih hrest
    have hpos := List.length_pos_of_mem hmem
    rw [List.length_erase_of_mem hmem] at hlen
    omega

theorem unusedTime_not_mem (used : List Instant) : unusedTime used ∉ used := by
  rw [unusedTime]
  cases h : ((List.range (used.length + 1)).map candidate).find? (!used.contains ·) with
  | some t => simpa using List.find?_some h
  | none =>
    rw [List.find?_eq_none] at h
    have hall : ∀ i < used.length + 1, candidate (0 + i) ∈ used := by
      intro i hi
      simpa using h (candidate i) (List.mem_map_of_mem (List.mem_range.2 hi))
    have := le_length_of_candidates hall
    omega

theorem length_le_longest {names : List String} {name : String} (h : name ∈ names) :
    name.length ≤ longest names := by
  induction names with
  | nil => cases h
  | cons first rest ih =>
    rw [List.mem_cons] at h
    rcases h with rfl | h
    · exact Nat.le_max_left _ _
    · exact Nat.le_trans (ih h) (Nat.le_max_right _ _)

theorem length_lt_unusedMark {names : List String} {name : String} (h : name ∈ names) :
    name.length < (unusedMark names).length := by
  have := length_le_longest h
  simp only [unusedMark, String.length_ofList, List.length_replicate]
  omega

end Spare

end DiceRooms.Scenario
