import DiceRooms.Scenario.Scheduler
import Mathlib.Data.List.Forall2

/-!
Rollers by what they do to a draft. One that only sets sides leaves the rest of the roll
alone; a random one takes a number for each die in turn from a source that keeps to the range
it is asked for. The entropy of the scenarios is such a source.
-/
namespace DiceRooms

/-- Whoever throws the dice of a draft gives back the roll, or fails. -/
abbrev Throw := Roll → Except DiceError Roll

def Throw.SetsSides (throw : Throw) : Prop :=
  ∀ r r', throw r = .ok r' → r' = { r with dice := r'.dice } ∧
    (r'.dice.map fun d => (d.id, d.type)) = r.dice.map fun d => (d.id, d.type)

theorem Throw.SetsSides.types {throw : Throw} (sets : throw.SetsSides) {r r' : Roll}
    (throws : throw r = .ok r') : r'.dice.map Die.type = r.dice.map Die.type := by
  have h := congrArg (List.map Prod.snd) (sets r r' throws).2
  rwa [List.map_map, List.map_map] at h

/-! Dice that have been thrown. -/

/-- The die has come to lie on one of its sides. -/
def Die.Lies (d : Die) : Prop := 1 ≤ d.side.toNat ∧ d.side.toNat ≤ d.type.sides

theorem DieType.sides_le (t : DieType) : t.sides ≤ 20 := by
  cases t <;> decide

theorem Roll.length_le_total {r : Roll} (lies : ∀ d ∈ r.dice, d.Lies) :
    r.dice.length ≤ r.total ∧ r.total ≤ 20 * r.dice.length := by
  rw [Roll.total]
  generalize r.dice = dice at lies
  induction dice with
  | nil => exact ⟨Nat.le_refl 0, Nat.le_refl 0⟩
  | cons d dice ih =>
      obtain ⟨hd, hdice⟩ := List.forall_mem_cons.mp lies
      have hsides := d.type.sides_le
      have := ih hdice
      have hlies : 1 ≤ d.side.toNat ∧ d.side.toNat ≤ d.type.sides := hd
      simp only [List.foldr_cons, List.length_cons]
      omega

/-! Random numbers. -/

/-- Asked for a number from one to another, the source answers with one of these. -/
structure Source (σ : Type) where
  draw : σ → UInt64 → UInt64 → UInt64 × σ
  inRange : ∀ g low high, low ≤ high → low ≤ (draw g low high).1 ∧ (draw g low high).1 ≤ high

namespace Source

variable {σ : Type} (source : Source σ)

/-- Every die gets a number of its own, from one to as many sides as it has. -/
def throwAll : σ → List Die → List Die × σ
  | g, [] => ([], g)
  | g, d :: dice =>
    let (side, g) := source.draw g 1 (UInt64.ofNat d.type.sides)
    let (rolled, g) := throwAll g dice
    ({ d with side } :: rolled, g)

def throw (g : σ) : Throw := fun r => .ok { r with dice := (source.throwAll g r.dice).1 }

theorem draw_sides (g : σ) (t : DieType) :
    1 ≤ (source.draw g 1 (UInt64.ofNat t.sides)).1.toNat ∧
      (source.draw g 1 (UInt64.ofNat t.sides)).1.toNat ≤ t.sides := by
  have hsides : (UInt64.ofNat t.sides).toNat = t.sides := by cases t <;> rfl
  have h := source.inRange g 1 (UInt64.ofNat t.sides) (by cases t <;> decide)
  rw [UInt64.le_iff_toNat_le, UInt64.le_iff_toNat_le, hsides] at h
  exact h

theorem lies_throwAll (g : σ) (dice : List Die) : ∀ d ∈ (source.throwAll g dice).1, d.Lies := by
  induction dice generalizing g with
  | nil => exact List.forall_mem_nil _
  | cons d dice ih => exact List.forall_mem_cons.mpr ⟨source.draw_sides g d.type, ih _⟩

theorem map_throwAll (g : σ) (dice : List Die) :
    ((source.throwAll g dice).1.map fun d => (d.id, d.type)) =
      dice.map fun d => (d.id, d.type) := by
  induction dice generalizing g with
  | nil => rfl
  | cons d dice ih => exact congrArg ((d.id, d.type) :: ·) (ih _)

theorem length_throwAll (g : σ) (dice : List Die) :
    (source.throwAll g dice).1.length = dice.length := by
  simpa using congrArg List.length (source.map_throwAll g dice)

/-- The sum of the sides is bounded by the number of dice from both sides. -/
theorem total_throw (g : σ) {r r' : Roll} (throws : source.throw g r = .ok r') :
    r.dice.length ≤ r'.total ∧ r'.total ≤ 20 * r.dice.length := by
  cases throws
  have hbounds := Roll.length_le_total (r := { r with dice := (source.throwAll g r.dice).1 })
    (source.lies_throwAll g r.dice)
  simpa only [length_throwAll] using hbounds

theorem setsSides_throw (g : σ) : (source.throw g).SetsSides := by
  rintro r r' ⟨⟩
  exact ⟨rfl, source.map_throwAll g r.dice⟩

end Source

/-! The entropy of the scenarios. -/

namespace Entropy

/-- A number from the range, if it is not empty. -/
def drawFrom (e : Entropy) (low high : UInt64) : UInt64 × Entropy :=
  let drawn := e.below (high.toNat - low.toNat + 1)
  (UInt64.ofNat (low.toNat + drawn.1), drawn.2)

theorem inRange_drawFrom (e : Entropy) {low high : UInt64} (hrange : low ≤ high) :
    low ≤ (e.drawFrom low high).1 ∧ (e.drawFrom low high).1 ≤ high := by
  have hbelow : (e.below (high.toNat - low.toNat + 1)).1 < high.toNat - low.toNat + 1 :=
    e.below_lt (Nat.zero_lt_succ _)
  rw [drawFrom]
  generalize e.below (high.toNat - low.toNat + 1) = drawn at hbelow
  have hhigh := high.toNat_lt
  rw [UInt64.le_iff_toNat_le] at hrange
  have hvalue : (UInt64.ofNat (low.toNat + drawn.1)).toNat = low.toNat + drawn.1 :=
    UInt64.toNat_ofNat_of_lt' (by simp only [UInt64.size]; omega)
  simp only [UInt64.le_iff_toNat_le, hvalue]
  omega

def source : Source Entropy := ⟨drawFrom, fun e _ _ hrange => e.inRange_drawFrom hrange⟩

end Entropy

theorem Roller.rollRandom_eq (e : Entropy) (dice : List Die) :
    rollRandom e dice = Entropy.source.throwAll e dice := by
  induction dice generalizing e with
  | nil => rfl
  | cons d dice ih =>
      have hdraw : Entropy.source.draw e 1 (UInt64.ofNat d.type.sides) =
          (UInt64.ofNat ((e.below d.type.sides).1 + 1), (e.below d.type.sides).2) := by
        cases d.type <;> simp [Entropy.source, Entropy.drawFrom, Nat.add_comm, DieType.sides]
      simp only [rollRandom, Source.throwAll, hdraw, ih]

theorem throwWith_random (e : Entropy) :
    Scenario.Play.throwWith (.random e) = Entropy.source.throw e := by
  funext r
  simp only [Scenario.Play.throwWith, Roller.roll, Roller.rollRandom_eq, Source.throw]

end DiceRooms
