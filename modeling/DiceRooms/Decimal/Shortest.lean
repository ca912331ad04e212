/-!
The shortest decimal that rounds to a binary floating-point number, and of the
shortest ones the nearest. A number `mantissa * 2 ^ exponent` is measured in
quarters of its last place, so that the halfway points to its neighbours are
whole.
-/
namespace DiceRooms

structure Decimal where
  digits : Nat
  exponent : Int
deriving DecidableEq

/-- A finite positive number and the reach of the values that round to it. -/
structure BinaryFloat where
  mantissa : Nat
  exponent : Int
  /-- The neighbour below is half as far away as the one above. -/
  atPowerOfTwo : Bool
deriving DecidableEq

namespace BinaryFloat

/-- The magnitude of an IEEE double, by its bits. -/
def ofBits (bits : UInt64) : BinaryFloat :=
  let fraction : Nat := bits.toNat % 0x10000000000000
  let biased : Nat := bits.toNat / 0x10000000000000 % 0x800
  if biased = 0 then ⟨fraction, -1074, false⟩
  else ⟨0x10000000000000 + fraction, (biased : Int) - 1075, fraction = 0 ∧ 1 < biased⟩

/-- Positive and negative powers as a fraction. -/
def ratio (base : Nat) (e : Int) : Nat × Nat :=
  (base.pow e.toNat, base.pow (-e).toNat)

/-- The least `k` from `start` with `num < den * 10 ^ k`. -/
def placesBefore (num den : Nat) : Nat → Nat → Nat
  | 0, k => k
  | fuel + 1, k => if num < den * Nat.pow 10 k then k else placesBefore num den fuel (k + 1)

/-- The least `j` with `den ≤ num * 10 ^ j`. -/
def placesAfter (num den : Nat) : Nat → Nat → Nat
  | 0, j => j
  | fuel + 1, j => if den ≤ num * Nat.pow 10 j then j else placesAfter num den fuel (j + 1)

/-- Doubles lie below `10 ^ 309` and, unless zero, above `10 ^ (-324)`. -/
def placeLimit : Nat := 400

/-- The `k` with `10 ^ (k - 1) ≤ value < 10 ^ k`. -/
def magnitude (x : BinaryFloat) : Int :=
  let (up, down) := ratio 2 x.exponent
  let num := x.mantissa * up
  if down ≤ num then placesBefore num down placeLimit 0
  else 1 - (placesAfter num down placeLimit 0 : Int)

/-- The nearest value to `x` on the grid of multiples of `10 ^ e`, among those of
its two neighbours there that round to `x`. -/
def onGrid (x : BinaryFloat) (e : Int) : Option Nat :=
  let (tenUp, tenDown) := ratio 10 e
  let (twoUp, twoDown) := ratio 2 (x.exponent - 2)
  let p := tenUp * twoDown
  let q := tenDown * twoUp
  let value := 4 * x.mantissa * q
  let low := (4 * x.mantissa - if x.atPowerOfTwo then 1 else 2) * q
  let high := (4 * x.mantissa + 2) * q
  let within (c : Nat) : Bool :=
    if x.mantissa % 2 = 0 then low ≤ c * p && c * p ≤ high
    else low < c * p && c * p < high
  let below := value / p
  let above := below + 1
  match within below, within above with
  | true, true =>
    let down := value - below * p
    let up := above * p - value
    some (if down < up || (down = up && below % 2 = 0) then below else above)
  | true, false => some below
  | false, true => some above
  | false, false => none

/-- A number of `n` digits below `10 ^ k`. What is rounded up to `10 ^ k` itself needs
one digit only. -/
def ofGrid (k : Int) (n c : Nat) : Decimal :=
  if c = Nat.pow 10 n then ⟨1, k⟩ else ⟨c, k - n⟩

/-- Tries `n` digits, then more; seventeen always suffice for a double. -/
def shortestFrom (x : BinaryFloat) (k : Int) : Nat → Nat → Decimal
  | 0, n => ofGrid k n ((x.onGrid (k - n)).getD 0)
  | fuel + 1, n =>
    match x.onGrid (k - n) with
    | some c => ofGrid k n c
    | none => shortestFrom x k fuel (n + 1)

def shortest (x : BinaryFloat) : Decimal :=
  if x.mantissa = 0 then ⟨0, 0⟩ else x.shortestFrom x.magnitude 16 1

end BinaryFloat

end DiceRooms
