/-!
The proleptic Gregorian calendar. `Date.toDays` counts the days from 1970-01-01
and `Date.ofDays` finds the date of a day count through the cycles of 400, 100
and 4 years.
-/
namespace DiceRooms

structure Date where
  year : Int
  month : Nat
  day : Nat
deriving DecidableEq

namespace Date

def isLeapYear (year : Int) : Bool :=
  year % 4 == 0 && (year % 100 != 0 || year % 400 == 0)

def monthLengths (leap : Bool) : List Nat :=
  [31, if leap then 29 else 28, 31, 30, 31, 30, 31, 31, 30, 31, 30, 31]

def Exists (d : Date) : Prop :=
  1 ≤ d.month ∧ d.month ≤ 12 ∧ 1 ≤ d.day ∧
    d.day ≤ (monthLengths (isLeapYear d.year)).getD (d.month - 1) 0

instance (d : Date) : Decidable d.Exists :=
  inferInstanceAs (Decidable (_ ∧ _ ∧ _ ∧ _))

/-- Days from 0001-01-01 to the first of January of the year. -/
def daysBeforeYear (year : Int) : Int :=
  365 * (year - 1) + (year - 1) / 4 - (year - 1) / 100 + (year - 1) / 400

def sumDays (lens : List Nat) : Nat := lens.foldr (· + ·) 0

/-- Days from the first of January to the first of the month. -/
def daysBeforeMonth (leap : Bool) (month : Nat) : Nat :=
  sumDays ((monthLengths leap).take (month - 1))

/-- Days from 0001-01-01 to 1970-01-01. -/
def epochDay : Int := 719162

def toDays (d : Date) : Int :=
  daysBeforeYear d.year + daysBeforeMonth (isLeapYear d.year) d.month + d.day - 1 - epochDay

/-- The month, counted from `month`, and the day, counted from one, of a day
counted from zero over months of the given lengths. -/
def ofDayOfMonths : List Nat → Nat → Nat → Nat × Nat
  | [], month, n => (month, n + 1)
  | [_], month, n => (month, n + 1)
  | len :: lens, month, n =>
    if n < len then (month, n + 1) else ofDayOfMonths lens (month + 1) (n - len)

/-- The year of a day counted from 0001-01-01, and the day counted from zero
within that year. The last day of a cycle belongs to its last year. -/
def yearOfDay (n : Int) : Int × Int :=
  let cycle400 := n / 146097
  let r400 := n % 146097
  let cycle100 := min 3 (r400 / 36524)
  let r100 := r400 - 36524 * cycle100
  let cycle4 := r100 / 1461
  let r4 := r100 % 1461
  let cycle1 := min 3 (r4 / 365)
  (400 * cycle400 + 100 * cycle100 + 4 * cycle4 + cycle1 + 1, r4 - 365 * cycle1)

def ofDays (days : Int) : Date :=
  let (year, day) := yearOfDay (days + epochDay)
  let (month, day) := ofDayOfMonths (monthLengths (isLeapYear year)) 1 day.toNat
  ⟨year, month, day⟩

end Date

end DiceRooms
