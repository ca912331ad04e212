import DiceRooms.Text.Ascii
import DiceRooms.Time.Instant

/-!
Instants as RFC 3339 text. `write` puts an instant into UTC with a `Z`; `read`
accepts any offset below a day and any number of fraction digits, of which the
first nine count. Problems are found from left to right, but the ranges of hour,
minute and second are looked at only once the fraction has been read, and the
range of the offset only at the end of the text.
-/
namespace DiceRooms.Rfc3339

open Ascii

inductive Fault
  | tooShort
  | invalid
  | outOfRange
  | trailing
deriving DecidableEq

def Fault.message : Fault → String
  | .tooShort => "premature end of input"
  | .invalid => "input contains invalid characters"
  | .outOfRange => "input is out of range"
  | .trailing => "trailing input"

/-- Either always nine fraction digits, or the fewest of 0, 3, 6 and 9 that lose
nothing. -/
inductive Precision
  | nanoseconds
  | shortest
deriving DecidableEq

/-- Years outside 0 to 9999 carry a sign. -/
def writeYear (year : Int) : Bytes :=
  let n := year.natAbs
  let digits := if n < 10000 then fixedDecimal 4 n else decimal n
  if year < 0 then minus :: digits else if 9999 < year then plus :: digits else digits

def writeFraction (p : Precision) (nanos : Nat) : Bytes :=
  match p with
  | .nanoseconds => point :: fixedDecimal 9 nanos
  | .shortest =>
    if nanos = 0 then []
    else if nanos % 1000000 = 0 then point :: fixedDecimal 3 (nanos / 1000000)
    else if nanos % 1000 = 0 then point :: fixedDecimal 6 (nanos / 1000)
    else point :: fixedDecimal 9 nanos

def letterT : UInt8 := 0x54

def letterZ : UInt8 := 0x5a

def write (p : Precision) (t : Instant) : Bytes :=
  let d := t.date
  writeYear d.year ++ minus :: fixedDecimal 2 d.month ++ minus :: fixedDecimal 2 d.day ++
    letterT :: fixedDecimal 2 t.hour ++ colon :: fixedDecimal 2 t.minute ++
    colon :: fixedDecimal 2 t.second ++ writeFraction p t.fraction ++ [letterZ]

def readNumber (width : Nat) (s : Bytes) : Except Fault (Nat × Bytes) :=
  let ds := s.take width
  if ds.length = width ∧ ds.all isDigit then .ok (digitsValue ds, s.drop width)
  else .error .invalid

def readMark (marks : List UInt8) : Bytes → Except Fault Bytes
  | [] => .error .invalid
  | b :: rest => if b ∈ marks then .ok rest else .error .invalid

def readDate (s : Bytes) : Except Fault (Date × Bytes) := do
  let (year, s) ← readNumber 4 s
  let s ← readMark [minus] s
  let (month, s) ← readNumber 2 s
  let s ← readMark [minus] s
  let (day, s) ← readNumber 2 s
  let d : Date := ⟨year, month, day⟩
  if d.Exists then .ok (d, s) else .error .outOfRange

structure Clock where
  hour : Nat
  minute : Nat
  /-- Sixty in a leap second. -/
  second : Nat
deriving DecidableEq

def readClock (s : Bytes) : Except Fault (Clock × Bytes) := do
  let (hour, s) ← readNumber 2 s
  let s ← readMark [colon] s
  let (minute, s) ← readNumber 2 s
  let s ← readMark [colon] s
  let (second, s) ← readNumber 2 s
  .ok (⟨hour, minute, second⟩, s)

def Clock.InRange (c : Clock) : Prop :=
  c.hour ≤ 23 ∧ c.minute ≤ 59 ∧ c.second ≤ 60

instance (c : Clock) : Decidable c.InRange :=
  inferInstanceAs (Decidable (_ ∧ _ ∧ _))

/-- The nanoseconds told by fraction digits: those past the ninth do not count. -/
def fractionNanos (ds : Bytes) : Nat :=
  digitsValue (ds.take 9) * Nat.pow 10 (9 - ds.length)

def readFraction : Bytes → Except Fault (Nat × Bytes)
  | [] => .ok (0, [])
  | b :: rest =>
    if b = point then
      let ds := rest.takeWhile isDigit
      if ds = [] then .error (if rest = [] then .tooShort else .invalid)
      else .ok (fractionNanos ds, rest.dropWhile isDigit)
    else .ok (0, b :: rest)

/-- The sign of an offset; the minus sign proper, U+2212, is read like a hyphen. -/
def readSign : Bytes → Except Fault (Int × Bytes)
  | [] => .error .tooShort
  | 0xe2 :: 0x88 :: 0x92 :: rest => .ok (-1, rest)
  | b :: rest =>
    if b = plus then .ok (1, rest)
    else if b = minus then .ok (-1, rest)
    else .error .invalid

/-- The minutes of an offset; sixty and more are told apart from what is no number. -/
def readOffsetMinutes : Bytes → Except Fault (Nat × Bytes)
  | tens :: ones :: rest =>
    if isDigit tens && isDigit ones then
      if 6 ≤ digitValue tens then .error .outOfRange
      else .ok (digitsValue [tens, ones], rest)
    else .error .invalid
  | _ => .error .tooShort

/-- Minutes east of UTC. -/
def readOffset : Bytes → Except Fault (Int × Bytes)
  | [] => .error .tooShort
  | b :: rest =>
    if b = letterZ ∨ b = 0x7a then .ok (0, rest)
    else do
      let (sign, s) ← readSign (b :: rest)
      if s.length < 2 then throw .tooShort
      let (hours, s) ← readNumber 2 s
      if s = [] then throw .tooShort
      let s ← readMark [colon] s
      let (minutes, s) ← readOffsetMinutes s
      .ok (sign * (60 * hours + minutes : Nat), s)

def instantOf (d : Date) (c : Clock) (nanos : Nat) (offset : Int) : Option Instant :=
  Instant.ofParts?
    (86400 * d.toDays + 3600 * c.hour + 60 * c.minute + min c.second 59 - 60 * offset)
    (if c.second = 60 then nanos + 1000000000 else nanos)

def read (s : Bytes) : Except Fault Instant := do
  if s.length < 19 then throw .tooShort
  let (d, s) ← readDate s
  let s ← readMark [letterT, 0x74, 0x20] s
  let (c, s) ← readClock s
  let (nanos, s) ← readFraction s
  if ¬ c.InRange then throw .outOfRange
  let (offset, s) ← readOffset s
  if s ≠ [] then throw .trailing
  if 24 * 60 ≤ offset.natAbs then throw .outOfRange
  match instantOf d c nanos offset with
  | some t => .ok t
  | none => .error .outOfRange

end DiceRooms.Rfc3339
