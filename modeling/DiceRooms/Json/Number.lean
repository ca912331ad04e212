import DiceRooms.Json.Fault
import DiceRooms.Text.Ascii

/-!
Numbers of a JSON document. A literal without fraction and exponent that fits is
read exactly. Any other is approximated: its first digits, as many as fit into 64
bits, are scaled by one power of ten, which need not give the nearest double.
-/
namespace DiceRooms.Json

open Ascii

inductive Number
  | natural (n : UInt64)
  | negative (n : Int)
  /-- A double, by its bits. -/
  | double (bits : UInt64)
deriving DecidableEq

/-- Takes digits as long as the value stays below `2 ^ 64`. -/
def gather (acc : Nat) : Bytes → Nat × Bytes
  | [] => (acc, [])
  | b :: s =>
    if isDigit b ∧ 10 * acc + digitValue b < UInt64.size then
      gather (10 * acc + digitValue b) s
    else (acc, b :: s)

def powerOfTen (e : Nat) : Float := Float.ofScientific 1 false e

/-- The greatest power of ten that is a double. -/
def greatestPower : Nat := 308

def scaleUp (f : Float) (e : Nat) : Except Fault Float :=
  if e ≤ greatestPower then
    let f := f * powerOfTen e
    if f.isInf then .error .numberOutOfRange else .ok f
  else if f == 0 then .ok f
  else .error .numberOutOfRange

def scaleDown (f : Float) (e : Nat) : Float :=
  if e ≤ greatestPower then f / powerOfTen e
  else if f == 0 then f
  else scaleDown (f / powerOfTen greatestPower) (e - greatestPower)
termination_by e
decreasing_by simp only [greatestPower] at *; omega

def approximate (negative : Bool) (significand : Nat) (e : Int) : Except Fault Number := do
  let f := (UInt64.ofNat significand).toFloat
  let f ← if 0 ≤ e then scaleUp f e.toNat else .ok (scaleDown f (-e).toNat)
  .ok (.double (if negative then -f else f).toBits)

def integer (negative : Bool) (n : Nat) : Number :=
  if ¬ negative then .natural (UInt64.ofNat n)
  else if n = 0 ∨ 0x8000000000000000 < n then .double (-(UInt64.ofNat n).toFloat).toBits
  else .negative (-n)

def startsWithDigit : Bytes → Bool
  | [] => false
  | b :: _ => isDigit b

/-- An end of the document where a digit is due differs from another octet there. -/
def digitDue (s : Bytes) : Fault :=
  if s = [] then .endInValue else .invalidNumber

/-- What follows the `e`: the exponent added to the one so far. -/
def readExponent (e : Int) (s : Bytes) : Except Fault (Int × Bytes) :=
  let (negative, s) :=
    match s with
    | [] => (false, [])
    | b :: r => if b = plus then (false, r) else if b = minus then (true, r) else (false, b :: r)
  if ¬ startsWithDigit s then .error (digitDue s)
  else
    let n := digitsValue (s.takeWhile isDigit)
    .ok (if negative then e - n else e + n, s.dropWhile isDigit)

def isExponentMark (b : UInt8) : Bool := b == 0x65 || b == 0x45

/-- The end of a literal that is no integer: an exponent may follow. -/
def readScaled (negative : Bool) (significand : Nat) (e : Int) (s : Bytes) :
    Except Fault (Number × Bytes) := do
  let (e, s) ←
    match s with
    | b :: r => if isExponentMark b then readExponent e r else .ok (e, s)
    | [] => .ok (e, s)
  let n ← approximate negative significand e
  .ok (n, s)

/-- What follows the point. Digits that no longer fit are passed over. -/
def readDecimals (negative : Bool) (significand : Nat) (e : Int) (s : Bytes) :
    Except Fault (Number × Bytes) :=
  if ¬ startsWithDigit s then .error (digitDue s)
  else
    let (significand, rest) := gather significand s
    readScaled negative significand (e - (s.length - rest.length : Nat)) (rest.dropWhile isDigit)

/-- What follows the digits before the point; `skipped` of them did not fit. -/
def readTail (negative : Bool) (significand skipped : Nat) (s : Bytes) :
    Except Fault (Number × Bytes) :=
  match s with
  | b :: r =>
    if b = point then readDecimals negative significand skipped r
    else if isExponentMark b ∨ skipped ≠ 0 then readScaled negative significand skipped s
    else .ok (integer negative significand, s)
  | [] =>
    if skipped ≠ 0 then readScaled negative significand skipped s
    else .ok (integer negative significand, s)

/-- The digits of a number; a zero in front stands alone. -/
def readDigits (negative : Bool) (s : Bytes) : Except Fault (Number × Bytes) :=
  match s with
  | [] => .error .endInValue
  | b :: r =>
    if b = zero then
      if startsWithDigit r then .error .invalidNumber else readTail negative 0 0 r
    else if isDigit b then
      let (significand, rest) := gather 0 s
      readTail negative significand (rest.takeWhile isDigit).length (rest.dropWhile isDigit)
    else .error .invalidNumber

/-- Reads from a sign or a digit on. -/
def readNumber : Bytes → Except Fault (Number × Bytes)
  | [] => .error .endInValue
  | b :: s => if b = minus then readDigits true s else readDigits false (b :: s)

def skipSign : Bytes → Bytes
  | [] => []
  | b :: s => if b = plus ∨ b = minus then s else b :: s

def skipSomeDigits (s : Bytes) : Except Fault Bytes :=
  if startsWithDigit s then .ok (s.dropWhile isDigit) else .error .invalidNumber

def skipExponent : Bytes → Except Fault Bytes
  | [] => .ok []
  | b :: s => if isExponentMark b then skipSomeDigits (skipSign s) else .ok (b :: s)

def skipFraction : Bytes → Except Fault Bytes
  | [] => .ok []
  | b :: s =>
    if b = point then do
      let s ← skipSomeDigits s
      skipExponent s
    else skipExponent (b :: s)

def skipInteger : Bytes → Except Fault Bytes
  | [] => .error .invalidNumber
  | b :: s =>
    if b = zero then
      if startsWithDigit s then .error .invalidNumber else .ok s
    else if isDigit b then .ok (s.dropWhile isDigit)
    else .error .invalidNumber

/-- Passes over a number of any size, from a sign or a digit on. -/
def skipNumber (s : Bytes) : Except Fault Bytes := do
  let s ← skipInteger (match s with | b :: r => if b = minus then r else s | [] => [])
  skipFraction s

end DiceRooms.Json
