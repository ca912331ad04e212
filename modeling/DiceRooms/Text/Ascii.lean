import DiceRooms.Text.Utf8

/-!
The ASCII octets that the text formats are written with, and decimal digits.
`decimal` writes a number without leading zeros, `fixedDecimal` its last digits
in a field of given width; `digitsValue` reads either back.
-/
namespace DiceRooms.Ascii

abbrev quote : UInt8 := 0x22
abbrev backslash : UInt8 := 0x5c
abbrev slash : UInt8 := 0x2f
abbrev comma : UInt8 := 0x2c
abbrev colon : UInt8 := 0x3a
abbrev openBracket : UInt8 := 0x5b
abbrev closeBracket : UInt8 := 0x5d
abbrev openBrace : UInt8 := 0x7b
abbrev closeBrace : UInt8 := 0x7d
abbrev minus : UInt8 := 0x2d
abbrev plus : UInt8 := 0x2b
abbrev point : UInt8 := 0x2e
abbrev zero : UInt8 := 0x30

def isDigit (b : UInt8) : Bool := 0x30 ≤ b && b ≤ 0x39

def digitValue (b : UInt8) : Nat := b.toNat - 0x30

def digit (n : Nat) : UInt8 := UInt8.ofNat (0x30 + n % 10)

def digitsValue (ds : Bytes) : Nat :=
  ds.foldl (fun n d => 10 * n + digitValue d) 0

def decimal (n : Nat) : Bytes :=
  if n < 10 then [digit n] else decimal (n / 10) ++ [digit n]

def fixedDecimal : Nat → Nat → Bytes
  | 0, _ => []
  | width + 1, n => fixedDecimal width (n / 10) ++ [digit n]

theorem length_fixedDecimal (width n : Nat) : (fixedDecimal width n).length = width := by
  induction width generalizing n with
  | zero => rfl
  | succ w ih => simp [fixedDecimal, ih]

theorem digit_toNat (n : Nat) : (digit n).toNat = 0x30 + n % 10 := by
  have h : 0x30 + n % 10 < 256 := by omega
  simp only [digit, UInt8.toNat_ofNat']
  omega

theorem isDigit_digit (n : Nat) : isDigit (digit n) = true := by
  have h := digit_toNat n
  simp only [isDigit, Bool.and_eq_true, decide_eq_true_eq, UInt8.le_iff_toNat_le, h]
  exact ⟨by simp, by simp; omega⟩

theorem digitValue_digit (n : Nat) : digitValue (digit n) = n % 10 := by
  simp [digitValue, digit_toNat]

theorem digitsValue_append_digit (ds : Bytes) (n : Nat) :
    digitsValue (ds ++ [digit n]) = 10 * digitsValue ds + n % 10 := by
  simp [digitsValue, digitValue_digit]

theorem digitsValue_decimal (n : Nat) : digitsValue (decimal n) = n := by
  induction n using Nat.strongRecOn with
  | _ n ih =>
    rw [decimal]
    split
    · simp [digitsValue, digitValue_digit]
      omega
    · rw [digitsValue_append_digit, ih _ (by omega)]
      omega

end DiceRooms.Ascii
