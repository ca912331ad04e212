import DiceRooms.Text.Ascii
import Mathlib.Algebra.Ring.Nat
import Mathlib.Data.List.Induction

/-!
ASCII octets as text, and digits as they stand in a text: what the decimal forms of a
number consist of, and that a run of digits is exactly what a reader of digits takes
from a longer text.
-/
namespace DiceRooms

theorem utf8_ofList (cs : List Char) :
    utf8 (String.ofList cs) = cs.flatMap String.utf8EncodeChar := by
  rw [utf8, String.toUTF8_eq_toByteArray, String.toByteArray_ofList]
  simp [List.utf8Encode]

/-- An ASCII character is encoded by its own number. -/
theorem utf8EncodeChar_ascii : ∀ n : Fin 128,
    String.utf8EncodeChar (Char.ofNat n.val) = [UInt8.ofNat n.val] := by
  decide

def IsAscii (s : Bytes) : Prop := ∀ b ∈ s, b < 0x80

@[simp] theorem isAscii_nil : IsAscii [] := nofun

@[simp] theorem isAscii_cons {b : UInt8} {s : Bytes} :
    IsAscii (b :: s) ↔ b < 0x80 ∧ IsAscii s :=
  List.forall_mem_cons

@[simp] theorem isAscii_append {s t : Bytes} : IsAscii (s ++ t) ↔ IsAscii s ∧ IsAscii t :=
  List.forall_mem_append

/-- ASCII octets are the encoding of a text. -/
theorem exists_utf8_eq {s : Bytes} (h : IsAscii s) : ∃ text, utf8 text = s := by
  refine ⟨String.ofList (s.map fun b => Char.ofNat b.toNat), ?_⟩
  rw [utf8_ofList, List.flatMap_map]
  induction s with
  | nil => rfl
  | cons b s ih =>
      obtain ⟨hb, hs⟩ := isAscii_cons.mp h
      have hb : b.toNat < 128 := UInt8.lt_iff_toNat_lt.mp hb
      have hchar := utf8EncodeChar_ascii ⟨b.toNat, hb⟩
      simp only [UInt8.ofNat_toNat] at hchar
      rw [List.flatMap_cons, hchar, ih hs]
      rfl

namespace Ascii

theorem isAscii_of_isDigit {b : UInt8} (h : isDigit b = true) : b < 0x80 := by
  simp only [isDigit, Bool.and_eq_true, decide_eq_true_eq, UInt8.le_iff_toNat_le] at h
  rw [UInt8.lt_iff_toNat_lt]
  have : (0x39 : UInt8).toNat = 57 := rfl
  have : (0x80 : UInt8).toNat = 128 := rfl
  omega

theorem isDigit_fixedDecimal (width n : Nat) {b : UInt8} (h : b ∈ fixedDecimal width n) :
    isDigit b = true := by
  induction width generalizing n with
  | zero => cases h
  | succ width ih =>
      rw [fixedDecimal, List.mem_append, List.mem_singleton] at h
      cases h with
      | inl h => exact ih (n / 10) h
      | inr h => rw [h]; exact isDigit_digit n

theorem isDigit_decimal (n : Nat) {b : UInt8} (h : b ∈ decimal n) : isDigit b = true := by
  induction n using Nat.strongRecOn with
  | _ n ih =>
      rw [decimal] at h
      split at h
      · rw [List.mem_singleton] at h
        rw [h]
        exact isDigit_digit n
      · rw [List.mem_append, List.mem_singleton] at h
        cases h with
        | inl h => exact ih (n / 10) (by omega) h
        | inr h => rw [h]; exact isDigit_digit n

@[simp] theorem isAscii_fixedDecimal (width n : Nat) : IsAscii (fixedDecimal width n) :=
  fun _ h => isAscii_of_isDigit (isDigit_fixedDecimal width n h)

@[simp] theorem isAscii_decimal (n : Nat) : IsAscii (decimal n) :=
  fun _ h => isAscii_of_isDigit (isDigit_decimal n h)

theorem decimal_ne_nil (n : Nat) : decimal n ≠ [] := by
  rw [decimal]
  split <;> simp

/-- No digit stands at the head of what follows. -/
def NoDigitNext (rest : Bytes) : Prop := ∀ b ∈ rest.head?, isDigit b = false

/-- The last digits of a number, as many as there are places. -/
theorem digitsValue_fixedDecimal (width n : Nat) :
    digitsValue (fixedDecimal width n) = n % 10 ^ width := by
  induction width generalizing n with
  | zero => simp [fixedDecimal, digitsValue, Nat.mod_one]
  | succ w ih =>
      rw [fixedDecimal, digitsValue_append_digit, ih]
      have h := Nat.mod_mul (x := n) (a := 10) (b := 10 ^ w)
      rw [Nat.pow_succ, Nat.mul_comm (10 ^ w) 10, h]
      omega

theorem digitValue_of_isDigit {b : UInt8} (h : isDigit b = true) :
    digitValue b ≤ 9 ∧ b.toNat = 0x30 + digitValue b := by
  simp only [isDigit, Bool.and_eq_true, decide_eq_true_eq, UInt8.le_iff_toNat_le] at h
  have hfirst : (0x30 : UInt8).toNat = 48 := rfl
  have hlast : (0x39 : UInt8).toNat = 57 := rfl
  rw [digitValue]
  omega

theorem digitsValue_concat (ds : Bytes) (d : UInt8) :
    digitsValue (ds ++ [d]) = 10 * digitsValue ds + digitValue d := by
  simp [digitsValue]

theorem digitsValue_lt {ds : Bytes} (h : ∀ b ∈ ds, isDigit b = true) :
    digitsValue ds < 10 ^ ds.length := by
  induction ds using List.reverseRecOn with
  | nil => decide
  | append_singleton ds d ih =>
      obtain ⟨hds, hd⟩ := List.forall_mem_append.mp h
      have hd := (digitValue_of_isDigit (hd d List.mem_cons_self)).1
      have hlt := ih hds
      rw [digitsValue_concat, List.length_append, List.length_singleton, Nat.pow_succ]
      omega

theorem digitsValue_append_zeros (ds : Bytes) (k : Nat) :
    digitsValue (ds ++ List.replicate k zero) = digitsValue ds * 10 ^ k := by
  induction k with
  | zero => simp
  | succ k ih =>
      have hzero : digitValue zero = 0 := rfl
      rw [List.replicate_succ', ← List.append_assoc, digitsValue_concat, ih, hzero, Nat.pow_succ,
        Nat.add_zero, Nat.mul_comm, Nat.mul_assoc]

theorem digit_digitValue {b : UInt8} (h : isDigit b = true) (n : Nat) :
    digit (10 * n + digitValue b) = b := by
  obtain ⟨hle, hb⟩ := digitValue_of_isDigit h
  refine UInt8.toNat_inj.mp ?_
  rw [digit_toNat, hb]
  omega

/-- Digits are the number that they are read as, in a field of their own width. -/
theorem fixedDecimal_digitsValue {ds : Bytes} (h : ∀ b ∈ ds, isDigit b = true) :
    fixedDecimal ds.length (digitsValue ds) = ds := by
  induction ds using List.reverseRecOn with
  | nil => rfl
  | append_singleton ds d ih =>
      obtain ⟨hds, hd⟩ := List.forall_mem_append.mp h
      have hd := hd d List.mem_cons_self
      have hvalue : (10 * digitsValue ds + digitValue d) / 10 = digitsValue ds := by
        have := (digitValue_of_isDigit hd).1
        omega
      rw [digitsValue_concat, List.length_append, List.length_singleton, fixedDecimal, hvalue,
        ih hds, digit_digitValue hd]

theorem takeWhile_digits {ds rest : Bytes} (hds : ∀ b ∈ ds, isDigit b = true)
    (hrest : NoDigitNext rest) : (ds ++ rest).takeWhile isDigit = ds := by
  rw [List.takeWhile_append_of_pos hds]
  cases rest with
  | nil => simp
  | cons b rest =>
      have hb : isDigit b = false := hrest b rfl
      simp [hb]

theorem dropWhile_digits {ds rest : Bytes} (hds : ∀ b ∈ ds, isDigit b = true)
    (hrest : NoDigitNext rest) : (ds ++ rest).dropWhile isDigit = rest := by
  rw [List.dropWhile_append_of_pos hds]
  cases rest with
  | nil => rfl
  | cons b rest =>
      have hb : isDigit b = false := hrest b rfl
      simp [hb]

end Ascii

end DiceRooms
