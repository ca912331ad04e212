import DiceRooms.Json.Number
import DiceRooms.Proofs.Text.Ascii

/-!
Natural numbers of a document. The decimal form of a number below `2 ^ 64` is read back
as that number wherever the literal ends with it.
-/
namespace DiceRooms.Json

open Ascii

/-- The literal does not go on: no digit, point or exponent follows. -/
def LiteralEnds (rest : Bytes) : Prop :=
  ∀ b ∈ rest.head?, isDigit b = false ∧ b ≠ point ∧ isExponentMark b = false

theorem LiteralEnds.noDigitNext {rest : Bytes} (h : LiteralEnds rest) : NoDigitNext rest :=
  fun b hb => (h b hb).1

/-- The value of digits that stand behind others with value `acc`. -/
def valueBehind (acc : Nat) (ds : Bytes) : Nat :=
  ds.foldl (fun n d => 10 * n + digitValue d) acc

theorem le_valueBehind (acc : Nat) (ds : Bytes) : acc ≤ valueBehind acc ds := by
  induction ds generalizing acc with
  | nil => exact Nat.le_refl acc
  | cons d ds ih => exact Nat.le_trans (by omega) (ih (10 * acc + digitValue d))

theorem gather_digits {acc : Nat} {ds rest : Bytes} (hds : ∀ b ∈ ds, isDigit b = true)
    (hrest : NoDigitNext rest) (hfits : valueBehind acc ds < UInt64.size) :
    gather acc (ds ++ rest) = (valueBehind acc ds, rest) := by
  induction ds generalizing acc with
  | nil =>
      cases rest with
      | nil => rfl
      | cons b rest =>
          have hb : isDigit b = false := hrest b rfl
          simp [gather, valueBehind, hb]
  | cons d ds ih =>
      have hd : isDigit d = true := hds d List.mem_cons_self
      have hle := le_valueBehind (10 * acc + digitValue d) ds
      have hfits' : valueBehind (10 * acc + digitValue d) ds < UInt64.size := hfits
      rw [List.cons_append, gather, if_pos ⟨hd, by omega⟩]
      exact ih (fun b hb => hds b (List.mem_cons_of_mem _ hb)) hfits'

theorem valueBehind_decimal (n : Nat) : valueBehind 0 (decimal n) = n :=
  digitsValue_decimal n

/-- Only zero itself is written with a leading zero. -/
theorem decimal_eq_cons {n : Nat} (h : 0 < n) :
    ∃ b ds, decimal n = b :: ds ∧ b ≠ zero ∧ isDigit b = true := by
  induction n using Nat.strongRecOn with
  | _ n ih =>
      rw [decimal]
      split
      · next hlt =>
          refine ⟨digit n, [], rfl, ?_, isDigit_digit n⟩
          intro hzero
          have hvalue := digit_toNat n
          rw [hzero] at hvalue
          have : zero.toNat = 0x30 := rfl
          omega
      · next hge =>
          obtain ⟨b, ds, heq, hb, hdigit⟩ := ih (n / 10) (by omega) (by omega)
          exact ⟨b, ds ++ [digit n], by rw [heq]; rfl, hb, hdigit⟩

theorem readTail_literalEnds {rest : Bytes} (h : LiteralEnds rest) (n : Nat) :
    readTail false n 0 rest = .ok (.natural (UInt64.ofNat n), rest) := by
  cases rest with
  | nil => rfl
  | cons b rest =>
      obtain ⟨-, hpoint, hmark⟩ := h b rfl
      simp [readTail, hpoint, hmark, integer]

theorem minus_not_digit {b : UInt8} (h : isDigit b = true) : b ≠ minus := by
  rintro rfl
  exact absurd h (by decide)

theorem startsWithDigit_noDigitNext {rest : Bytes} (h : NoDigitNext rest) :
    startsWithDigit rest = false := by
  cases rest with
  | nil => rfl
  | cons b rest => exact h b rfl

theorem readDigits_zero {rest : Bytes} (h : LiteralEnds rest) :
    readDigits false (zero :: rest) = .ok (.natural (UInt64.ofNat 0), rest) := by
  have hstart := startsWithDigit_noDigitNext h.noDigitNext
  rw [readDigits, if_pos rfl, if_neg (by rw [hstart]; exact Bool.false_ne_true)]
  exact readTail_literalEnds h 0

theorem readDigits_of_gather {b : UInt8} {ds rest : Bytes} {n : Nat} (hb : b ≠ zero)
    (hdigit : isDigit b = true) (h : LiteralEnds rest)
    (hgather : gather 0 (b :: ds ++ rest) = (n, rest)) :
    readDigits false (b :: (ds ++ rest)) = .ok (.natural (UInt64.ofNat n), rest) := by
  have htake : ([] ++ rest).takeWhile isDigit = [] := takeWhile_digits nofun h.noDigitNext
  have hdrop : ([] ++ rest).dropWhile isDigit = rest := dropWhile_digits nofun h.noDigitNext
  rw [List.nil_append] at htake hdrop
  rw [readDigits, if_neg hb, if_pos hdigit, ← List.cons_append, hgather]
  simp only [htake, hdrop, List.length_nil]
  exact readTail_literalEnds h n

theorem readNumber_decimal {n : Nat} (hn : n < UInt64.size) {rest : Bytes}
    (h : LiteralEnds rest) :
    readNumber (decimal n ++ rest) = .ok (.natural (UInt64.ofNat n), rest) := by
  rcases Nat.eq_zero_or_pos n with rfl | hpos
  · have hzero : decimal 0 ++ rest = zero :: rest := by rw [decimal]; rfl
    rw [hzero, readNumber, if_neg (by decide)]
    exact readDigits_zero h
  · obtain ⟨b, ds, heq, hb, hdigit⟩ := decimal_eq_cons hpos
    have hfits : valueBehind 0 (decimal n) < UInt64.size := by rwa [valueBehind_decimal]
    have hgather : gather 0 (b :: ds ++ rest) = (n, rest) := by
      rw [← heq, gather_digits (fun _ => isDigit_decimal n) h.noDigitNext hfits,
        valueBehind_decimal]
    rw [heq, List.cons_append, readNumber, if_neg (minus_not_digit hdigit)]
    exact readDigits_of_gather hb hdigit h hgather
end DiceRooms.Json
