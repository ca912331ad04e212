import DiceRooms.Json.Text
import DiceRooms.Json.Writer
import DiceRooms.Proofs.Except

/-!
Strings of a document. What the writer makes of an octet, escaped or not, the reader
resolves to that octet, so every text is read back from its written form, whatever
follows it.
-/
namespace DiceRooms.Json

open Ascii

theorem unescape?_shortEscape? {b c : UInt8} (h : shortEscape? b = some c) :
    unescape? c = some b := by
  rw [shortEscape?] at h
  split at h
  · next hb => cases h; rw [hb]; rfl
  · split at h
    · next hb => cases h; rw [hb]; rfl
    · split at h
      · next hb => cases h; rw [hb]; rfl
      · split at h
        · next hb => cases h; rw [hb]; rfl
        · split at h
          · next hb => cases h; rw [hb]; rfl
          · split at h
            · next hb => cases h; rw [hb]; rfl
            · split at h
              · next hb => cases h; rw [hb]; rfl
              · cases h

/-- An octet without a short escape is no quote and no backslash. -/
theorem plain_of_shortEscape? {b : UInt8} (h : shortEscape? b = none) :
    b ≠ quote ∧ b ≠ backslash := by
  constructor
  · rintro rfl; cases h
  · rintro rfl; cases h

/-- The four hex digits of a control octet, and the octet that they stand for. -/
theorem hexUnit?_control : ∀ n : Fin 32,
    hexUnit? zero zero (hexDigit (n.val / 16)) (hexDigit (n.val % 16)) = some n.val ∧
      isTrailing n.val = false ∧ isLeading n.val = false ∧
      encodeScalar n.val = [UInt8.ofNat n.val] := by
  decide

/-! One equation for every way in which a string goes on. -/

theorem readOctets_quote (s : Bytes) : readOctets (quote :: s) = .ok ([], s) := by
  rw [readOctets.eq_def]
  rfl

theorem readOctets_plain {b : UInt8} (hquote : b ≠ quote) (hhigh : ¬ b < 0x20)
    (hbackslash : b ≠ backslash) (s : Bytes) :
    readOctets (b :: s) = (readOctets s).map fun p => (b :: p.1, p.2) := by
  rw [readOctets.eq_def]
  simp only [if_neg hquote, if_neg hhigh, if_pos hbackslash]

theorem readOctets_short {e c : UInt8} (h : unescape? e = some c) (s : Bytes) :
    readOctets (backslash :: e :: s) = (readOctets s).map fun p => (c :: p.1, p.2) := by
  rw [readOctets.eq_def]
  simp only [h]
  rfl

theorem readOctets_unit {h₁ h₂ h₃ h₄ : UInt8} {unit : Nat}
    (h : hexUnit? h₁ h₂ h₃ h₄ = some unit) (htrailing : isTrailing unit = false)
    (hleading : isLeading unit = false) (s : Bytes) :
    readOctets (backslash :: letterU :: h₁ :: h₂ :: h₃ :: h₄ :: s) =
      (readOctets s).map fun p => (encodeScalar unit ++ p.1, p.2) := by
  have hu : unescape? letterU = none := rfl
  rw [readOctets.eq_def]
  simp [hu, h, htrailing, hleading]
  rfl

theorem readOctets_escape (b : UInt8) (s : Bytes) :
    readOctets (escape b ++ s) = (readOctets s).map fun p => (b :: p.1, p.2) := by
  rw [escape]
  split
  · next c hc => exact readOctets_short (unescape?_shortEscape? hc) s
  · next hc =>
      obtain ⟨hquote, hbackslash⟩ := plain_of_shortEscape? hc
      split
      · next hlow =>
          have hn : b.toNat < 32 := by simpa [UInt8.lt_iff_toNat_lt] using hlow
          obtain ⟨hhex, htrail, hlead, hscalar⟩ := hexUnit?_control ⟨b.toNat, hn⟩
          simp only [UInt8.ofNat_toNat] at hscalar
          have hread := readOctets_unit hhex htrail hlead s
          rwa [hscalar] at hread
      · next hhigh => exact readOctets_plain hquote hhigh hbackslash s

theorem readOctets_written (b rest : Bytes) :
    readOctets (b.flatMap escape ++ quote :: rest) = .ok (b, rest) := by
  induction b with
  | nil => exact readOctets_quote rest
  | cons b bs ih =>
      rw [List.flatMap_cons, List.append_assoc, readOctets_escape, ih]
      rfl

theorem writeText_eq_cons (s : String) (rest : Bytes) :
    writeText s ++ rest = quote :: ((utf8 s).flatMap escape ++ quote :: rest) := by
  simp [writeText, writeOctets]

theorem readText_written (s : String) (rest : Bytes) :
    readText ((utf8 s).flatMap escape ++ quote :: rest) = .ok (s, rest) := by
  simp only [readText, readOctets_written, ofUtf8?_utf8]

end DiceRooms.Json
