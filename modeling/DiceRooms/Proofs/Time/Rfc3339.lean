import DiceRooms.Proofs.Except
import DiceRooms.Proofs.Text.Ascii
import DiceRooms.Proofs.Time.Calendar
import DiceRooms.Time.Rfc3339

/-!
Written times read back. An instant whose year has four digits and no sign is read back
exactly, leap seconds and every fraction included, in either precision, and in any zone
that its text is given; only a leap second within a minute is read as the second after it,
which has the same text. Any other year is written with a sign, and such a text is refused.
-/
namespace DiceRooms

namespace Date

theorem getD_monthLengths_le (leap : Bool) (k : Nat) : (monthLengths leap).getD k 0 ≤ 31 := by
  match k with
  | 0 | 2 | 3 | 4 | 5 | 6 | 7 | 8 | 9 | 10 | 11 => simp [monthLengths]
  | 1 => cases leap <;> simp [monthLengths]
  | _ + 12 => simp [monthLengths]

theorem Exists.day_le {d : Date} (h : d.Exists) : d.day ≤ 31 :=
  Nat.le_trans h.2.2.2 (getD_monthLengths_le _ _)

end Date

namespace Instant

theorem hour_le (t : Instant) : t.hour ≤ 23 := by
  rw [hour]
  omega

theorem minute_le (t : Instant) : t.minute ≤ 59 := by
  rw [minute]
  omega

theorem second_le (t : Instant) : t.second ≤ 60 := by
  have hn := t.nanos_lt
  rw [second]
  omega

theorem fraction_lt (t : Instant) : t.fraction < 1000000000 := by
  rw [fraction]
  omega

/-- A leap second within a minute is moved within it, so only its second is another. -/
theorem date_settled (t : Instant) : t.settled.date = t.date := by
  by_cases h : t.Regular
  · rw [h.settled]
  · obtain ⟨hsecs, -⟩ := settled_of_not_regular h
    have hminute : t.secs % 60 ≠ 59 := fun hend => h fun _ => hend
    rw [date, date, hsecs, show (t.secs + 1) / 86400 = t.secs / 86400 by omega]

theorem clock_settled (t : Instant) : t.settled.hour = t.hour ∧ t.settled.minute = t.minute ∧
    t.settled.second = t.second ∧ t.settled.fraction = t.fraction := by
  by_cases h : t.Regular
  · rw [h.settled]
    exact ⟨rfl, rfl, rfl, rfl⟩
  · obtain ⟨hsecs, hnanos⟩ := settled_of_not_regular h
    have hminute : t.secs % 60 ≠ 59 := fun hend => h fun _ => hend
    have hleap : 1000000000 ≤ t.nanos := Nat.not_lt.mp fun hlt => h fun hle => by omega
    have hlt := t.nanos_lt
    simp only [hour, minute, second, fraction, hsecs, hnanos]
    omega

end Instant

namespace Rfc3339

open Ascii

theorem readNumber_fixedDecimal {width n : Nat} (h : n < 10 ^ width) (rest : Bytes) :
    readNumber width (fixedDecimal width n ++ rest) = .ok (n, rest) := by
  have hlen := length_fixedDecimal width n
  have htake : (fixedDecimal width n ++ rest).take width = fixedDecimal width n := by
    rw [List.take_append_of_le_length (by omega), List.take_of_length_le (by omega)]
  have hdrop : (fixedDecimal width n ++ rest).drop width = rest := by
    rw [List.drop_append_of_le_length (by omega), List.drop_of_length_le (by omega)]
    rfl
  have hall : (fixedDecimal width n).all isDigit = true :=
    List.all_eq_true.mpr fun b hb => isDigit_fixedDecimal width n hb
  simp only [readNumber, htake, hdrop]
  rw [if_pos ⟨hlen, hall⟩, digitsValue_fixedDecimal, Nat.mod_eq_of_lt h]

theorem readMark_cons {marks : List UInt8} {b : UInt8} (h : b ∈ marks) (rest : Bytes) :
    readMark marks (b :: rest) = .ok rest := by
  simp only [readMark, if_pos h]

/-- A text whose first octet is no digit has no number at its head. -/
theorem readNumber_nonDigit {width : Nat} {b : UInt8} (hw : 0 < width)
    (hb : isDigit b = false) (rest : Bytes) :
    readNumber width (b :: rest) = .error .invalid := by
  obtain ⟨w, rfl⟩ := Nat.exists_eq_add_one.mpr hw
  simp [readNumber, hb]

/-! The parts of a written time, each in front of what follows it. -/

theorem writeYear_plain {year : Int} (h0 : 0 ≤ year) (h9 : year ≤ 9999) :
    writeYear year = fixedDecimal 4 year.natAbs := by
  have hlt : year.natAbs < 10000 := by omega
  simp only [writeYear, if_pos hlt]
  rw [if_neg (by omega), if_neg (by omega)]

theorem readDate_digits {d : Date} (hd : d.Exists) (h0 : 0 ≤ d.year) (h9 : d.year ≤ 9999)
    (rest : Bytes) :
    readDate (writeYear d.year ++ minus :: (fixedDecimal 2 d.month ++
      minus :: (fixedDecimal 2 d.day ++ rest))) = .ok (d, rest) := by
  have hyear := writeYear_plain h0 h9
  have hmonth := hd.2.1
  have hday := hd.day_le
  have hcast : (d.year.natAbs : Int) = d.year := Int.natAbs_of_nonneg h0
  rw [hyear]
  simp only [readDate]
  rw [readNumber_fixedDecimal (by omega), ok_bind, readMark_cons (by simp), ok_bind,
    readNumber_fixedDecimal (by omega), ok_bind, readMark_cons (by simp), ok_bind,
    readNumber_fixedDecimal (by omega), ok_bind]
  simp only [hcast]
  exact if_pos hd

theorem readClock_digits {c : Clock} (hc : c.InRange) (rest : Bytes) :
    readClock (fixedDecimal 2 c.hour ++ colon :: (fixedDecimal 2 c.minute ++
      colon :: (fixedDecimal 2 c.second ++ rest))) = .ok (c, rest) := by
  obtain ⟨hhour, hminute, hsecond⟩ := hc
  simp only [readClock]
  rw [readNumber_fixedDecimal (by omega), ok_bind, readMark_cons (by simp), ok_bind,
    readNumber_fixedDecimal (by omega), ok_bind, readMark_cons (by simp), ok_bind,
    readNumber_fixedDecimal (by omega), ok_bind]

/-- Digits behind a point are read as the nanoseconds that they stand for. -/
theorem readFraction_digits {width n : Nat} (hw : 0 < width) (hw9 : width ≤ 9)
    (hn : n < 10 ^ width) {rest : Bytes} (hrest : NoDigitNext rest) :
    readFraction (point :: fixedDecimal width n ++ rest) = .ok (n * 10 ^ (9 - width), rest) := by
  have hlen := length_fixedDecimal width n
  have hne : fixedDecimal width n ≠ [] := by
    intro h
    rw [h] at hlen
    simp at hlen
    omega
  have hdigits : ∀ b ∈ fixedDecimal width n, isDigit b = true :=
    fun b hb => isDigit_fixedDecimal width n hb
  simp only [readFraction, List.cons_append, if_true]
  rw [takeWhile_digits hdigits hrest, dropWhile_digits hdigits hrest, if_neg hne]
  rw [fractionNanos, List.take_of_length_le (by omega), digitsValue_fixedDecimal,
    Nat.mod_eq_of_lt hn, hlen]
  rfl

/-- What can follow the seconds of a time: neither a digit nor a point. -/
def FractionEnds (rest : Bytes) : Prop :=
  ∀ b ∈ rest.head?, isDigit b = false ∧ b ≠ point

theorem readFraction_write (p : Precision) {nanos : Nat} (h : nanos < 1000000000)
    {rest : Bytes} (hends : FractionEnds rest) :
    readFraction (writeFraction p nanos ++ rest) = .ok (nanos, rest) := by
  have hrest : NoDigitNext rest := fun b hb => (hends b hb).1
  have full := readFraction_digits (by omega) (by omega : 9 ≤ 9) (by omega) hrest (n := nanos)
  cases p with
  | nanoseconds => simpa [writeFraction] using full
  | shortest =>
      simp only [writeFraction]
      split
      · next h0 =>
          subst h0
          cases rest with
          | nil => rfl
          | cons b rest => exact if_neg (hends b rfl).2
      · split
        · next h6 =>
            have hwhole : nanos / 1000000 * 10 ^ (9 - 3) = nanos :=
              Nat.div_mul_cancel (Nat.dvd_of_mod_eq_zero h6)
            rw [readFraction_digits (by omega) (by omega) (by omega) hrest, hwhole]
        · split
          · next h3 =>
              have hwhole : nanos / 1000 * 10 ^ (9 - 6) = nanos :=
                Nat.div_mul_cancel (Nat.dvd_of_mod_eq_zero h3)
              rw [readFraction_digits (by omega) (by omega) (by omega) hrest, hwhole]
          · simpa using full

theorem readOffset_utc : readOffset [letterZ] = .ok (0, []) := rfl

/-- The clock of an instant, as it is written. -/
def clockOf (t : Instant) : Clock := ⟨t.hour, t.minute, t.second⟩

theorem clockOf_inRange (t : Instant) : (clockOf t).InRange :=
  ⟨t.hour_le, t.minute_le, t.second_le⟩

/-- Date, clock and fraction of an instant are all there is to it; an offset moves it. -/
theorem instantOf_parts {t : Instant} (hl : t.Regular) (offset : Int) :
    instantOf t.date (clockOf t) t.fraction offset =
      Instant.ofParts? (t.secs - 60 * offset) t.nanos := by
  have hn := t.nanos_lt
  rw [Instant.Regular] at hl
  have hdays : t.date.toDays = t.secs / 86400 := Date.toDays_ofDays _
  have hsecs : 86400 * t.date.toDays + 3600 * (clockOf t).hour + 60 * (clockOf t).minute +
      min (clockOf t).second 59 - 60 * offset = t.secs - 60 * offset := by
    simp only [hdays, clockOf, Instant.hour, Instant.minute, Instant.second]
    omega
  have hleap : (clockOf t).second = 60 ↔ 1000000000 ≤ t.nanos := by
    simp only [clockOf, Instant.second]
    omega
  have hnanos : (if (clockOf t).second = 60 then t.fraction + 1000000000 else t.fraction) =
      t.nanos := by
    simp only [hleap, Instant.fraction]
    split <;> omega
  rw [instantOf]
  rw [hsecs, hnanos]

theorem ofParts?_shift (t : Instant) (minutes : Int) :
    ∃ t', Instant.ofParts? (t.secs - 60 * minutes) t.nanos = some t' ∧
      t'.secs = t.secs - 60 * minutes ∧ t'.nanos = t.nanos :=
  ⟨_, dif_pos t.nanos_lt, rfl, rfl⟩

/-- Date and time of day as they are written, without a zone. -/
def writeLocal (p : Precision) (t : Instant) : Bytes :=
  writeYear t.date.year ++ minus :: (fixedDecimal 2 t.date.month ++
    minus :: (fixedDecimal 2 t.date.day ++ letterT :: (fixedDecimal 2 (clockOf t).hour ++
    colon :: (fixedDecimal 2 (clockOf t).minute ++ colon ::
    (fixedDecimal 2 (clockOf t).second ++ writeFraction p t.fraction)))))

theorem write_eq_append (p : Precision) (t : Instant) :
    write p t = writeLocal p t ++ [letterZ] := by
  simp only [write, writeLocal, clockOf, List.append_assoc, List.cons_append]

theorem writeLocal_append (p : Precision) (t : Instant) (zone : Bytes) :
    writeLocal p t ++ zone = writeYear t.date.year ++ minus :: (fixedDecimal 2 t.date.month ++
      minus :: (fixedDecimal 2 t.date.day ++ letterT :: (fixedDecimal 2 (clockOf t).hour ++
      colon :: (fixedDecimal 2 (clockOf t).minute ++ colon ::
      (fixedDecimal 2 (clockOf t).second ++ (writeFraction p t.fraction ++ zone)))))) := by
  simp only [writeLocal, List.append_assoc, List.cons_append]

/-- What is written shows the settled instant. -/
theorem writeLocal_settled (p : Precision) (t : Instant) :
    writeLocal p t.settled = writeLocal p t := by
  obtain ⟨hhour, hminute, hsecond, hfraction⟩ := t.clock_settled
  simp only [writeLocal, clockOf, t.date_settled, hhour, hminute, hsecond, hfraction]

theorem write_settled (p : Precision) (t : Instant) : write p t.settled = write p t := by
  rw [write_eq_append, writeLocal_settled, ← write_eq_append]

theorem length_writeYear (year : Int) : 4 ≤ (writeYear year).length := by
  have hdigits : 4 ≤ (if year.natAbs < 10000 then fixedDecimal 4 year.natAbs
      else decimal year.natAbs).length := by
    split
    · exact Nat.le_of_eq (length_fixedDecimal _ _).symm
    · next h =>
        rw [decimal, if_neg (by omega), List.length_append, decimal, if_neg (by omega),
          List.length_append, decimal, if_neg (by omega), List.length_append]
        have : 0 < (decimal (year.natAbs / 10 / 10 / 10)).length :=
          List.length_pos_iff.mpr (decimal_ne_nil _)
        simp only [List.length_singleton]
        omega
  simp only [writeYear]
  split
  · simp only [List.length_cons]
    omega
  · split
    · simp only [List.length_cons]
      omega
    · exact hdigits

theorem length_writeLocal (p : Precision) (t : Instant) : 19 ≤ (writeLocal p t).length := by
  have := length_writeYear t.date.year
  simp only [writeLocal, List.length_append, List.length_cons, length_fixedDecimal]
  omega

theorem isAscii_writeYear (year : Int) : IsAscii (writeYear year) := by
  have digits : IsAscii (if year.natAbs < 10000 then fixedDecimal 4 year.natAbs
      else decimal year.natAbs) := by
    split <;> simp
  have signs : minus < 0x80 ∧ plus < 0x80 := by decide
  simp only [writeYear]
  split
  · exact isAscii_cons.mpr ⟨signs.1, digits⟩
  · split
    · exact isAscii_cons.mpr ⟨signs.2, digits⟩
    · exact digits

theorem isAscii_writeFraction (p : Precision) (nanos : Nat) :
    IsAscii (writeFraction p nanos) := by
  have behindPoint (width n : Nat) : IsAscii (point :: fixedDecimal width n) :=
    isAscii_cons.mpr ⟨by decide, isAscii_fixedDecimal width n⟩
  cases p with
  | nanoseconds => exact behindPoint 9 nanos
  | shortest =>
      simp only [writeFraction]
      split
      · exact isAscii_nil
      · split
        · exact behindPoint 3 _
        · split
          · exact behindPoint 6 _
          · exact behindPoint 9 nanos

/-- A written time consists of digits and a few ASCII marks. -/
theorem isAscii_writeLocal (p : Precision) (t : Instant) : IsAscii (writeLocal p t) := by
  have marks : minus < 0x80 ∧ letterT < 0x80 ∧ colon < 0x80 := by decide
  rw [writeLocal]
  simp [marks, isAscii_writeYear, isAscii_writeFraction]

theorem isAscii_write (p : Precision) (t : Instant) : IsAscii (write p t) := by
  rw [write_eq_append]
  exact isAscii_append.mpr ⟨isAscii_writeLocal p t, by simp [show letterZ < 0x80 by decide]⟩

/-- A written time is read in any zone that follows it, if its year has four digits. -/
theorem read_writeLocal (p : Precision) {t : Instant} (hl : t.Regular)
    (h0 : 0 ≤ t.date.year) (h9 : t.date.year ≤ 9999) {zone : Bytes} {offset : Int} (hends : FractionEnds zone)
    (hzone : readOffset zone = .ok (offset, [])) (hoffset : offset.natAbs < 24 * 60) :
    ∃ t', read (writeLocal p t ++ zone) = .ok t' ∧ t'.secs = t.secs - 60 * offset ∧
      t'.nanos = t.nanos := by
  obtain ⟨t', hparts, hsecs, hnanos⟩ := ofParts?_shift t offset
  refine ⟨t', ?_, hsecs, hnanos⟩
  have hlen := length_writeLocal p t
  have hdate : t.date.Exists := Date.exists_ofDays _
  have hclock := readClock_digits (clockOf_inRange t) (writeFraction p t.fraction ++ zone)
  have hfraction := readFraction_write p t.fraction_lt hends
  have hlong : ¬ (writeLocal p t ++ zone).length < 19 := by
    rw [List.length_append]
    omega
  simp only [read]
  rw [if_neg hlong, writeLocal_append, readDate_digits hdate h0 h9, ok_bind,
    readMark_cons (by simp), ok_bind, hclock, ok_bind, hfraction, ok_bind,
    if_neg (not_not_intro (clockOf_inRange t)), hzone, ok_bind,
    if_neg (not_not_intro rfl), if_neg (Nat.not_le.mpr hoffset), instantOf_parts hl,
    hparts]

theorem read_write (p : Precision) {t : Instant} (h0 : 0 ≤ t.date.year)
    (h9 : t.date.year ≤ 9999) : read (write p t) = .ok t.settled := by
  have hends : FractionEnds [letterZ] := by
    intro b hb
    cases hb
    decide
  rw [← t.date_settled] at h0 h9
  obtain ⟨t', hread, hsecs, hnanos⟩ :=
    read_writeLocal p t.regular_settled h0 h9 hends readOffset_utc (by decide)
  rw [← write_settled, write_eq_append, hread,
    Instant.ext_parts (by omega : t'.secs = t.settled.secs) hnanos]

/-- A year outside 0 to 9999 has a sign, where only a digit may stand. -/
theorem read_write_signed (p : Precision) {t : Instant}
    (h : ¬ (0 ≤ t.date.year ∧ t.date.year ≤ 9999)) : read (write p t) = .error .invalid := by
  have hlen := length_writeLocal p t
  obtain ⟨sign, hsign, digits, hyear⟩ : ∃ sign, isDigit sign = false ∧
      ∃ digits, writeYear t.date.year = sign :: digits := by
    by_cases hneg : t.date.year < 0
    · exact ⟨minus, rfl, _, by simp only [writeYear, if_pos hneg]; rfl⟩
    · have hbig : 9999 < t.date.year := by omega
      exact ⟨plus, rfl, _, by simp only [writeYear, if_neg hneg, if_pos hbig]; rfl⟩
  have hlong : ¬ (write p t).length < 19 := by
    rw [write_eq_append, List.length_append]
    omega
  simp only [read]
  rw [if_neg hlong, write_eq_append, writeLocal_append, hyear, List.cons_append]
  simp only [readDate, readNumber_nonDigit (by omega : 0 < 4) hsign, error_bind]

end Rfc3339

end DiceRooms
