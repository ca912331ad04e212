import DiceRooms.Proofs.Time.Stamp

/-!
The instants that a text can denote. The date of a text lies in the years 0 to 9999, but
its zone moves it by up to a minute less than a day, so the instants in UTC reach that much
past either end of these years, and they reach all of that; but a text shows leap seconds
at the end of a minute only.
-/
namespace DiceRooms

namespace Instant

/-- The second that year 0 begins with. -/
def yearZero : Int := -62167219200

/-- The second that year 10000 begins with. -/
def yearTenThousand : Int := 253402300800

/-- The most seconds that a zone can be away from UTC: 23 hours and 59 minutes. -/
def widestZone : Int := 86340

theorem yearZero_eq : yearZero = 86400 * (Date.daysBeforeYear 0 - Date.epochDay) := rfl

theorem yearTenThousand_eq :
    yearTenThousand = 86400 * (Date.daysBeforeYear 10000 - Date.epochDay) := rfl

/-- The instants of the years that are written with four digits and no sign. -/
theorem plainYear_iff (t : Instant) :
    (0 ≤ t.date.year ∧ t.date.year ≤ 9999) ↔ yearZero ≤ t.secs ∧ t.secs < yearTenThousand := by
  have hzero : 0 ≤ t.date.year ↔ _ := Date.le_year_ofDays_iff
  have hlimit : 10000 ≤ t.date.year ↔ _ := Date.le_year_ofDays_iff
  rw [yearZero_eq, yearTenThousand_eq]
  omega

end Instant

namespace Rfc3339

open Ascii Instant

theorem reach_of_read {s : Bytes} {t : Instant} (h : read s = .ok t) :
    yearZero - widestZone ≤ t.secs ∧ t.secs < yearTenThousand + widestZone := by
  obtain ⟨x, -, hx⟩ := read_eq_ok_iff.mp h
  obtain ⟨day, hday, hsecs⟩ := hx.secs
  obtain ⟨hhour, hminute, -⟩ := x.inRange
  obtain ⟨hbehind, hahead⟩ := x.zone.seconds_le
  obtain ⟨hbegins, hends⟩ := x.exist.in_year
  have hdays := (Date.counted_iff.mp hday).2
  have hfirst := Date.daysBeforeYear_mono x.fourDigits.1
  have hlast := Date.daysBeforeYear_mono
    (show x.date.year + 1 ≤ 10000 from Int.add_le_add_right x.fourDigits.2 1)
  rw [yearZero_eq, yearTenThousand_eq, widestZone]
  omega

theorem regular_of_read {s : Bytes} {t : Instant} (h : read s = .ok t) : t.Regular := by
  obtain ⟨x, -, hx⟩ := read_eq_ok_iff.mp h
  exact hx.regular

/-! A text for every regular instant within reach. -/

/-- The zone of a full day less a minute, ahead of UTC or behind it. -/
def farZone (ahead : Bool) : Bytes :=
  [if ahead then plus else minus, 0x32, 0x33, colon, 0x35, 0x39]

/-- The seconds that clocks of the zone are ahead of UTC. -/
def farShift (ahead : Bool) : Int := if ahead then widestZone else -widestZone

theorem isAscii_far (ahead : Bool) (t : Instant) :
    IsAscii (writeLocal .nanoseconds t ++ farZone ahead) := by
  refine isAscii_append.mpr ⟨isAscii_writeLocal _ t, ?_⟩
  simp only [farZone, isAscii_cons, isAscii_nil]
  cases ahead <;> decide

theorem read_far (ahead : Bool) {t : Instant} (hl : t.Regular) (h0 : 0 ≤ t.date.year)
    (h9 : t.date.year ≤ 9999) : ∃ t',
      read (writeLocal .nanoseconds t ++ farZone ahead) = .ok t' ∧
      t'.secs = t.secs - farShift ahead ∧ t'.nanos = t.nanos := by
  have hends : FractionEnds (farZone ahead) := by
    rintro b ⟨⟩
    cases ahead <;> decide
  cases ahead with
  | true =>
      have hzone : readOffset (farZone true) = .ok (1439, []) := rfl
      exact read_writeLocal .nanoseconds hl h0 h9 hends hzone (by decide)
  | false =>
      have hzone : readOffset (farZone false) = .ok (-1439, []) := rfl
      exact read_writeLocal .nanoseconds hl h0 h9 hends hzone (by decide)

/-- An instant is denoted in a far zone whose clocks show a year of four digits then. -/
theorem exists_read_far (ahead : Bool) {t : Instant} (hl : t.Regular)
    (hzero : yearZero ≤ t.secs + farShift ahead)
    (hlimit : t.secs + farShift ahead < yearTenThousand) : ∃ s, IsAscii s ∧ read s = .ok t := by
  obtain ⟨shown, -, hsecs, hnanos⟩ := ofParts?_shift t (if ahead then -1439 else 1439)
  have hshown : shown.secs = t.secs + farShift ahead := by
    rw [hsecs]
    cases ahead with
    | true => exact Int.sub_eq_add_neg
    | false => exact Int.sub_eq_add_neg
  have hregular : shown.Regular := by
    intro hleap
    have hend := hl (hnanos ▸ hleap)
    omega
  rw [← hshown] at hzero hlimit
  obtain ⟨h0, h9⟩ := (plainYear_iff shown).mpr ⟨hzero, hlimit⟩
  obtain ⟨t', hread, hsecs', hnanos'⟩ := read_far ahead hregular h0 h9
  have heq : t' = t := Instant.ext_parts (by omega) (hnanos'.trans hnanos)
  exact ⟨_, isAscii_far ahead shown, heq ▸ hread⟩

/-- The instants that texts denote are the regular ones within reach. -/
theorem exists_read_iff (t : Instant) :
    (∃ s, IsAscii s ∧ read s = .ok t) ↔ t.Regular ∧
      yearZero - widestZone ≤ t.secs ∧ t.secs < yearTenThousand + widestZone := by
  constructor
  · rintro ⟨s, -, h⟩
    exact ⟨regular_of_read h, reach_of_read h⟩
  · rintro ⟨hl, hfirst, hlast⟩
    -- The two ends of the years are far apart, so each far zone takes one of them in.
    have hwide : yearZero + widestZone < yearTenThousand - widestZone := by decide
    have hahead : farShift true = widestZone := rfl
    have hbehind : farShift false = -widestZone := rfl
    rcases Int.lt_or_le t.secs yearZero with hbefore | hsince
    · exact exists_read_far true hl (by omega) (by omega)
    rcases Int.lt_or_le t.secs yearTenThousand with huntil | hafter
    · obtain ⟨h0, h9⟩ := (plainYear_iff t).mpr ⟨hsince, huntil⟩
      have hread := read_write .nanoseconds h0 h9
      rw [hl.settled] at hread
      exact ⟨_, isAscii_write .nanoseconds t, hread⟩
    · exact exists_read_far false hl (by omega) (by omega)

end Rfc3339

end DiceRooms
