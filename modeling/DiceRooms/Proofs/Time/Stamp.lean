import DiceRooms.Proofs.Time.Days
import DiceRooms.Proofs.Time.Rfc3339

/-!
The texts that are times, apart from any reader, and the instant that each of them tells:
the day counted in the calendar, the time of day, and what the zone is ahead of UTC taken
off. A text is read exactly if it is such a stamp, and as the instant that the stamp tells.
-/
namespace DiceRooms.Rfc3339

open Ascii

/-! Stamps and what they tell. -/

/-- The signs of a zone. -/
inductive Sign
  | plus
  | hyphen
  /-- U+2212, the minus sign proper. -/
  | minus
deriving DecidableEq

def Sign.bytes : Sign → Bytes
  | .plus => [0x2b]
  | .hyphen => [0x2d]
  | .minus => [0xe2, 0x88, 0x92]

def Sign.factor : Sign → Int
  | .plus => 1
  | .hyphen | .minus => -1

inductive Zone
  | utc (small : Bool)
  | offset (sign : Sign) (hours minutes : Nat) (inRange : hours ≤ 23 ∧ minutes ≤ 59)
deriving DecidableEq

def Zone.bytes : Zone → Bytes
  | .utc small => [if small then 0x7a else letterZ]
  | .offset sign hours minutes _ =>
    sign.bytes ++ fixedDecimal 2 hours ++ colon :: fixedDecimal 2 minutes

/-- The seconds that clocks of the zone are ahead of UTC. -/
def Zone.seconds : Zone → Int
  | .utc _ => 0
  | .offset sign hours minutes _ => sign.factor * (3600 * hours + 60 * minutes : Nat)

structure Stamp where
  date : Date
  exist : date.Exists
  fourDigits : 0 ≤ date.year ∧ date.year ≤ 9999
  separator : UInt8
  separates : separator ∈ [letterT, 0x74, 0x20]
  clock : Clock
  inRange : clock.InRange
  /-- If there are none, there is no point either. -/
  fraction : Bytes
  digits : ∀ b ∈ fraction, isDigit b = true
  zone : Zone

def dateBytes (d : Date) : Bytes :=
  fixedDecimal 4 d.year.natAbs ++
    minus :: (fixedDecimal 2 d.month ++ minus :: fixedDecimal 2 d.day)

def clockBytes (c : Clock) : Bytes :=
  fixedDecimal 2 c.hour ++
    colon :: (fixedDecimal 2 c.minute ++ colon :: fixedDecimal 2 c.second)

def fractionBytes (ds : Bytes) : Bytes := if ds = [] then [] else point :: ds

/-- The first nine digits of a fraction, with zeros in the places that it leaves. -/
def nineDigits (ds : Bytes) : Nat := digitsValue ((ds ++ List.replicate 9 zero).take 9)

namespace Stamp

def bytes (x : Stamp) : Bytes :=
  dateBytes x.date ++ x.separator :: (clockBytes x.clock ++
    (fractionBytes x.fraction ++ x.zone.bytes))

/-- The instant that the stamp tells. -/
structure Tells (x : Stamp) (t : Instant) : Prop where
  secs : ∃ day, Date.Counted day x.date ∧
    t.secs = 86400 * day + 3600 * x.clock.hour + 60 * x.clock.minute + min x.clock.second 59 -
      x.zone.seconds
  nanos : t.nanos = nineDigits x.fraction + if x.clock.second = 60 then 1000000000 else 0

theorem Tells.unique {x : Stamp} {t t' : Instant} (h : x.Tells t) (h' : x.Tells t') : t = t' := by
  obtain ⟨day, hday, hsecs⟩ := h.secs
  obtain ⟨day', hday', hsecs'⟩ := h'.secs
  have heq : day = day' := (Date.counted_iff.mp hday).2.symm.trans (Date.counted_iff.mp hday').2
  exact Instant.ext_parts (by rw [hsecs, hsecs', heq]) (h.nanos.trans h'.nanos.symm)

end Stamp

/-! Numbers and marks. -/

theorem readNumber_eq_ok_iff {width n : Nat} {s rest : Bytes} :
    readNumber width s = .ok (n, rest) ↔ s = fixedDecimal width n ++ rest ∧ n < 10 ^ width := by
  constructor
  · intro h
    simp only [readNumber] at h
    split at h
    · next hdigits =>
        obtain ⟨hlength, hall⟩ := hdigits
        cases h
        have hall := List.all_eq_true.mp hall
        have hlt := digitsValue_lt hall
        have hwritten := fixedDecimal_digitsValue hall
        rw [hlength] at hlt hwritten
        exact ⟨by rw [hwritten, List.take_append_drop], hlt⟩
    · cases h
  · rintro ⟨rfl, hn⟩
    exact readNumber_fixedDecimal hn rest

theorem readMark_eq_ok_iff {marks : List UInt8} {s rest : Bytes} :
    readMark marks s = .ok rest ↔ ∃ b ∈ marks, s = b :: rest := by
  constructor
  · intro h
    cases s with
    | nil => cases h
    | cons b s =>
        rw [readMark] at h
        split at h
        · next hb =>
            cases h
            exact ⟨b, hb, rfl⟩
        · cases h
  · rintro ⟨b, hb, rfl⟩
    exact readMark_cons hb rest

theorem readMark_single {b : UInt8} {s rest : Bytes} (h : readMark [b] s = .ok rest) :
    s = b :: rest := by
  obtain ⟨b', hb', heq⟩ := readMark_eq_ok_iff.mp h
  rwa [List.mem_singleton.mp hb'] at heq

/-! Dates and clocks. -/

theorem dateBytes_of_readDate {s rest : Bytes} {d : Date} (h : readDate s = .ok (d, rest)) :
    s = dateBytes d ++ rest ∧ d.Exists ∧ 0 ≤ d.year ∧ d.year ≤ 9999 := by
  obtain ⟨⟨year, s₁⟩, hyear, h⟩ := bind_eq_ok_iff.mp h
  obtain ⟨s₂, hmark, h⟩ := bind_eq_ok_iff.mp h
  obtain ⟨⟨month, s₃⟩, hmonth, h⟩ := bind_eq_ok_iff.mp h
  obtain ⟨s₄, hmark', h⟩ := bind_eq_ok_iff.mp h
  obtain ⟨⟨day, s₅⟩, hday, h⟩ := bind_eq_ok_iff.mp h
  dsimp only at h
  split at h
  · next hexists =>
      cases h
      obtain ⟨rfl, hlt⟩ := readNumber_eq_ok_iff.mp hyear
      obtain rfl := readMark_single hmark
      obtain ⟨rfl, -⟩ := readNumber_eq_ok_iff.mp hmonth
      obtain rfl := readMark_single hmark'
      obtain ⟨rfl, -⟩ := readNumber_eq_ok_iff.mp hday
      have hle : (year : Int) ≤ 9999 := by omega
      exact ⟨by simp [dateBytes], hexists, Int.natCast_nonneg year, hle⟩
  · cases h

theorem readDate_dateBytes {d : Date} (hd : d.Exists) (hyear : 0 ≤ d.year ∧ d.year ≤ 9999)
    (rest : Bytes) : readDate (dateBytes d ++ rest) = .ok (d, rest) := by
  have h := readDate_digits hd hyear.1 hyear.2 rest
  rw [writeYear_plain hyear.1 hyear.2] at h
  simpa only [dateBytes, List.append_assoc, List.cons_append] using h

theorem clockBytes_of_readClock {s rest : Bytes} {c : Clock} (h : readClock s = .ok (c, rest)) :
    s = clockBytes c ++ rest := by
  obtain ⟨⟨hour, s₁⟩, hhour, h⟩ := bind_eq_ok_iff.mp h
  obtain ⟨s₂, hmark, h⟩ := bind_eq_ok_iff.mp h
  obtain ⟨⟨minute, s₃⟩, hminute, h⟩ := bind_eq_ok_iff.mp h
  obtain ⟨s₄, hmark', h⟩ := bind_eq_ok_iff.mp h
  obtain ⟨⟨second, s₅⟩, hsecond, h⟩ := bind_eq_ok_iff.mp h
  cases h
  obtain ⟨rfl, -⟩ := readNumber_eq_ok_iff.mp hhour
  obtain rfl := readMark_single hmark
  obtain ⟨rfl, -⟩ := readNumber_eq_ok_iff.mp hminute
  obtain rfl := readMark_single hmark'
  obtain ⟨rfl, -⟩ := readNumber_eq_ok_iff.mp hsecond
  simp [clockBytes]

theorem readClock_clockBytes {c : Clock} (hc : c.InRange) (rest : Bytes) :
    readClock (clockBytes c ++ rest) = .ok (c, rest) := by
  have h := readClock_digits hc rest
  simpa only [clockBytes, List.append_assoc, List.cons_append] using h

/-! Fractions. -/

theorem fractionNanos_eq (ds : Bytes) : fractionNanos ds = nineDigits ds := by
  have hzeros : (ds ++ List.replicate 9 zero).take 9 =
      ds.take 9 ++ List.replicate (9 - ds.length) zero := by
    rw [List.take_append, List.take_replicate, Nat.min_eq_left (Nat.sub_le 9 _)]
  rw [fractionNanos, nineDigits, hzeros, digitsValue_append_zeros]
  rfl

theorem nineDigits_lt {ds : Bytes} (h : ∀ b ∈ ds, isDigit b = true) :
    nineDigits ds < 1000000000 := by
  have hall : ∀ b ∈ (ds ++ List.replicate 9 zero).take 9, isDigit b = true := by
    intro b hb
    rcases List.mem_append.mp (List.mem_of_mem_take hb) with hb | hb
    · exact h b hb
    · rw [List.eq_of_mem_replicate hb]
      rfl
  have hlength : ((ds ++ List.replicate 9 zero).take 9).length = 9 := by simp
  have hlt := digitsValue_lt hall
  rwa [hlength] at hlt

theorem fractionBytes_of_readFraction {s rest : Bytes} {nanos : Nat}
    (h : readFraction s = .ok (nanos, rest)) :
    ∃ ds, s = fractionBytes ds ++ rest ∧ (∀ b ∈ ds, isDigit b = true) ∧ nanos = nineDigits ds := by
  have absent : (0 : Nat) = nineDigits [] := rfl
  cases s with
  | nil =>
      cases h
      exact ⟨[], rfl, List.forall_mem_nil _, absent⟩
  | cons b s =>
      rw [readFraction] at h
      split at h
      · next hpoint =>
          dsimp only at h
          split at h
          · split at h <;> cases h
          · next hsome =>
              cases h
              refine ⟨s.takeWhile isDigit, ?_, fun _ hb => ?_,
                fractionNanos_eq _⟩
              · rw [fractionBytes, if_neg hsome, hpoint, List.cons_append,
                  List.takeWhile_append_dropWhile]
              · exact List.all_eq_true.mp (List.all_takeWhile) _ hb
      · cases h
        exact ⟨[], rfl, List.forall_mem_nil _, absent⟩

theorem readFraction_fractionBytes {ds rest : Bytes} (hds : ∀ b ∈ ds, isDigit b = true)
    (hends : FractionEnds rest) :
    readFraction (fractionBytes ds ++ rest) = .ok (nineDigits ds, rest) := by
  have hrest : NoDigitNext rest := fun b hb => (hends b hb).1
  by_cases hnone : ds = []
  · subst hnone
    cases rest with
    | nil => rfl
    | cons b rest => exact if_neg (hends b rfl).2
  · rw [fractionBytes, if_neg hnone, List.cons_append, readFraction, if_pos rfl]
    simp only [takeWhile_digits hds hrest, dropWhile_digits hds hrest, fractionNanos_eq,
      if_neg hnone]

/-! Zones. -/

theorem Sign.natAbs_factor_mul (sign : Sign) (n : Nat) : (sign.factor * n).natAbs = n := by
  cases sign <;> simp [factor]

theorem Zone.seconds_offset (sign : Sign) {hours minutes : Nat}
    (inRange : hours ≤ 23 ∧ minutes ≤ 59) :
    (Zone.offset sign hours minutes inRange).seconds =
      60 * (sign.factor * (60 * hours + minutes : Nat)) := by
  have hminutes : 3600 * hours + 60 * minutes = 60 * (60 * hours + minutes) := by omega
  rw [seconds, hminutes, Int.natCast_mul, Int.mul_left_comm]
  rfl

theorem bytes_of_readSign {s rest : Bytes} {factor : Int}
    (h : readSign s = .ok (factor, rest)) :
    ∃ sign : Sign, s = sign.bytes ++ rest ∧ factor = sign.factor := by
  rw [readSign.eq_def] at h
  split at h
  · cases h
  · cases h
    exact ⟨.minus, rfl, rfl⟩
  · split at h
    · next hplus =>
        cases h
        exact ⟨.plus, by rw [hplus]; rfl, rfl⟩
    · split at h
      · next hminus =>
          cases h
          exact ⟨.hyphen, by rw [hminus]; rfl, rfl⟩
      · cases h

theorem readSign_bytes (sign : Sign) (rest : Bytes) :
    readSign (sign.bytes ++ rest) = .ok (sign.factor, rest) := by
  cases sign <;> rfl

theorem readOffsetMinutes_eq_ok_iff {s rest : Bytes} {n : Nat} :
    readOffsetMinutes s = .ok (n, rest) ↔ s = fixedDecimal 2 n ++ rest ∧ n ≤ 59 := by
  constructor
  · intro h
    rw [readOffsetMinutes.eq_def] at h
    split at h
    · next tens ones rest' =>
        split at h
        · next hdigits =>
            rw [Bool.and_eq_true] at hdigits
            split at h
            · cases h
            · next htens =>
                cases h
                have hall : ∀ b ∈ [tens, ones], isDigit b = true := by simpa using hdigits
                have hwritten := fixedDecimal_digitsValue hall
                have hones := (digitValue_of_isDigit hdigits.2).1
                refine ⟨by rw [show (2 : Nat) = [tens, ones].length from rfl, hwritten]; rfl, ?_⟩
                simp only [digitsValue, List.foldl_cons, List.foldl_nil]
                omega
        · cases h
    · cases h
  · rintro ⟨rfl, hn⟩
    have htwo : fixedDecimal 2 n = [digit (n / 10), digit n] := rfl
    have hvalue := digitsValue_fixedDecimal 2 n
    rw [Nat.mod_eq_of_lt (by omega), htwo] at hvalue
    have htens : ¬ 6 ≤ digitValue (digit (n / 10)) := by
      rw [digitValue_digit]
      omega
    rw [htwo, List.cons_append, List.singleton_append, readOffsetMinutes, hvalue]
    simp only [isDigit_digit, Bool.and_self, if_true, if_neg htens]

theorem bytes_of_readOffset {s : Bytes} {minutes : Int} (h : readOffset s = .ok (minutes, []))
    (hday : minutes.natAbs < 24 * 60) :
    ∃ z : Zone, s = z.bytes ∧ z.seconds = 60 * minutes := by
  cases s with
  | nil => cases h
  | cons b s =>
      rw [readOffset] at h
      split at h
      · next hletter =>
          cases h
          rcases hletter with rfl | rfl
          · exact ⟨.utc false, rfl, rfl⟩
          · exact ⟨.utc true, rfl, rfl⟩
      · obtain ⟨⟨factor, s₁⟩, hsign, h⟩ := bind_eq_ok_iff.mp h
        dsimp only at h
        split at h
        · cases h
        obtain ⟨⟨hours, s₂⟩, hhours, h⟩ := bind_eq_ok_iff.mp h
        dsimp only at h
        split at h
        · cases h
        obtain ⟨s₃, hmark, h⟩ := bind_eq_ok_iff.mp h
        obtain ⟨⟨minute, s₄⟩, hminute, h⟩ := bind_eq_ok_iff.mp h
        cases h
        obtain ⟨sign, hbytes, rfl⟩ := bytes_of_readSign hsign
        obtain ⟨rfl, -⟩ := readNumber_eq_ok_iff.mp hhours
        obtain rfl := readMark_single hmark
        obtain ⟨rfl, hsixty⟩ := readOffsetMinutes_eq_ok_iff.mp hminute
        rw [sign.natAbs_factor_mul] at hday
        have hrange : hours ≤ 23 ∧ minute ≤ 59 := ⟨by omega, hsixty⟩
        exact ⟨.offset sign hours minute hrange, by simp [hbytes, Zone.bytes],
          Zone.seconds_offset sign hrange⟩

/-- A sign is neither of the letters for UTC. -/
theorem Sign.starts (sign : Sign) :
    ∃ b s, sign.bytes = b :: s ∧ ¬ (b = letterZ ∨ b = 0x7a) := by
  cases sign <;> exact ⟨_, _, rfl, by decide⟩

theorem readOffset_bytes (z : Zone) :
    ∃ minutes : Int, readOffset z.bytes = .ok (minutes, []) ∧ minutes.natAbs < 24 * 60 ∧
      z.seconds = 60 * minutes := by
  cases z with
  | utc small => exact ⟨0, by cases small <;> rfl, by decide, rfl⟩
  | offset sign hours minutes inRange =>
      refine ⟨sign.factor * (60 * hours + minutes : Nat), ?_, ?_, Zone.seconds_offset sign inRange⟩
      · have hsign := readSign_bytes sign (fixedDecimal 2 hours ++ colon :: fixedDecimal 2 minutes)
        have hhours := readNumber_fixedDecimal (by omega : hours < 10 ^ 2)
          (colon :: fixedDecimal 2 minutes)
        have hminutes : readOffsetMinutes (fixedDecimal 2 minutes) = .ok (minutes, []) :=
          readOffsetMinutes_eq_ok_iff.mpr ⟨(List.append_nil _).symm, inRange.2⟩
        have hlong : ¬ (fixedDecimal 2 hours ++ colon :: fixedDecimal 2 minutes).length < 2 := by
          simp [length_fixedDecimal]
        obtain ⟨b, s, hs, hletter⟩ := sign.starts
        rw [hs] at hsign
        rw [Zone.bytes, List.append_assoc, hs, List.cons_append, readOffset, if_neg hletter]
        rw [← List.cons_append, hsign, ok_bind]
        dsimp only
        rw [if_neg hlong, hhours, ok_bind, if_neg (List.cons_ne_nil _ _),
          readMark_cons List.mem_cons_self, ok_bind, hminutes]
        rfl
      · rw [sign.natAbs_factor_mul]
        omega

theorem Zone.seconds_le (z : Zone) : -86340 ≤ z.seconds ∧ z.seconds ≤ 86340 := by
  obtain ⟨minutes, -, hday, hseconds⟩ := readOffset_bytes z
  omega

/-! Whole texts. -/

/-- A clock in its range and a fraction make an instant with any offset. -/
theorem exists_instantOf (d : Date) {c : Clock} (hc : c.InRange) {nanos : Nat}
    (hnanos : nanos < 1000000000) (offset : Int) :
    ∃ t, instantOf d c nanos offset = some t ∧
      t.secs = 86400 * d.toDays + 3600 * c.hour + 60 * c.minute + min c.second 59 - 60 * offset ∧
      t.nanos = nanos + if c.second = 60 then 1000000000 else 0 := by
  have hsecond := hc.2.2
  rw [instantOf]
  by_cases hleap : c.second = 60
  · rw [if_pos hleap, if_pos hleap]
    exact ⟨_, dif_pos (by omega), rfl, rfl⟩
  · rw [if_neg hleap, if_neg hleap]
    exact ⟨_, dif_pos (by omega), rfl, rfl⟩

/-- Behind the fraction neither a digit nor a point follows, but the zone. -/
theorem fractionEnds_zone (z : Zone) : FractionEnds z.bytes := by
  cases z with
  | utc small =>
      cases small <;> (rintro b ⟨⟩; decide)
  | offset sign hours minutes inRange =>
      cases sign <;> (rintro b ⟨⟩; decide)

theorem length_bytes (x : Stamp) : 19 ≤ x.bytes.length := by
  simp only [Stamp.bytes, dateBytes, clockBytes, List.length_append, List.length_cons,
    length_fixedDecimal]
  omega

theorem Stamp.tells_of_instantOf {x : Stamp} {minutes : Int} {t : Instant}
    (hzone : x.zone.seconds = 60 * minutes)
    (h : instantOf x.date x.clock (nineDigits x.fraction) minutes = some t) : x.Tells t := by
  obtain ⟨t', ht, hsecs, hnanos⟩ :=
    exists_instantOf x.date x.inRange (nineDigits_lt x.digits) minutes
  cases h.symm.trans ht
  exact ⟨⟨_, Date.counted_iff.mpr ⟨x.exist, rfl⟩, hzone ▸ hsecs⟩, hnanos⟩

/-- Zones are whole minutes from UTC, so a leap second stays at the end of a minute. -/
theorem Stamp.Tells.regular {x : Stamp} {t : Instant} (h : x.Tells t) : t.Regular := by
  intro hleap
  obtain ⟨day, -, hsecs⟩ := h.secs
  obtain ⟨minutes, -, -, hzone⟩ := readOffset_bytes x.zone
  have hdigits := nineDigits_lt x.digits
  have hsecond : x.clock.second = 60 := by
    by_contra hne
    rw [h.nanos, if_neg hne] at hleap
    omega
  omega

theorem read_bytes (x : Stamp) : ∃ t, read x.bytes = .ok t ∧ x.Tells t := by
  obtain ⟨minutes, hoffset, hday, hzone⟩ := readOffset_bytes x.zone
  obtain ⟨t, ht, -⟩ := exists_instantOf x.date x.inRange (nineDigits_lt x.digits) minutes
  refine ⟨t, ?_, Stamp.tells_of_instantOf hzone ht⟩
  have hlong : ¬ x.bytes.length < 19 := Nat.not_lt.mpr (length_bytes x)
  simp only [read]
  rw [if_neg hlong, Stamp.bytes, readDate_dateBytes x.exist x.fourDigits, ok_bind,
    readMark_cons x.separates, ok_bind, readClock_clockBytes x.inRange, ok_bind,
    readFraction_fractionBytes x.digits (fractionEnds_zone x.zone), ok_bind,
    if_neg (not_not_intro x.inRange), hoffset, ok_bind, if_neg (not_not_intro rfl),
    if_neg (Nat.not_le.mpr hday), ht]

theorem stamp_of_read {s : Bytes} {t : Instant} (h : read s = .ok t) :
    ∃ x : Stamp, x.bytes = s ∧ x.Tells t := by
  simp only [read] at h
  split at h
  · cases h
  obtain ⟨⟨d, s₁⟩, hdate, h⟩ := bind_eq_ok_iff.mp h
  obtain ⟨s₂, hmark, h⟩ := bind_eq_ok_iff.mp h
  obtain ⟨⟨c, s₃⟩, hclock, h⟩ := bind_eq_ok_iff.mp h
  obtain ⟨⟨nanos, s₄⟩, hfraction, h⟩ := bind_eq_ok_iff.mp h
  dsimp only at h
  split at h
  · cases h
  next hrange =>
  obtain ⟨⟨offset, s₅⟩, hoffset, h⟩ := bind_eq_ok_iff.mp h
  dsimp only at h
  split at h
  · cases h
  next hend =>
  split at h
  · cases h
  next hday =>
  split at h
  · next t' ht =>
      cases h
      obtain rfl := not_not.mp hend
      obtain ⟨rfl, hexists, hyear⟩ := dateBytes_of_readDate hdate
      obtain ⟨separator, hseparator, rfl⟩ := readMark_eq_ok_iff.mp hmark
      obtain rfl := clockBytes_of_readClock hclock
      obtain ⟨ds, rfl, hds, rfl⟩ := fractionBytes_of_readFraction hfraction
      obtain ⟨z, rfl, hzone⟩ := bytes_of_readOffset hoffset (Nat.not_le.mp hday)
      let x : Stamp :=
        ⟨d, hexists, hyear, separator, hseparator, c, not_not.mp hrange, ds, hds, z⟩
      exact ⟨x, rfl, Stamp.tells_of_instantOf (x := x) hzone ht⟩
  · cases h

/-- A text is read as an instant exactly if it is a stamp that tells it. -/
theorem read_eq_ok_iff {s : Bytes} {t : Instant} :
    read s = .ok t ↔ ∃ x : Stamp, x.bytes = s ∧ x.Tells t := by
  constructor
  · exact stamp_of_read
  · rintro ⟨x, rfl, hx⟩
    obtain ⟨t', hread, hx'⟩ := read_bytes x
    rw [hread, hx.unique hx']

end DiceRooms.Rfc3339
