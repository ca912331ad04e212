import DiceRooms.Time.Calendar

/-!
Dates and day counts. Every day count has a date of the calendar, and counting the days
of that date gives it back. The days of a date lie within its year.
-/
namespace DiceRooms.Date

def yearLength (leap : Bool) : Nat := if leap then 366 else 365

@[simp] theorem sumDays_nil : sumDays [] = 0 := rfl

@[simp] theorem sumDays_cons (len : Nat) (lens : List Nat) :
    sumDays (len :: lens) = len + sumDays lens := rfl

theorem sumDays_monthLengths (leap : Bool) : sumDays (monthLengths leap) = yearLength leap := by
  cases leap <;> rfl

theorem isLeapYear_iff (year : Int) :
    isLeapYear year = true ↔ year % 4 = 0 ∧ (year % 100 ≠ 0 ∨ year % 400 = 0) := by
  simp [isLeapYear]

/-- The cycles of a year counted from zero, as `yearOfDay` adds them up. -/
theorem daysBeforeYear_cycles (c400 c100 c4 c1 : Int) (h100 : 0 ≤ c100 ∧ c100 ≤ 3)
    (h4 : 0 ≤ c4 ∧ c4 ≤ 24) (h1 : 0 ≤ c1 ∧ c1 ≤ 3) :
    daysBeforeYear (400 * c400 + 100 * c100 + 4 * c4 + c1 + 1) =
      146097 * c400 + 36524 * c100 + 1461 * c4 + 365 * c1 := by
  rw [daysBeforeYear]
  omega

/-- The last year of a cycle of four is a leap year unless it ends a century that does
not end a cycle of 400. -/
theorem isLeapYear_cycles (c400 c100 c4 : Int) (h4 : 0 ≤ c4 ∧ c4 ≤ 24)
    (h : c4 = 24 → c100 = 3) :
    isLeapYear (400 * c400 + 100 * c100 + 4 * c4 + 3 + 1) = true := by
  rw [isLeapYear_iff]
  omega

theorem yearOfDay_spec (n : Int) :
    n = daysBeforeYear (yearOfDay n).1 + (yearOfDay n).2 ∧ 0 ≤ (yearOfDay n).2 ∧
      (yearOfDay n).2 < yearLength (isLeapYear (yearOfDay n).1) := by
  simp only [yearOfDay]
  generalize h100 : min 3 (n % 146097 / 36524) = c100
  generalize h4 : (n % 146097 - 36524 * c100) / 1461 = c4
  generalize hr4 : (n % 146097 - 36524 * c100) % 1461 = r4
  generalize h1 : min 3 (r4 / 365) = c1
  have b100 : 0 ≤ c100 ∧ c100 ≤ 3 := by omega
  have b4 : 0 ≤ c4 ∧ c4 ≤ 24 := by omega
  have b1 : 0 ≤ c1 ∧ c1 ≤ 3 := by omega
  rw [daysBeforeYear_cycles _ _ _ _ b100 b4 b1]
  refine ⟨by omega, by omega, ?_⟩
  -- Only the last year of a cycle of four can have a day number 365.
  by_cases short : r4 - 365 * c1 < 365
  · rw [yearLength]
    split <;> omega
  · have last : c1 = 3 := by omega
    have century : c4 = 24 → c100 = 3 := by omega
    rw [last, isLeapYear_cycles _ _ _ b4 century]
    simp only [yearLength, if_true]
    omega

theorem ofDayOfMonths_spec (lens : List Nat) (month n : Nat) (h : n < sumDays lens) :
    ∃ k day, ofDayOfMonths lens month n = (month + k, day) ∧ k < lens.length ∧ 1 ≤ day ∧
      day ≤ lens.getD k 0 ∧ sumDays (lens.take k) + day = n + 1 := by
  induction lens generalizing month n with
  | nil => simp at h
  | cons len lens ih =>
      cases lens with
      | nil =>
          refine ⟨0, n + 1, rfl, by simp, by omega, ?_, by simp⟩
          simpa [Nat.succ_le_iff] using h
      | cons len' lens' =>
          simp only [ofDayOfMonths]
          split
          · next hn =>
              exact ⟨0, n + 1, rfl, by simp, by omega, by simpa [Nat.succ_le_iff] using hn,
                by simp⟩
          · next hn =>
              have hrest : n - len < sumDays (len' :: lens') := by
                rw [sumDays_cons] at h
                omega
              obtain ⟨k, day, heq, hk, hday, hle, hsum⟩ := ih (month + 1) (n - len) hrest
              refine ⟨k + 1, day, ?_, by simpa using hk, hday, by simpa using hle, ?_⟩
              · rw [heq, Nat.add_assoc, Nat.add_comm 1 k]
              · rw [List.take_succ_cons, sumDays_cons]
                omega

/-- The year, month and day of a day count, with the days that stand before them. -/
theorem ofDays_spec (n : Int) :
    ∃ k, (ofDays n).month = 1 + k ∧ k < 12 ∧ 1 ≤ (ofDays n).day ∧
      (ofDays n).day ≤ (monthLengths (isLeapYear (ofDays n).year)).getD k 0 ∧
      daysBeforeYear (ofDays n).year +
        sumDays ((monthLengths (isLeapYear (ofDays n).year)).take k) + (ofDays n).day =
        n + epochDay + 1 := by
  obtain ⟨hsplit, hnonneg, hlt⟩ := yearOfDay_spec (n + epochDay)
  obtain ⟨k, day, heq, hk, hday, hle, hsum⟩ :=
    ofDayOfMonths_spec (monthLengths (isLeapYear (yearOfDay (n + epochDay)).1)) 1
      (yearOfDay (n + epochDay)).2.toNat (by rw [sumDays_monthLengths]; omega)
  simp only [ofDays, heq]
  exact ⟨k, rfl, by simpa [monthLengths] using hk, hday, hle, by omega⟩

theorem exists_ofDays (n : Int) : (ofDays n).Exists := by
  obtain ⟨k, hmonth, hk, hday, hle, -⟩ := ofDays_spec n
  refine ⟨by omega, by omega, hday, ?_⟩
  rwa [hmonth, Nat.add_sub_cancel_left]

theorem toDays_ofDays (n : Int) : (ofDays n).toDays = n := by
  obtain ⟨k, hmonth, -, -, -, hsum⟩ := ofDays_spec n
  rw [toDays, daysBeforeMonth]
  rw [hmonth, Nat.add_sub_cancel_left]
  omega

/-! The years of day counts. -/

theorem daysBeforeYear_succ (year : Int) :
    daysBeforeYear (year + 1) = daysBeforeYear year + yearLength (isLeapYear year) := by
  have hleap := isLeapYear_iff year
  simp only [daysBeforeYear, yearLength]
  by_cases h : isLeapYear year = true
  · have := hleap.mp h
    rw [if_pos h]
    omega
  · have := mt hleap.mpr h
    rw [if_neg h]
    omega

theorem daysBeforeYear_mono {year year' : Int} (h : year ≤ year') :
    daysBeforeYear year ≤ daysBeforeYear year' := by
  rw [daysBeforeYear, daysBeforeYear]
  omega

/-- A day count is in the year that begins before it and ends behind it. -/
theorem year_ofDays (n : Int) :
    daysBeforeYear (ofDays n).year ≤ n + epochDay ∧
      n + epochDay < daysBeforeYear ((ofDays n).year + 1) := by
  obtain ⟨hsplit, hnonneg, hlt⟩ := yearOfDay_spec (n + epochDay)
  have hyear : (ofDays n).year = (yearOfDay (n + epochDay)).1 := rfl
  rw [hyear, daysBeforeYear_succ]
  omega

/-- A year has begun by a day count exactly when its first of January has come. -/
theorem le_year_ofDays_iff {year n : Int} :
    year ≤ (ofDays n).year ↔ daysBeforeYear year ≤ n + epochDay := by
  obtain ⟨hbegun, hends⟩ := year_ofDays n
  constructor
  · intro h
    exact Int.le_trans (daysBeforeYear_mono h) hbegun
  · intro h
    refine Int.not_lt.mp fun hlt => ?_
    have := daysBeforeYear_mono (Int.add_one_le_of_lt hlt)
    omega

theorem sumDays_take_le (lens : List Nat) (k : Nat) :
    sumDays (lens.take k) + lens.getD k 0 ≤ sumDays lens := by
  induction lens generalizing k with
  | nil => simp
  | cons len lens ih =>
      cases k with
      | zero => simp
      | succ k =>
          have := ih k
          rw [List.take_succ_cons, List.getD_cons_succ, sumDays_cons, sumDays_cons]
          omega

/-- The days of an existing date are days of its year. -/
theorem Exists.in_year {d : Date} (h : d.Exists) :
    daysBeforeYear d.year ≤ d.toDays + epochDay ∧
      d.toDays + epochDay < daysBeforeYear (d.year + 1) := by
  obtain ⟨-, -, hday, hle⟩ := h
  have hsum := sumDays_take_le (monthLengths (isLeapYear d.year)) (d.month - 1)
  rw [sumDays_monthLengths] at hsum
  rw [daysBeforeYear_succ, Date.toDays, daysBeforeMonth]
  omega

end DiceRooms.Date
