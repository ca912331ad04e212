import DiceRooms.Proofs.Time.Calendar
import Mathlib.Data.Int.Init

/-!
The calendar day by day. Counted from 1970-01-01 on, and back from it, every existing date
has a number, and no two have the same; it is the one that `Date.toDays` computes without
counting.
-/
namespace DiceRooms.Date

def monthLength (year : Int) (month : Nat) : Nat :=
  (monthLengths (isLeapYear year)).getD (month - 1) 0

/-- The day after a day. -/
def next (d : Date) : Date :=
  if d.day < monthLength d.year d.month then ⟨d.year, d.month, d.day + 1⟩
  else if d.month < 12 then ⟨d.year, d.month + 1, 1⟩
  else ⟨d.year + 1, 1, 1⟩

/-- The days from 1970-01-01 to a date, one after another; those before it count below
zero. -/
inductive Counted : Int → Date → Prop
  | first : Counted 0 ⟨1970, 1, 1⟩
  | next {n : Int} {d : Date} (counted : Counted n d) : Counted (n + 1) d.next
  | previous {n : Int} {d : Date} (exist : d.Exists) (counted : Counted (n + 1) d.next) :
      Counted n d

/-! Months. -/

theorem sumDays_take_succ (lens : List Nat) (k : Nat) :
    sumDays (lens.take (k + 1)) = sumDays (lens.take k) + lens.getD k 0 := by
  induction lens generalizing k with
  | nil => simp
  | cons len lens ih =>
      cases k with
      | zero => simp
      | succ k =>
          rw [List.take_succ_cons, List.take_succ_cons, sumDays_cons, sumDays_cons, ih,
            List.getD_cons_succ, Nat.add_assoc]

theorem sumDays_take_mono (lens : List Nat) {j k : Nat} (h : j ≤ k) :
    sumDays (lens.take j) ≤ sumDays (lens.take k) := by
  induction h with
  | refl => exact Nat.le_refl _
  | step _ ih =>
      rw [sumDays_take_succ]
      exact Nat.le_add_right_of_le ih

theorem daysBeforeMonth_succ (year : Int) {month : Nat} (h : 1 ≤ month) :
    daysBeforeMonth (isLeapYear year) (month + 1) =
      daysBeforeMonth (isLeapYear year) month + monthLength year month := by
  obtain ⟨k, rfl⟩ := Nat.exists_eq_add_of_le' h
  exact sumDays_take_succ _ k

theorem daysBeforeMonth_mono (leap : Bool) {month month' : Nat} (h : month ≤ month') :
    daysBeforeMonth leap month ≤ daysBeforeMonth leap month' :=
  sumDays_take_mono _ (Nat.sub_le_sub_right h 1)

theorem daysBeforeMonth_thirteen (year : Int) :
    daysBeforeMonth (isLeapYear year) 13 = yearLength (isLeapYear year) :=
  sumDays_monthLengths _

theorem monthLength_pos (year : Int) {month : Nat} (h : month ≤ 12) :
    1 ≤ monthLength year month := by
  have hall : ∀ leap : Bool, ∀ k < 12, 1 ≤ (monthLengths leap).getD k 0 := by decide
  exact hall _ _ (by omega)

/-! The day after. -/

theorem Exists.next {d : Date} (h : d.Exists) : d.next.Exists := by
  obtain ⟨hfirst, hlast, hday, hle⟩ := h
  rw [Date.next]
  split
  · next hlt => exact ⟨hfirst, hlast, Nat.le_add_left 1 _, hlt⟩
  · split
    · next hmonth =>
        exact ⟨Nat.le_add_left 1 _, hmonth, Nat.le_refl 1, monthLength_pos _ hmonth⟩
    · have hjanuary : (1 : Nat) ≤ 12 := by decide
      exact ⟨Nat.le_refl 1, hjanuary, Nat.le_refl 1, monthLength_pos _ hjanuary⟩

theorem toDays_next {d : Date} (h : d.Exists) : d.next.toDays = d.toDays + 1 := by
  obtain ⟨hfirst, hlast, hday, hle⟩ := h
  change d.day ≤ monthLength d.year d.month at hle
  have hsucc := daysBeforeMonth_succ d.year hfirst
  rw [Date.next]
  split
  · simp only [toDays]
    omega
  next hlt =>
  have hend : d.day = monthLength d.year d.month := Nat.le_antisymm hle (Nat.not_lt.mp hlt)
  split
  · simp only [toDays, hsucc]
    omega
  next hmonth =>
  -- The last day of December, and so of the year.
  have hdecember : d.month = 12 := Nat.le_antisymm hlast (Nat.not_lt.mp hmonth)
  rw [hdecember, daysBeforeMonth_thirteen] at hsucc
  have hyear := daysBeforeYear_succ d.year
  have hjanuary : daysBeforeMonth (isLeapYear (d.year + 1)) 1 = 0 := rfl
  simp only [toDays, hyear, hjanuary, hend, hdecember]
  omega

/-! Numbers and dates. -/

theorem toDays_lt_of_year_lt {d e : Date} (hd : d.Exists) (he : e.Exists)
    (h : d.year < e.year) : d.toDays < e.toDays := by
  have hends := hd.in_year.2
  have hbegins := he.in_year.1
  have hyears := daysBeforeYear_mono (Int.add_one_le_of_lt h)
  omega

theorem toDays_lt_of_month_lt {d e : Date} (hd : d.Exists) (he : e.Exists)
    (hyear : d.year = e.year) (h : d.month < e.month) : d.toDays < e.toDays := by
  obtain ⟨hfirst, -, -, hle⟩ := hd
  obtain ⟨-, -, hday, -⟩ := he
  change d.day ≤ monthLength d.year d.month at hle
  have hsucc := daysBeforeMonth_succ d.year hfirst
  have hmonths := daysBeforeMonth_mono (isLeapYear d.year) (show d.month + 1 ≤ e.month from h)
  rw [toDays, toDays, ← hyear]
  omega

theorem toDays_injective {d e : Date} (hd : d.Exists) (he : e.Exists) (h : d.toDays = e.toDays) :
    d = e := by
  have hyear : d.year = e.year := by
    rcases Int.lt_trichotomy d.year e.year with hlt | heq | hgt
    · exact absurd h (Int.ne_of_lt (toDays_lt_of_year_lt hd he hlt))
    · exact heq
    · exact absurd h.symm (Int.ne_of_lt (toDays_lt_of_year_lt he hd hgt))
  have hmonth : d.month = e.month := by
    rcases Nat.lt_trichotomy d.month e.month with hlt | heq | hgt
    · exact absurd h (Int.ne_of_lt (toDays_lt_of_month_lt hd he hyear hlt))
    · exact heq
    · exact absurd h.symm (Int.ne_of_lt (toDays_lt_of_month_lt he hd hyear.symm hgt))
  have hday : d.day = e.day := by
    rw [toDays, toDays, hyear, hmonth] at h
    omega
  cases d
  cases e
  simp_all

theorem next_ofDays (n : Int) : (ofDays n).next = ofDays (n + 1) := by
  refine toDays_injective (exists_ofDays n).next (exists_ofDays _) ?_
  rw [toDays_next (exists_ofDays n), toDays_ofDays, toDays_ofDays]

theorem counted_ofDays (n : Int) : Counted n (ofDays n) := by
  induction n using Int.induction_on with
  | zero => exact .first
  | succ n ih => exact next_ofDays n ▸ ih.next
  | pred n ih =>
      refine .previous (exists_ofDays _) ?_
      rw [next_ofDays, Int.sub_add_cancel]
      exact ih

theorem counted_iff {n : Int} {d : Date} : Counted n d ↔ d.Exists ∧ d.toDays = n := by
  constructor
  · intro h
    induction h with
    | first => exact ⟨by decide, rfl⟩
    | next _ ih => exact ⟨ih.1.next, by rw [toDays_next ih.1, ih.2]⟩
    | previous exist _ ih =>
        have hnext := toDays_next exist
        exact ⟨exist, by omega⟩
  · rintro ⟨hexists, rfl⟩
    have hdate := toDays_injective (exists_ofDays _) hexists (toDays_ofDays d.toDays)
    have hcounted := counted_ofDays d.toDays
    rwa [hdate] at hcounted

end DiceRooms.Date
