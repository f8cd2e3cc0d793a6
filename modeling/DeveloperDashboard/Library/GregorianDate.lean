import Mathlib.Tactic.IntervalCases

namespace Library

/-!
# Dates of the Gregorian calendar

Years, months and days of the calendar extended to all years from zero on, and
the number of days from the first day of 1970.
-/

def isLeapYear (year : Nat) : Bool :=
  year % 4 == 0 && (year % 100 != 0 || year % 400 == 0)

def commonMonthDays : List Nat :=
  [31, 28, 31, 30, 31, 30, 31, 31, 30, 31, 30, 31]

def monthDays (year month : Nat) : Nat :=
  commonMonthDays.getD (month - 1) 0 +
    if month = 2 && isLeapYear year then 1 else 0

structure IsDate (year month day : Nat) : Prop where
  month_pos : 1 ≤ month
  month_le : month ≤ 12
  day_pos : 1 ≤ day
  day_le : day ≤ monthDays year month

instance (year month day : Nat) : Decidable (IsDate year month day) :=
  decidable_of_iff
    ((1 ≤ month ∧ month ≤ 12) ∧ 1 ≤ day ∧ day ≤ monthDays year month)
    ⟨fun ⟨⟨first, last⟩, dayFirst, dayLast⟩ =>
        ⟨first, last, dayFirst, dayLast⟩,
      fun date =>
        ⟨⟨date.month_pos, date.month_le⟩, date.day_pos, date.day_le⟩⟩

def daysBeforeMonth (year month : Nat) : Nat :=
  ((List.range (month - 1)).map fun before =>
    monthDays year (before + 1)).sum

def leapYearsBefore (year : Nat) : Int :=
  ((year : Int) - 1) / 4 - ((year : Int) - 1) / 100 + ((year : Int) - 1) / 400

def dayNumber (year month day : Nat) : Int :=
  365 * ((year : Int) - 1) + leapYearsBefore year +
    daysBeforeMonth year month + day - 719163

theorem dayNumber_first_next (year : Nat) :
    dayNumber (year + 1) 1 1 =
      dayNumber year 1 1 + 365 + if isLeapYear year then 1 else 0 := by
  simp only [dayNumber, leapYearsBefore, daysBeforeMonth, isLeapYear,
    List.range_zero, List.map_nil, List.sum_nil, Nat.sub_self,
    Bool.and_eq_true, Bool.or_eq_true, beq_iff_eq, bne_iff_ne]
  split
  · omega
  · omega

theorem daysBeforeMonth_add_le
    {year month : Nat} (first : 1 ≤ month) (last : month ≤ 12) :
    daysBeforeMonth year month + monthDays year month ≤
      365 + if isLeapYear year then 1 else 0 := by
  interval_cases month
  all_goals
    simp [daysBeforeMonth, monthDays, commonMonthDays, List.range_succ]
    split
  all_goals omega

theorem IsDate.dayNumber_lt_next
    {year month day : Nat} (date : IsDate year month day) :
    dayNumber year month day < dayNumber (year + 1) 1 1 := by
  have within :
      daysBeforeMonth year month + monthDays year month ≤
        365 + if isLeapYear year then 1 else 0 :=
    daysBeforeMonth_add_le date.month_pos date.month_le
  have inMonth := date.day_le
  have first : daysBeforeMonth year 1 = 0 := rfl
  rw [dayNumber_first_next]
  unfold dayNumber
  rw [first]
  split at within
  · next leap =>
      rw [if_pos leap]
      omega
  · next common =>
      rw [if_neg common]
      omega

theorem dayNumber_first_le
    (year month : Nat) {day : Nat} (positive : 1 ≤ day) :
    dayNumber year 1 1 ≤ dayNumber year month day := by
  have first : daysBeforeMonth year 1 = 0 := rfl
  unfold dayNumber
  rw [first]
  omega

theorem dayNumber_first_mono {year later : Nat} (before : year ≤ later) :
    dayNumber year 1 1 ≤ dayNumber later 1 1 := by
  induction later, before using Nat.le_induction with
  | base => exact le_refl _
  | succ later _ ih =>
    rw [dayNumber_first_next]
    split
    · omega
    · omega

theorem IsDate.dayNumber_lt_first {year month day later : Nat}
    (date : IsDate year month day) (before : year < later) :
    dayNumber year month day < dayNumber later 1 1 :=
  lt_of_lt_of_le date.dayNumber_lt_next (dayNumber_first_mono before)

theorem IsDate.dayNumber_lt {year month day later : Nat}
    (date : IsDate year month day) (before : year < later) :
    dayNumber year month day < dayNumber later month day :=
  lt_of_lt_of_le (date.dayNumber_lt_first before)
    (dayNumber_first_le later month date.day_pos)

end Library
