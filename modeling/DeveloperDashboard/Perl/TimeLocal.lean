import DeveloperDashboard.Library.GregorianDate
import DeveloperDashboard.Perl.Text

namespace DeveloperDashboard.Perl

open Library

/-!
# `Time::Local`

`timegm` checks the ranges of its arguments, dies when one is out of range,
and counts the days with months that begin in March.  Years below 1000 are
counted from 1900, those below 100 within fifty years of the present.
-/

/-- The number of a string: Perl reads the ASCII digits in front of it. -/
def stringNumber (text : Text) : Nat :=
  (text.takeWhile Char.isDigit).foldl
    (fun value digit => 10 * value + (digit.toNat - 48)) 0

/--
The calendar year of an argument.  `thisYear` is the present year, counted
from 1900.
-/
def calendarYear (thisYear year : Nat) : Nat :=
  let breakpoint := (thisYear + 50) % 100
  let nextCentury :=
    thisYear - thisYear % 100 + if breakpoint < 50 then 100 else 0
  let century := nextCentury - 100
  if 1000 ≤ year then year
  else if year < 100 then
    1900 + year + if breakpoint < year then century else nextCentury
  else 1900 + year

/-- `_daygm`: the days from the first day of 1970. -/
def dayGm (mday month year : Nat) : Int :=
  let march := (month + 10) % 12
  let year := year - march / 10
  (mday + 365 * year + year / 4 - year / 100 + year / 400 +
    (march * 306 + 5) / 10 : Nat) - 719469

def outOfRange (kind given range : String) : Text :=
  (kind ++ " '" ++ given ++ "' out of range " ++ range).toList

/-- `timegm`; the month counts from zero. -/
def timegm (thisYear : Nat) (second minute hour mday : Text) (month : Int)
    (year : Text) :
    Except Text Int :=
  let calendar := calendarYear thisYear (stringNumber year)
  let days := monthDays calendar (month.toNat + 1)
  if month < 0 ∨ 11 < month then
    .error (outOfRange "Month" (toString month) "0..11")
  else if days < stringNumber mday ∨ stringNumber mday < 1 then
    .error
      (outOfRange "Day" (String.ofList mday) ("1.." ++ toString days))
  else if 23 < stringNumber hour then
    .error (outOfRange "Hour" (String.ofList hour) "0..23")
  else if 59 < stringNumber minute then
    .error (outOfRange "Minute" (String.ofList minute) "0..59")
  else if 60 ≤ stringNumber second then
    .error (outOfRange "Second" (String.ofList second) "0..59")
  else
    .ok
      (stringNumber second + 60 * stringNumber minute +
        3600 * stringNumber hour +
        86400 * dayGm (stringNumber mday) month.toNat calendar)

theorem isDigit_of_mem_repr {number : Nat} {char : Char}
    (member : char ∈ (Nat.repr number).toList) :
    char.isDigit = true ∧ isDigit char = true := by
  rw [Nat.toList_repr] at member
  have ascii :=
    Nat.isDigit_of_mem_toDigits (by decide : 0 < 10) (by decide) member
  refine ⟨ascii, ?_⟩
  have bounds : 48 ≤ char.toNat ∧ char.toNat ≤ 57 := by
    simpa [Char.isDigit, UInt32.le_iff_toNat_le] using ascii
  rw [isDigit, decimalZeros, List.any_cons, Bool.or_eq_true]
  left
  rw [decide_eq_true_eq]
  exact bounds

theorem stringNumber_repr (number : Nat) :
    stringNumber (Nat.repr number).toList = number := by
  have digits :
      ((Nat.repr number).toList).takeWhile Char.isDigit =
        (Nat.repr number).toList := by
    rw [List.takeWhile_eq_self_iff]
    exact fun char member => (isDigit_of_mem_repr member).1
  rw [stringNumber, digits, Nat.toList_repr]
  clear digits
  induction number using Nat.strong_induction_on with
  | _ number ih =>
    by_cases small : number < 10
    · rw [Nat.toDigits_of_lt_base small, List.foldl_cons, List.foldl_nil,
        Nat.toNat_digitChar_sub_48_of_lt_ten small]
      omega
    · have least : number % 10 < 10 := Nat.mod_lt _ (by decide)
      rw [Nat.toDigits_of_base_le (by decide) (Nat.le_of_not_lt small),
        List.foldl_append, ih (number / 10) (by omega),
        List.foldl_cons, List.foldl_nil,
        Nat.toNat_digitChar_sub_48_of_lt_ten least]
      omega

variable {year : Nat}

theorem calendarYear_of_le (late : 1000 ≤ year) (thisYear : Nat) :
    calendarYear thisYear year = year :=
  if_pos late

theorem leapYears_eq (positive : 0 < year) :
    (((year - 1) / 4 : Nat) : Int) - ((year - 1) / 100 : Nat) +
        ((year - 1) / 400 : Nat) = leapYearsBefore year ∧
      ((year / 4 : Nat) : Int) - (year / 100 : Nat) + (year / 400 : Nat) =
        leapYearsBefore year + if isLeapYear year then 1 else 0 := by
  constructor
  · unfold leapYearsBefore
    omega
  · simp only [leapYearsBefore, isLeapYear, Bool.and_eq_true,
      Bool.or_eq_true, beq_iff_eq, bne_iff_ne]
    split
    · omega
    · omega

theorem daysBeforeMonth_eq
    {month : Nat} (first : 1 ≤ month) (last : month ≤ 12) :
    daysBeforeMonth year month =
      [0, 31, 59, 90, 120, 151, 181, 212, 243, 273, 304, 334].getD
          (month - 1) 0 +
        if 2 < month ∧ isLeapYear year = true then 1 else 0 := by
  interval_cases month
  all_goals
    simp [daysBeforeMonth, monthDays, commonMonthDays, List.range_succ]
  all_goals
    split
    · rfl
    · rfl

theorem dayGm_eq_dayNumber {month day : Nat} (positive : 0 < year)
    (first : 1 ≤ month) (last : month ≤ 12) :
    dayGm day (month - 1) year = dayNumber year month day := by
  obtain ⟨january, march⟩ := leapYears_eq positive
  have early : (year - 1) / 100 ≤ (year - 1) / 4 := by
    omega
  have late : year / 100 ≤ year / 4 := by
    omega
  rw [dayNumber, daysBeforeMonth_eq first last]
  generalize leapYearsBefore year = leaps at january march ⊢
  by_cases leap : isLeapYear year = true
  · rw [if_pos leap] at march
    interval_cases month
    all_goals
      simp [dayGm, leap]
      omega
  · rw [if_neg leap] at march
    interval_cases month
    all_goals
      simp [dayGm, leap]
      omega

end DeveloperDashboard.Perl
