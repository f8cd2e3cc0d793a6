import DeveloperDashboard.Perl.TimeLocal
import DeveloperDashboard.Perl.Words

namespace DeveloperDashboard.Collector

open Perl

/-!
# Cron schedules

The fields of a cron expression as `_parse_cron_expression` returns them, and
the minutes of local time that they match.
-/

/-- The values that a field matches, and whether it is `*`. -/
structure CronField where
  values : List Nat
  wildcard : Bool
  deriving DecidableEq

structure CronFields where
  minute : CronField
  hour : CronField
  dayOfMonth : CronField
  month : CronField
  dayOfWeek : CronField
  deriving DecidableEq

/-- What `localtime` returns; the month counts from zero. -/
structure LocalTime where
  minute : Nat
  hour : Nat
  dayOfMonth : Nat
  month : Nat
  year : Nat
  dayOfWeek : Nat
  /-- the text of `%z` -/
  zone : Text
  deriving DecidableEq

def matchesDay (fields : CronFields) (now : LocalTime) : Bool :=
  let dayOfMonth := decide (now.dayOfMonth ∈ fields.dayOfMonth.values)
  let dayOfWeek := decide (now.dayOfWeek ∈ fields.dayOfWeek.values)
  if fields.dayOfMonth.wildcard && fields.dayOfWeek.wildcard then true
  else if fields.dayOfMonth.wildcard then dayOfWeek
  else if fields.dayOfWeek.wildcard then dayOfMonth
  else dayOfMonth || dayOfWeek

def matchesMinute (fields : CronFields) (now : LocalTime) : Bool :=
  decide (now.minute ∈ fields.minute.values) &&
    decide (now.hour ∈ fields.hour.values) &&
      decide (now.month + 1 ∈ fields.month.values) &&
        matchesDay fields now

def twoDigits (number : Nat) : Text :=
  if number < 10 then '0' :: (toString number).toList
  else (toString number).toList

/-- `strftime '%Y-%m-%dT%H:%M%z'`. -/
def slotStamp (now : LocalTime) : Text :=
  (toString (now.year + 1900)).toList ++ '-' :: twoDigits (now.month + 1) ++
    '-' :: twoDigits now.dayOfMonth ++ 'T' :: twoDigits now.hour ++
      ':' :: twoDigits now.minute ++ now.zone

theorem isTrue_slotStamp (now : LocalTime) :
    Perl.isTrue (slotStamp now) = true := by
  have isIn : '-' ∈ slotStamp now := by
    simp [slotStamp]
  rw [Perl.isTrue, decide_eq_true_eq]
  constructor
  · intro empty
    rw [empty] at isIn
    exact List.not_mem_nil isIn
  · intro zero
    rw [zero] at isIn
    exact absurd isIn (by decide)

/-!
# Cron expressions

`_parse_cron_expression`: five fields, each a list of items, and an item is a
value, a range, or every value, with a step behind the last two.
-/

structure CronLimits where
  minimum : Nat
  maximum : Nat
  names : List (Text × Nat)
  ordered : minimum ≤ maximum
  lettered :
    ∀ entry ∈ names,
      entry.1 ≠ [] ∧ ∀ char ∈ entry.1, char.isUpper = true

def minuteLimits : CronLimits where
  minimum := 0
  maximum := 59
  names := []
  ordered := by decide
  lettered := by simp

def hourLimits : CronLimits where
  minimum := 0
  maximum := 23
  names := []
  ordered := by decide
  lettered := by simp

def dayOfMonthLimits : CronLimits where
  minimum := 1
  maximum := 31
  names := []
  ordered := by decide
  lettered := by simp

def monthLimits : CronLimits where
  minimum := 1
  maximum := 12
  names :=
    [("JAN".toList, 1), ("FEB".toList, 2), ("MAR".toList, 3),
      ("APR".toList, 4), ("MAY".toList, 5), ("JUN".toList, 6),
      ("JUL".toList, 7), ("AUG".toList, 8), ("SEP".toList, 9),
      ("OCT".toList, 10), ("NOV".toList, 11), ("DEC".toList, 12)]
  ordered := by decide
  lettered := by simp

def dayOfWeekLimits : CronLimits where
  minimum := 0
  maximum := 7
  names :=
    [("SUN".toList, 0), ("MON".toList, 1), ("TUE".toList, 2),
      ("WED".toList, 3), ("THU".toList, 4), ("FRI".toList, 5),
      ("SAT".toList, 6)]
  ordered := by decide
  lettered := by simp

/-- The pattern `\A\d+\z`. -/
def isNumeral (token : Text) : Bool :=
  !token.isEmpty && token.all isDigit

/-- `_cron_value`. -/
def cronValue (limits : CronLimits) (token : Text) : Option Nat :=
  if token.length ≤ 3 ∧ isNumeral token = true then
    some (stringNumber token)
  else limits.names.lookup (token.map Char.toUpper)

def cronStep : Option Text → Except Text Nat
  | none => .ok 1
  | some step =>
    if 4 < step.length ∨ isNumeral step = false ∨
        stringNumber step < 1 then
      .error "step must be a positive integer".toList
    else .ok (stringNumber step)

/-- The pattern `\A([^,-]+)-([^,-]+)\z`, for a base without commas. -/
def rangeEnds? (base : Text) : Option (Text × Text) :=
  match base.splitOn '-' with
  | [first, last] =>
    if first ≠ [] ∧ last ≠ [] then some (first, last) else none
  | _ => none

/-- The first value of an item and the last one. -/
def cronSpan (limits : CronLimits) (base : Text) (stepped : Bool) :
    Except Text (Nat × Nat) :=
  if base = ['*'] then .ok (limits.minimum, limits.maximum)
  else
    match rangeEnds? base with
    | some (first, last) =>
      match cronValue limits first, cronValue limits last with
      | some start, some stop =>
        if stop < start then
          .error "range start exceeds range end".toList
        else .ok (start, stop)
      | _, _ =>
        .error "range endpoint is not a valid number or name".toList
    | none =>
      match cronValue limits base with
      | none => .error "value is not a valid number or name".toList
      | some value =>
        if stepped then
          .error "a step requires a wildcard or range".toList
        else .ok (value, value)

/-- The loop over the values of an item, for a step that is positive. -/
def steppedValues (start stop step : Nat) : List Nat :=
  List.range' start ((stop - start) / step + 1) step

def parseCronItem (limits : CronLimits) (item : Text) :
    Except Text (List Nat) :=
  if item = [] then .error "empty list item".toList
  else
    let parts := item.splitOn '/'
    if 2 < parts.length then .error "multiple step separators".toList
    else do
      let step ← cronStep parts[1]?
      let span ← cronSpan limits (parts.headD []) (decide ('/' ∈ item))
      if span.1 < limits.minimum ∨ limits.maximum < span.2 then
        .error "value is outside the field limits".toList
      else .ok (steppedValues span.1 span.2 step)

/-- `_parse_cron_field`. -/
def parseCronField (limits : CronLimits) (spec : Text) :
    Except Text (List Nat) :=
  if spec = [] then .error "field is empty".toList
  else do
    let items ← (spec.splitOn ',').mapM (parseCronItem limits)
    .ok items.flatten

def cronField (number : Nat) (limits : CronLimits) (spec : Text) :
    Except Text CronField :=
  match parseCronField limits spec with
  | .error reason =>
    .error ("field ".toList ++ (toString number).toList ++ " (".toList ++
      spec ++ "): ".toList ++ reason)
  | .ok values => .ok ⟨values, decide (spec = ['*'])⟩

/-- `delete $set->{7}`, which sets the value 0. -/
def aliasSunday (field : CronField) : CronField :=
  if 7 ∈ field.values then
    { field with values := 0 :: field.values.filter (· ≠ 7) }
  else field

/-- `_parse_cron_expression`. -/
def parseCronExpression (expr : Option Text) : Except Text CronFields :=
  match expr with
  | none => .error "expression is missing".toList
  | some expr =>
    if expr.all isSpace then .error "expression is missing".toList
    else if 256 < expr.length then
      .error "expression is longer than 256 characters".toList
    else
      match splitSpaces (trim expr) with
      | [minute, hour, dayOfMonth, month, dayOfWeek] => do
          let minute ← cronField 1 minuteLimits minute
          let hour ← cronField 2 hourLimits hour
          let dayOfMonth ← cronField 3 dayOfMonthLimits dayOfMonth
          let month ← cronField 4 monthLimits month
          let dayOfWeek ← cronField 5 dayOfWeekLimits dayOfWeek
          .ok ⟨minute, hour, dayOfMonth, month, aliasSunday dayOfWeek⟩
      | _ => .error "expected exactly five fields".toList

theorem mem_steppedValues_iff {start stop step value : Nat}
    (ordered : start ≤ stop) (positive : 0 < step) :
    value ∈ steppedValues start stop step ↔
      value ≤ stop ∧ ∃ count, value = start + step * count := by
  unfold steppedValues
  rw [List.mem_range']
  constructor
  · rintro ⟨count, small, rfl⟩
    have within := Nat.mul_le_of_le_div _ _ _ (Nat.le_of_lt_succ small)
    rw [Nat.mul_comm] at within
    exact ⟨by omega, count, rfl⟩
  · rintro ⟨small, count, rfl⟩
    refine ⟨count, Nat.lt_succ_of_le ?_, rfl⟩
    rw [Nat.le_div_iff_mul_le positive, Nat.mul_comm]
    omega

end DeveloperDashboard.Collector
