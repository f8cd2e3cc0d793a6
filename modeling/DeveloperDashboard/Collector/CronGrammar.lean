import DeveloperDashboard.Collector.CronExpression
import DeveloperDashboard.Library.Joined
import DeveloperDashboard.Perl.Encoding
import Mathlib.Data.List.Forall2

namespace DeveloperDashboard.Collector

open Library Perl

/-!
# The grammar of cron expressions

What the five fields of a crontab line look like, which values they stand for
and which days they choose; the parser accepts these lines and no others, and
its fields hold these values.
-/

/-- How many digits a value and a step may have; `none` for any number. -/
structure NumeralLengths where
  value : Option Nat
  step : Option Nat

def parsedLengths : NumeralLengths where
  value := some 3
  step := some 4

def anyLengths : NumeralLengths where
  value := none
  step := none

structure IsNumeral (limit : Option Nat) (token : Text) : Prop where
  nonempty : token ≠ []
  digits : ∀ char ∈ token, char.isDigit = true
  short : ∀ bound ∈ limit, token.length ≤ bound

/-- A value of a field: a numeral or a name, within the bounds. -/
structure WritesValue
    (lengths : NumeralLengths) (limits : CronLimits)
    (token : Text) (value : Nat) : Prop where
  written :
    IsNumeral lengths.value token ∧ stringNumber token = value ∨
      limits.names.lookup (token.map Char.toUpper) = some value
  low : limits.minimum ≤ value
  high : value ≤ limits.maximum

/-- The end of an item: nothing, or a slash and a step. -/
inductive WritesStep (lengths : NumeralLengths) :
    Text → Option Nat → Prop where
  | absent : WritesStep lengths [] none
  | given {numeral : Text} :
      IsNumeral lengths.step numeral →
      1 ≤ stringNumber numeral →
      stringNumber numeral ≤ 9999 →
      WritesStep lengths ('/' :: numeral) (some (stringNumber numeral))

inductive CronItem where
  | value (number : Nat)
  | every (step : Option Nat)
  | range (first last : Nat) (step : Option Nat)
  deriving DecidableEq

/-- The text of an item: `a`, `*[/n]` or `a-b[/n]`. -/
inductive WritesItem (lengths : NumeralLengths) (limits : CronLimits) :
    Text → CronItem → Prop where
  | value {token : Text} {number : Nat} :
      WritesValue lengths limits token number →
      WritesItem lengths limits token (.value number)
  | every {tail : Text} {step : Option Nat} :
      WritesStep lengths tail step →
      WritesItem lengths limits ('*' :: tail) (.every step)
  | range {first last tail : Text} {start stop : Nat}
      {step : Option Nat} :
      WritesValue lengths limits first start →
      WritesValue lengths limits last stop →
      start ≤ stop →
      WritesStep lengths tail step →
      WritesItem lengths limits (first ++ '-' :: (last ++ tail))
        (.range start stop step)

namespace CronItem

def first (limits : CronLimits) : CronItem → Nat
  | value number => number
  | every _ => limits.minimum
  | range start _ _ => start

def last (limits : CronLimits) : CronItem → Nat
  | value number => number
  | every _ => limits.maximum
  | range _ stop _ => stop

def step : CronItem → Nat
  | value _ => 1
  | every step => step.getD 1
  | range _ _ step => step.getD 1

/-- An item stands for its first value and each step from it to the last. -/
def Denotes (limits : CronLimits) (item : CronItem) (value : Nat) : Prop :=
  value ≤ item.last limits ∧
    ∃ count, value = item.first limits + item.step * count

end CronItem

def WritesList (lengths : NumeralLengths) (limits : CronLimits)
    (text : Text) (items : List CronItem) : Prop :=
  ∃ texts,
    texts ≠ [] ∧ text = [','].intercalate texts ∧
      List.Forall₂ (WritesItem lengths limits) texts items

def ListDenotes
    (limits : CronLimits) (items : List CronItem) (value : Nat) : Prop :=
  ∃ item ∈ items, item.Denotes limits value

structure Crontab where
  minute : List CronItem
  hour : List CronItem
  dayOfMonth : List CronItem
  month : List CronItem
  dayOfWeek : List CronItem

/-- A line of at most 256 characters: five lists with space around them. -/
def WritesCrontab
    (lengths : NumeralLengths) (expr : Text) (table : Crontab) : Prop :=
  expr.length ≤ 256 ∧
    ∃ minute hour dayOfMonth month dayOfWeek,
      HasWords expr [minute, hour, dayOfMonth, month, dayOfWeek] ∧
        WritesList lengths minuteLimits minute table.minute ∧
        WritesList lengths hourLimits hour table.hour ∧
        WritesList lengths dayOfMonthLimits dayOfMonth table.dayOfMonth ∧
        WritesList lengths monthLimits month table.month ∧
        WritesList lengths dayOfWeekLimits dayOfWeek table.dayOfWeek

namespace Crontab

def DenotesDayOfWeek (table : Crontab) (day : Nat) : Prop :=
  ∃ value,
    ListDenotes dayOfWeekLimits table.dayOfWeek value ∧
      day = if value = 7 then 0 else value

/-- The field is `*`. -/
def IsStar (items : List CronItem) : Prop :=
  items = [.every none]

def MatchesDay (table : Crontab) (now : LocalTime) : Prop :=
  let month := ListDenotes monthLimits table.month (now.month + 1)
  let dayOfMonth :=
    ListDenotes dayOfMonthLimits table.dayOfMonth now.dayOfMonth
  let dayOfWeek := table.DenotesDayOfWeek now.dayOfWeek
  month ∧
    (IsStar table.dayOfMonth → IsStar table.dayOfWeek →
      dayOfMonth ∧ dayOfWeek) ∧
    (IsStar table.dayOfMonth → ¬IsStar table.dayOfWeek → dayOfWeek) ∧
    (¬IsStar table.dayOfMonth → IsStar table.dayOfWeek → dayOfMonth) ∧
    (¬IsStar table.dayOfMonth → ¬IsStar table.dayOfWeek →
      dayOfMonth ∨ dayOfWeek)

end Crontab

variable {char : Char}

theorem isDigit_iff_of_ascii (ascii : isAscii char = true) :
    Perl.isDigit char = true ↔ char.isDigit = true := by
  refine ⟨fun digit => ?_, isDigit_of_ascii⟩
  rw [Char.isDigit_iff_toNat]
  obtain ⟨first, isIn, inRun⟩ := List.any_eq_true.mp digit
  have small := of_decide_eq_true ascii
  have run := of_decide_eq_true inRun
  have runs : ∀ other ∈ decimalZeros, other = 0x30 ∨ 0x80 ≤ other := by
    decide
  rcases runs first isIn with rfl | large
  · exact run
  · omega

variable {token : Text}

theorem isNumeral_iff (ascii : ∀ char ∈ token, isAscii char = true) :
    isNumeral token = true ↔ IsNumeral none token := by
  unfold isNumeral
  rw [Bool.and_eq_true, Bool.not_eq_true', List.isEmpty_eq_false_iff,
    List.all_eq_true]
  constructor
  · rintro ⟨nonempty, digits⟩
    refine ⟨nonempty, fun char isIn => ?_, by simp⟩
    exact (isDigit_iff_of_ascii (ascii char isIn)).mp (digits char isIn)
  · intro numeral
    exact ⟨numeral.nonempty,
      fun char isIn => isDigit_of_ascii (numeral.digits char isIn)⟩

theorem isNumeral_some_iff {limit : Nat} :
    IsNumeral (some limit) token ↔
      token.length ≤ limit ∧ IsNumeral none token := by
  constructor
  · intro numeral
    exact ⟨numeral.short limit rfl, numeral.nonempty, numeral.digits,
      by simp⟩
  · rintro ⟨short, numeral⟩
    refine ⟨numeral.nonempty, numeral.digits, fun bound isBound => ?_⟩
    rw [← Option.some_inj.mp isBound]
    exact short

theorem isUpper_toUpper_of_low (low : char.toNat < 65) :
    char.toUpper.isUpper = false := by
  have same : char.toUpper = char := by
    unfold Char.toUpper
    split
    · next lower =>
        have least : 97 ≤ char.toNat := UInt32.le_iff_toNat_le.mp lower.1
        omega
    · rfl
  rw [same]
  refine decide_eq_false fun upper => ?_
  have least : 65 ≤ char.toNat := UInt32.le_iff_toNat_le.mp upper.1
  omega

variable {value : Nat}

theorem mem_of_lookup {names : List (Text × Nat)} {name : Text}
    (found : names.lookup name = some value) :
    (name, value) ∈ names := by
  obtain ⟨before, after, same, -⟩ := List.lookup_eq_some_iff.mp found
  rw [same]
  exact List.mem_append_right _ List.mem_cons_self

variable {limits : CronLimits}

theorem not_mem_of_lookup
    (found : limits.names.lookup (token.map Char.toUpper) = some value)
    (low : char.toNat < 65) :
    char ∉ token := by
  intro isIn
  have upper := (limits.lettered _ (mem_of_lookup found)).2 char.toUpper
    (List.mem_map_of_mem isIn)
  rw [isUpper_toUpper_of_low low] at upper
  contradiction

theorem lookup_of_isNumeral (limits : CronLimits) {limit : Option Nat}
    (numeral : IsNumeral limit token) :
    limits.names.lookup (token.map Char.toUpper) = none := by
  cases found : limits.names.lookup (token.map Char.toUpper) with
  | none => rfl
  | some value =>
    obtain ⟨char, isIn⟩ := List.exists_mem_of_ne_nil _ numeral.nonempty
    have digit : 48 ≤ char.toNat ∧ char.toNat ≤ 57 :=
      Char.isDigit_iff_toNat.mp (numeral.digits char isIn)
    exact absurd isIn (not_mem_of_lookup found (by omega))

theorem cronValue_eq_some_iff (ascii : ∀ char ∈ token, isAscii char = true) :
    cronValue limits token = some value ↔
      IsNumeral parsedLengths.value token ∧ stringNumber token = value ∨
        limits.names.lookup (token.map Char.toUpper) = some value := by
  unfold cronValue
  have numeral :
      token.length ≤ 3 ∧ isNumeral token = true ↔
        IsNumeral parsedLengths.value token := by
    rw [isNumeral_iff ascii]
    exact isNumeral_some_iff.symm
  by_cases holds : token.length ≤ 3 ∧ isNumeral token = true
  · rw [if_pos holds, lookup_of_isNumeral limits (numeral.mp holds)]
    have isNumeral := numeral.mp holds
    simp [isNumeral]
  · rw [if_neg holds]
    have not : ¬IsNumeral parsedLengths.value token := mt numeral.mpr holds
    simp [not]

theorem writesValue_iff (ascii : ∀ char ∈ token, isAscii char = true) :
    WritesValue parsedLengths limits token value ↔
      cronValue limits token = some value ∧
        limits.minimum ≤ value ∧ value ≤ limits.maximum := by
  rw [cronValue_eq_some_iff ascii]
  exact ⟨fun writes => ⟨writes.written, writes.low, writes.high⟩,
    fun holds => ⟨holds.1, holds.2.1, holds.2.2⟩⟩

variable {lengths : NumeralLengths}

theorem WritesValue.not_mem (writes : WritesValue lengths limits token value)
    (low : char.toNat < 48) :
    char ∉ token := by
  intro isIn
  rcases writes.written with ⟨numeral, -⟩ | found
  · have digit : 48 ≤ char.toNat ∧ char.toNat ≤ 57 :=
      Char.isDigit_iff_toNat.mp (numeral.digits char isIn)
    omega
  · exact not_mem_of_lookup found (by omega) isIn

theorem WritesValue.ne_nil
    (writes : WritesValue lengths limits token value) :
    token ≠ [] := by
  rintro rfl
  rcases writes.written with ⟨numeral, -⟩ | found
  · exact numeral.nonempty rfl
  · exact (limits.lettered _ (mem_of_lookup found)).1 rfl

theorem cronStep_of_writesStep {tail : Text} {step : Option Nat}
    (writes : WritesStep parsedLengths tail step) :
    ∃ given,
      cronStep given = .ok (step.getD 1) ∧ 0 < step.getD 1 ∧
        tail = (given.map fun numeral => '/' :: numeral).getD [] ∧
        (∀ numeral ∈ given, '/' ∉ numeral) := by
  cases writes with
  | absent => exact ⟨none, rfl, Nat.one_pos, rfl, by simp⟩
  | @given numeral isNumeral positive small =>
    refine ⟨some numeral, ?_, positive, rfl, ?_⟩
    · have short := isNumeral.short 4 rfl
      have digits : Collector.isNumeral numeral = true := by
        have filled := List.isEmpty_eq_false_iff.mpr isNumeral.nonempty
        rw [Collector.isNumeral, filled, Bool.not_false, Bool.true_and,
          List.all_eq_true]
        exact fun char isIn =>
          isDigit_of_ascii (isNumeral.digits char isIn)
      rw [cronStep, if_neg]
      · rfl
      · rw [digits]
        rintro (long | wrong | zero)
        · omega
        · contradiction
        · omega
    · intro other same
      rw [← Option.some_inj.mp same]
      intro isIn
      have := isNumeral.digits '/' isIn
      contradiction

theorem stringNumber_le {numeral : Text}
    (digits : ∀ char ∈ numeral, char.isDigit = true)
    (short : numeral.length ≤ 4) :
    stringNumber numeral ≤ 9999 := by
  have small : ∀ char ∈ numeral, char.toNat - 48 ≤ 9 := by
    intro char isIn
    have digit : 48 ≤ char.toNat ∧ char.toNat ≤ 57 :=
      Char.isDigit_iff_toNat.mp (digits char isIn)
    omega
  rw [stringNumber, List.takeWhile_eq_self_iff.mpr digits]
  rcases numeral with _ | ⟨a, _ | ⟨b, _ | ⟨c, _ | ⟨d, _ | ⟨e, rest⟩⟩⟩⟩⟩
  · exact Nat.zero_le _
  · have one := small a (by simp)
    simp only [List.foldl_cons, List.foldl_nil]
    omega
  · have one := small a (by simp)
    have two := small b (by simp)
    simp only [List.foldl_cons, List.foldl_nil]
    omega
  · have one := small a (by simp)
    have two := small b (by simp)
    have three := small c (by simp)
    simp only [List.foldl_cons, List.foldl_nil]
    omega
  · have one := small a (by simp)
    have two := small b (by simp)
    have three := small c (by simp)
    have four := small d (by simp)
    simp only [List.foldl_cons, List.foldl_nil]
    omega
  · simp only [List.length_cons] at short
    omega

variable {given : Option Text}

theorem writesStep_of_cronStep {step : Nat}
    (ascii : ∀ numeral ∈ given, ∀ char ∈ numeral, isAscii char = true)
    (read : cronStep given = .ok step) :
    ∃ written,
      WritesStep parsedLengths
        ((given.map fun numeral => '/' :: numeral).getD []) written ∧
        written.getD 1 = step := by
  cases given with
  | none =>
    injection read with same
    exact ⟨none, WritesStep.absent, same⟩
  | some numeral =>
    rw [cronStep] at read
    split at read
    · contradiction
    · next fine =>
        rw [not_or, not_or, Bool.not_eq_false] at fine
        injection read with same
        have digits :=
          (isNumeral_iff (ascii numeral rfl)).mp fine.2.1
        have short : numeral.length ≤ 4 := Nat.le_of_not_lt fine.1
        refine ⟨some (stringNumber numeral), ?_, same⟩
        refine WritesStep.given
          (isNumeral_some_iff.mpr ⟨short, digits⟩) (by omega) ?_
        exact stringNumber_le digits.digits short

variable {base : Text}

theorem rangeEnds?_eq_some_iff {first last : Text} :
    rangeEnds? base = some (first, last) ↔
      base = first ++ '-' :: last ∧ first ≠ [] ∧ last ≠ [] ∧
        '-' ∉ first ∧ '-' ∉ last := by
  unfold rangeEnds?
  constructor
  · intro ends
    split at ends
    · next one other parts =>
        split at ends
        · next nonempty =>
            cases ends
            have joined : ['-'].intercalate (base.splitOn '-') = base :=
              List.intercalate_splitOn '-'
            rw [parts, Joined.intercalate_cons_cons,
              List.intercalate_singleton] at joined
            exact ⟨joined.symm, nonempty.1, nonempty.2,
              Joined.not_mem_of_mem_splitOn
                (parts ▸ List.mem_cons_self),
              Joined.not_mem_of_mem_splitOn
                (parts ▸ List.mem_cons_of_mem _ List.mem_cons_self)⟩
        · contradiction
    · contradiction
  · rintro ⟨rfl, firstFilled, lastFilled, firstPlain, lastPlain⟩
    rw [List.splitOn_append_cons_self, List.splitOn_eq_singleton firstPlain,
      List.splitOn_eq_singleton lastPlain]
    exact if_pos ⟨firstFilled, lastFilled⟩

theorem splitOn_of_base
    (plain : '/' ∉ base) (single : ∀ numeral ∈ given, '/' ∉ numeral) :
    (base ++ (given.map fun numeral => '/' :: numeral).getD []).splitOn
        '/' = base :: given.toList := by
  cases given with
  | none =>
    rw [Option.map_none, Option.getD_none, List.append_nil,
      List.splitOn_eq_singleton plain]
    rfl
  | some numeral =>
    rw [Option.map_some, Option.getD_some, List.splitOn_append_cons_self,
      List.splitOn_eq_singleton plain,
      List.splitOn_eq_singleton (single numeral rfl)]
    rfl

theorem parseCronItem_of_base (limits : CronLimits)
    (plain : '/' ∉ base) (single : ∀ numeral ∈ given, '/' ∉ numeral)
    (filled :
      base ++ (given.map fun numeral => '/' :: numeral).getD [] ≠ []) :
    parseCronItem limits
        (base ++ (given.map fun numeral => '/' :: numeral).getD []) =
      (do
        let step ← cronStep given
        let span ← cronSpan limits base given.isSome
        if span.1 < limits.minimum ∨ limits.maximum < span.2 then
          .error "value is outside the field limits".toList
        else .ok (steppedValues span.1 span.2 step)) := by
  unfold parseCronItem
  have slash :
      decide ('/' ∈
          base ++ (given.map fun numeral => '/' :: numeral).getD []) =
        given.isSome := by
    cases given with
    | none => simpa using plain
    | some numeral => simp
  rw [if_neg filled, splitOn_of_base plain single, slash]
  cases given with
  | none => rfl
  | some numeral => rfl

/-- A value is its own first and last. -/
theorem cronSpan_value (ascii : ∀ char ∈ token, isAscii char = true)
    (writes : WritesValue parsedLengths limits token value) :
    cronSpan limits token false = .ok (value, value) := by
  have notStar : token ≠ ['*'] := by
    rintro rfl
    exact writes.not_mem (by decide) List.mem_cons_self
  have noRange : rangeEnds? token = none := by
    cases ends : rangeEnds? token with
    | none => rfl
    | some pair =>
      have shape := (rangeEnds?_eq_some_iff.mp ends).1
      have none : '-' ∉ token := writes.not_mem (by decide)
      refine absurd ?_ none
      rw [shape]
      exact List.mem_append_right _ List.mem_cons_self
  rw [cronSpan, if_neg notStar]
  simp only [noRange, ((writesValue_iff ascii).mp writes).1]
  rfl

theorem cronSpan_range {first last : Text} {start stop : Nat}
    (ascii : ∀ char ∈ first ++ '-' :: last, isAscii char = true)
    (starts : WritesValue parsedLengths limits first start)
    (stops : WritesValue parsedLengths limits last stop)
    (ordered : start ≤ stop) (stepped : Bool) :
    cronSpan limits (first ++ '-' :: last) stepped =
      .ok (start, stop) := by
  have notStar : first ++ '-' :: last ≠ ['*'] := by
    intro same
    have isIn : '-' ∈ ['*'] := by
      rw [← same]
      exact List.mem_append_right _ List.mem_cons_self
    simp at isIn
  have ends : rangeEnds? (first ++ '-' :: last) = some (first, last) :=
    rangeEnds?_eq_some_iff.mpr ⟨rfl, starts.ne_nil, stops.ne_nil,
      starts.not_mem (by decide), stops.not_mem (by decide)⟩
  have firstAscii : ∀ char ∈ first, isAscii char = true :=
    fun char isIn => ascii char (List.mem_append_left _ isIn)
  have lastAscii : ∀ char ∈ last, isAscii char = true :=
    fun char isIn =>
      ascii char (List.mem_append_right _ (List.mem_cons_of_mem _ isIn))
  rw [cronSpan, if_neg notStar]
  simp only [ends, ((writesValue_iff firstAscii).mp starts).1,
    ((writesValue_iff lastAscii).mp stops).1]
  exact if_neg (Nat.not_lt.mpr ordered)

theorem cronSpan_cases {stepped : Bool} {start stop : Nat}
    (found : cronSpan limits base stepped = .ok (start, stop)) :
    (base = ['*'] ∧ start = limits.minimum ∧ stop = limits.maximum) ∨
      (∃ first last, rangeEnds? base = some (first, last) ∧
          cronValue limits first = some start ∧
          cronValue limits last = some stop ∧ start ≤ stop) ∨
      (stepped = false ∧ cronValue limits base = some start ∧
        stop = start) := by
  unfold cronSpan at found
  split at found
  · next star =>
      cases found
      exact Or.inl ⟨star, rfl, rfl⟩
  · split at found
    · next first last ends =>
        split at found
        · next one other firstValue lastValue =>
            split at found
            · contradiction
            · next ordered =>
                cases found
                exact Or.inr (Or.inl ⟨first, last, ends, firstValue,
                  lastValue, Nat.le_of_not_lt ordered⟩)
        · contradiction
    · split at found
      · contradiction
      · next value isValue =>
          split at found
          · contradiction
          · next plain =>
              cases found
              exact Or.inr (Or.inr
                ⟨Bool.eq_false_iff.mpr plain, isValue, rfl⟩)

variable {text : Text} {item : CronItem}

theorem parseCronItem_of_writesItem
    (ascii : ∀ char ∈ text, isAscii char = true)
    (writes : WritesItem parsedLengths limits text item) :
    parseCronItem limits text =
        .ok (steppedValues (item.first limits) (item.last limits)
          item.step) ∧
      item.first limits ≤ item.last limits ∧ 0 < item.step := by
  cases writes with
  | @value token number writes =>
    have plain : '/' ∉ text := writes.not_mem (by decide)
    have single : ∀ numeral ∈ (none : Option Text), '/' ∉ numeral := by
      simp
    have read := parseCronItem_of_base limits plain single
      (by simpa using writes.ne_nil)
    simp only [Option.map_none, Option.getD_none, List.append_nil,
      Option.isSome_none, cronStep, cronSpan_value ascii writes] at read
    refine ⟨read.trans ?_, Nat.le_refl _, Nat.one_pos⟩
    exact if_neg (not_or.mpr
      ⟨Nat.not_lt.mpr writes.low, Nat.not_lt.mpr writes.high⟩)
  | @every tail step writes =>
    obtain ⟨given, steps, positive, rfl, single⟩ :=
      cronStep_of_writesStep writes
    have plain : '/' ∉ ['*'] := by simp
    have read := parseCronItem_of_base limits plain single
      (List.cons_ne_nil _ _)
    refine ⟨read.trans ?_, limits.ordered, positive⟩
    rw [steps]
    exact if_neg (not_or.mpr ⟨Nat.lt_irrefl _, Nat.lt_irrefl _⟩)
  | @range first last tail start stop step starts stops ordered writes =>
    obtain ⟨given, steps, positive, rfl, single⟩ :=
      cronStep_of_writesStep writes
    have plain : '/' ∉ first ++ '-' :: last := by
      rw [List.mem_append, List.mem_cons]
      rintro (isFirst | same | isLast)
      · exact starts.not_mem (by decide) isFirst
      · simp at same
      · exact stops.not_mem (by decide) isLast
    have read := parseCronItem_of_base limits plain single (by simp)
    have whole :
        first ++ '-' ::
            (last ++ (given.map fun numeral => '/' :: numeral).getD []) =
          first ++ '-' :: last ++
            (given.map fun numeral => '/' :: numeral).getD [] := by
      simp
    rw [whole] at ascii ⊢
    have span := cronSpan_range
      (fun char isIn => ascii char (List.mem_append_left _ isIn))
      starts stops ordered given.isSome
    refine ⟨read.trans ?_, ordered, positive⟩
    rw [steps, span]
    exact if_neg (not_or.mpr
      ⟨Nat.not_lt.mpr starts.low, Nat.not_lt.mpr stops.high⟩)

variable {values : List Nat}

/-- An item that is not empty has a base, and at most one slash. -/
theorem exists_base_of_parseCronItem
    (read : parseCronItem limits text = .ok values) :
    ∃ base given,
      text = base ++
          ((given : Option Text).map fun numeral =>
            '/' :: numeral).getD [] ∧
        '/' ∉ base ∧ (∀ numeral ∈ given, '/' ∉ numeral) := by
  have joined : ['/'].intercalate (text.splitOn '/') = text :=
    List.intercalate_splitOn '/'
  have plain : ∀ part ∈ text.splitOn '/', '/' ∉ part :=
    fun part isIn => Joined.not_mem_of_mem_splitOn isIn
  unfold parseCronItem at read
  split at read
  · contradiction
  · simp only at read
    split at read
    · contradiction
    · next few =>
        rcases parts : text.splitOn '/' with
          _ | ⟨base, _ | ⟨numeral, _ | ⟨third, rest⟩⟩⟩
        · exact absurd parts (List.splitOn_ne_nil '/' text)
        · rw [parts] at joined plain
          rw [List.intercalate_singleton] at joined
          refine ⟨base, none, ?_, plain base List.mem_cons_self, by simp⟩
          rw [Option.map_none, Option.getD_none, List.append_nil, joined]
        · rw [parts] at joined plain
          rw [Joined.intercalate_cons_cons,
            List.intercalate_singleton] at joined
          refine ⟨base, some numeral, joined.symm,
            plain base List.mem_cons_self, fun other same => ?_⟩
          rw [← Option.some_inj.mp same]
          exact plain numeral (List.mem_cons_of_mem _ List.mem_cons_self)
        · rw [parts] at few
          simp at few

theorem exists_writesItem_of_parseCronItem
    (ascii : ∀ char ∈ text, isAscii char = true)
    (read : parseCronItem limits text = .ok values) :
    ∃ item, WritesItem parsedLengths limits text item := by
  obtain ⟨base, given, rfl, plain, single⟩ :=
    exists_base_of_parseCronItem read
  have baseAscii : ∀ char ∈ base, isAscii char = true :=
    fun char isIn => ascii char (List.mem_append_left _ isIn)
  have givenAscii :
      ∀ numeral ∈ given, ∀ char ∈ numeral, isAscii char = true := by
    rintro numeral same char isIn
    refine ascii char (List.mem_append_right _ ?_)
    rw [Option.mem_def.mp same]
    exact List.mem_cons_of_mem _ isIn
  have filled :
      base ++ (given.map fun numeral => '/' :: numeral).getD [] ≠ [] := by
    intro empty
    rw [empty] at read
    contradiction
  rw [parseCronItem_of_base limits plain single filled] at read
  cases steps : cronStep given with
  | error reason =>
    rw [steps] at read
    contradiction
  | ok step =>
    obtain ⟨written, writesStep, -⟩ :=
      writesStep_of_cronStep givenAscii steps
    cases found : cronSpan limits base given.isSome with
    | error reason =>
      rw [steps, found] at read
      contradiction
    | ok span =>
      rw [steps, found] at read
      have inBounds :
          limits.minimum ≤ span.1 ∧ span.2 ≤ limits.maximum := by
        by_contra out
        have outside :
            span.1 < limits.minimum ∨ limits.maximum < span.2 := by
          omega
        have refused :
            (Except.error "value is outside the field limits".toList :
              Except Text (List Nat)) = .ok values :=
          (if_pos outside).symm.trans read
        contradiction
      rcases cronSpan_cases found with
        ⟨rfl, -, -⟩ | ⟨first, last, ends, starts, stops, ordered⟩ |
          ⟨unstepped, isValue, same⟩
      · exact ⟨_, WritesItem.every writesStep⟩
      · obtain ⟨rfl, -, -, -, -⟩ := rangeEnds?_eq_some_iff.mp ends
        have firstAscii : ∀ char ∈ first, isAscii char = true :=
          fun char isIn =>
            baseAscii char (List.mem_append_left _ isIn)
        have lastAscii : ∀ char ∈ last, isAscii char = true :=
          fun char isIn => baseAscii char
            (List.mem_append_right _ (List.mem_cons_of_mem _ isIn))
        have whole := WritesItem.range
          ((writesValue_iff firstAscii).mpr
            ⟨starts, inBounds.1, ordered.trans inBounds.2⟩)
          ((writesValue_iff lastAscii).mpr
            ⟨stops, inBounds.1.trans ordered, inBounds.2⟩)
          ordered writesStep
        rw [List.append_assoc, List.cons_append]
        exact ⟨_, whole⟩
      · have none : given = none := by
          simpa using unstepped
        rw [none, Option.map_none, Option.getD_none, List.append_nil]
        exact ⟨_, WritesItem.value
          ((writesValue_iff baseAscii).mpr
            ⟨isValue, inBounds.1, same ▸ inBounds.2⟩)⟩

variable {texts : List Text}

theorem mapM_eq_ok_iff {values : List (List Nat)} :
    texts.mapM (parseCronItem limits) = .ok values ↔
      List.Forall₂ (fun text read => parseCronItem limits text = .ok read)
        texts values := by
  induction texts generalizing values with
  | nil =>
    rw [List.forall₂_nil_left_iff]
    constructor
    · rintro ⟨⟩
      rfl
    · rintro rfl
      rfl
  | cons text rest ih =>
    rw [List.mapM_cons]
    cases first : parseCronItem limits text with
    | error reason =>
      constructor
      · intro read
        contradiction
      · intro each
        cases each with
        | cons head tail =>
          rw [first] at head
          contradiction
    | ok read =>
      cases later : rest.mapM (parseCronItem limits) with
      | error reason =>
        constructor
        · intro whole
          contradiction
        · intro each
          cases each with
          | cons head tail =>
            rw [ih.mpr tail] at later
            contradiction
      | ok others =>
        constructor
        · rintro ⟨⟩
          exact List.Forall₂.cons first
            (ih.mp later)
        · intro each
          cases each with
          | cons head tail =>
            rw [first] at head
            rw [ih.mpr tail] at later
            cases head
            cases later
            rfl

theorem WritesStep.comma_not_mem {tail : Text} {step : Option Nat}
    (writes : WritesStep lengths tail step) :
    ',' ∉ tail := by
  cases writes with
  | absent => exact List.not_mem_nil
  | given numeral positive small =>
    rw [List.mem_cons]
    rintro (same | isIn)
    · simp at same
    · have := numeral.digits ',' isIn
      contradiction

theorem WritesItem.comma_not_mem
    (writes : WritesItem lengths limits text item) :
    ',' ∉ text := by
  cases writes with
  | value writes => exact writes.not_mem (by decide)
  | every step =>
    rw [List.mem_cons]
    rintro (same | isIn)
    · simp at same
    · exact step.comma_not_mem isIn
  | range starts stops ordered step =>
    rw [List.mem_append, List.mem_cons, List.mem_append]
    rintro (isIn | same | isIn | isIn)
    · exact starts.not_mem (by decide) isIn
    · simp at same
    · exact stops.not_mem (by decide) isIn
    · exact step.comma_not_mem isIn

theorem WritesItem.ne_nil (writes : WritesItem lengths limits text item) :
    text ≠ [] := by
  cases writes with
  | value writes => exact writes.ne_nil
  | every step => exact List.cons_ne_nil _ _
  | range starts stops ordered step => simp

variable {items : List CronItem}

theorem splitOn_of_writesItems (nonempty : texts ≠ [])
    (writes : List.Forall₂ (WritesItem lengths limits) texts items) :
    ([','].intercalate texts).splitOn ',' = texts ∧
      [','].intercalate texts ≠ [] := by
  have plain : ∀ text ∈ texts, ',' ∉ text ∧ text ≠ [] := by
    clear nonempty
    induction writes with
    | nil => simp
    | cons first later ih =>
      exact List.forall_mem_cons.mpr
        ⟨⟨first.comma_not_mem, first.ne_nil⟩, ih⟩
  have split : ([','].intercalate texts).splitOn ',' = texts :=
    List.splitOn_intercalate ','
      (fun text isIn => (plain text isIn).1) nonempty
  refine ⟨split, fun empty => ?_⟩
  rw [empty, List.splitOn_nil] at split
  exact (plain [] (split ▸ List.mem_singleton_self [])).2 rfl

theorem exists_values_of_writesItems
    (ascii : ∀ text ∈ texts, ∀ char ∈ text, isAscii char = true)
    (writes :
      List.Forall₂ (WritesItem parsedLengths limits) texts items) :
    ∃ values,
      texts.mapM (parseCronItem limits) = .ok values ∧
        ∀ value,
          value ∈ values.flatten ↔ ListDenotes limits items value := by
  simp only [mapM_eq_ok_iff]
  induction writes with
  | nil => exact ⟨[], List.Forall₂.nil, by simp [ListDenotes]⟩
  | @cons text item texts items first later ih =>
    obtain ⟨here, there⟩ := List.forall_mem_cons.mp ascii
    obtain ⟨values, each, means⟩ := ih there
    obtain ⟨read, ordered, positive⟩ :=
      parseCronItem_of_writesItem here first
    refine ⟨_ :: values, List.Forall₂.cons read each, fun value => ?_⟩
    rw [List.flatten_cons, List.mem_append, means value,
      mem_steppedValues_iff ordered positive]
    simp only [ListDenotes, List.exists_mem_cons_iff, CronItem.Denotes]

variable {spec : Text}

theorem parseCronField_of_writesList
    (ascii : ∀ char ∈ spec, isAscii char = true)
    (writes : WritesList parsedLengths limits spec items) :
    ∃ values,
      parseCronField limits spec = .ok values ∧
        ∀ value, value ∈ values ↔ ListDenotes limits items value := by
  obtain ⟨texts, nonempty, rfl, each⟩ := writes
  obtain ⟨split, filled⟩ := splitOn_of_writesItems nonempty each
  have textsAscii : ∀ text ∈ texts, ∀ char ∈ text, isAscii char = true :=
    fun text isText char isIn =>
      ascii char (Joined.mem_intercalate_iff.mpr
        (Or.inl ⟨text, isText, isIn⟩))
  obtain ⟨values, read, means⟩ :=
    exists_values_of_writesItems textsAscii each
  refine ⟨values.flatten, ?_, means⟩
  rw [parseCronField, if_neg filled, split, read]
  rfl

theorem exists_writesList_of_parseCronField
    (ascii : ∀ char ∈ spec, isAscii char = true)
    (read : parseCronField limits spec = .ok values) :
    ∃ items, WritesList parsedLengths limits spec items := by
  rw [parseCronField] at read
  split at read
  · contradiction
  cases each : (spec.splitOn ',').mapM (parseCronItem limits) with
  | error reason =>
    rw [each] at read
    contradiction
  | ok lists =>
    have joined : [','].intercalate (spec.splitOn ',') = spec :=
      List.intercalate_splitOn ','
    have textsAscii :
        ∀ text ∈ spec.splitOn ',', ∀ char ∈ text,
          isAscii char = true := by
      intro text isText char isIn
      refine ascii char ?_
      rw [← joined]
      exact Joined.mem_intercalate_iff.mpr
        (Or.inl ⟨text, isText, isIn⟩)
    have written :
        ∃ items,
          List.Forall₂ (WritesItem parsedLengths limits)
            (spec.splitOn ',') items := by
      rw [mapM_eq_ok_iff] at each
      generalize spec.splitOn ',' = texts at each textsAscii
      induction each with
      | nil => exact ⟨[], List.Forall₂.nil⟩
      | cons first later ih =>
        obtain ⟨here, there⟩ := List.forall_mem_cons.mp textsAscii
        obtain ⟨items, others⟩ := ih there
        obtain ⟨item, writes⟩ :=
          exists_writesItem_of_parseCronItem here first
        exact ⟨item :: items, List.Forall₂.cons writes others⟩
    obtain ⟨items, writes⟩ := written
    exact ⟨items, spec.splitOn ',', List.splitOn_ne_nil ',' spec,
      joined.symm, writes⟩

/-- The list of the text `*` is the one item for every value. -/
theorem isStar_iff_of_writesList
    (writes : WritesList lengths limits spec items) :
    spec = ['*'] ↔ Crontab.IsStar items := by
  obtain ⟨texts, nonempty, rfl, each⟩ := writes
  have star : ∀ {item}, WritesItem lengths limits ['*'] item →
      item = .every none := by
    intro item writes
    generalize text : ['*'] = spec at writes
    cases writes with
    | value writes =>
      subst text
      exact absurd List.mem_cons_self
        (writes.not_mem (by decide : '*'.toNat < 48))
    | every step =>
      obtain ⟨-, rfl⟩ := List.cons.inj text
      cases step
      rfl
    | range starts stops ordered step =>
      have isIn : '-' ∈ ['*'] := by
        rw [text]
        exact List.mem_append_right _ List.mem_cons_self
      simp at isIn
  constructor
  · intro same
    have split := (splitOn_of_writesItems nonempty each).1
    rw [same, List.splitOn_eq_singleton (by simp)] at split
    subst split
    cases each with
    | cons first later =>
      cases later
      rw [star first]
      rfl
  · intro isStar
    subst isStar
    cases each with
    | cons first later =>
      cases later
      cases first with
      | every step =>
        cases step
        rfl

end DeveloperDashboard.Collector
