import DeveloperDashboard.Collector.CronGrammar

namespace DeveloperDashboard.Collector

open Perl

/-!
# What cron expressions mean

The parser reads the lines of the grammar and no others; its sets hold what
the lists stand for, and the test of the day follows the rule of crontab.
-/

/-- The numbers that `localtime` returns. -/
structure IsMoment (now : LocalTime) : Prop where
  minute : now.minute ≤ 59
  hour : now.hour ≤ 23
  firstDay : 1 ≤ now.dayOfMonth
  lastDay : now.dayOfMonth ≤ 31
  month : now.month ≤ 11
  dayOfWeek : now.dayOfWeek ≤ 6

/-- The fields of an expression mean what the crontab line says. -/
structure Crontab.Means
    (table : Crontab) (fields : CronFields) : Prop where
  minute :
    ∀ value, value ∈ fields.minute.values ↔
      ListDenotes minuteLimits table.minute value
  hour :
    ∀ value, value ∈ fields.hour.values ↔
      ListDenotes hourLimits table.hour value
  dayOfMonth :
    ∀ value, value ∈ fields.dayOfMonth.values ↔
      ListDenotes dayOfMonthLimits table.dayOfMonth value
  month :
    ∀ value, value ∈ fields.month.values ↔
      ListDenotes monthLimits table.month value
  dayOfWeek :
    ∀ value, value ∈ fields.dayOfWeek.values ↔
      table.DenotesDayOfWeek value
  dayTest :
    ∀ now, IsMoment now →
      (now.month + 1 ∈ fields.month.values ∧
          matchesDay fields now = true ↔
        table.MatchesDay now)

structure FieldMeans
    (limits : CronLimits) (items : List CronItem)
    (field : CronField) : Prop where
  values :
    ∀ value, value ∈ field.values ↔ ListDenotes limits items value
  wildcard : field.wildcard = true ↔ Crontab.IsStar items

variable {limits : CronLimits}

theorem cronField_of_writesList {spec : Text} {items : List CronItem}
    (ascii : ∀ char ∈ spec, isAscii char = true)
    (writes : WritesList parsedLengths limits spec items) (number : Nat) :
    ∃ field,
      cronField number limits spec = .ok field ∧
        FieldMeans limits items field := by
  obtain ⟨values, read, means⟩ := parseCronField_of_writesList ascii writes
  refine ⟨⟨values, decide (spec = ['*'])⟩, ?_, means, ?_⟩
  · rw [cronField, read]
  · rw [decide_eq_true_eq]
    exact isStar_iff_of_writesList writes

theorem exists_writesList_of_cronField
    {spec : Text} {number : Nat} {field : CronField}
    (ascii : ∀ char ∈ spec, isAscii char = true)
    (read : cronField number limits spec = .ok field) :
    ∃ items, WritesList parsedLengths limits spec items := by
  rw [cronField] at read
  split at read
  · contradiction
  · next values parsed =>
      exact exists_writesList_of_parseCronField ascii parsed

theorem mem_aliasSunday_iff {field : CronField} {day : Nat} :
    day ∈ (aliasSunday field).values ↔
      ∃ value ∈ field.values, day = if value = 7 then 0 else value := by
  unfold aliasSunday
  split
  · next sunday =>
      simp only [List.mem_cons, List.mem_filter, decide_eq_true_eq]
      constructor
      · rintro (rfl | ⟨isIn, other⟩)
        · exact ⟨7, sunday, rfl⟩
        · exact ⟨day, isIn, (if_neg other).symm⟩
      · rintro ⟨value, isIn, rfl⟩
        by_cases seven : value = 7
        · exact Or.inl (if_pos seven)
        · rw [if_neg seven]
          exact Or.inr ⟨isIn, seven⟩
  · next noSunday =>
      constructor
      · intro isIn
        refine ⟨day, isIn, (if_neg ?_).symm⟩
        rintro rfl
        exact noSunday isIn
      · rintro ⟨value, isIn, rfl⟩
        have other : value ≠ 7 := by
          rintro rfl
          exact noSunday isIn
        rwa [if_neg other]

theorem listDenotes_star {value : Nat}
    (low : limits.minimum ≤ value) (high : value ≤ limits.maximum) :
    ListDenotes limits [.every none] value := by
  refine ⟨_, List.mem_singleton_self _, high, value - limits.minimum, ?_⟩
  change value = limits.minimum + 1 * (value - limits.minimum)
  omega

/-- Five fields that mean their lists make up the meaning of a line. -/
theorem means_of_fields {table : Crontab}
    {minute hour dayOfMonth month dayOfWeek : CronField}
    (minutes : FieldMeans minuteLimits table.minute minute)
    (hours : FieldMeans hourLimits table.hour hour)
    (days : FieldMeans dayOfMonthLimits table.dayOfMonth dayOfMonth)
    (months : FieldMeans monthLimits table.month month)
    (weekdays : FieldMeans dayOfWeekLimits table.dayOfWeek dayOfWeek) :
    table.Means
      ⟨minute, hour, dayOfMonth, month, aliasSunday dayOfWeek⟩ := by
  have weekday :
      ∀ value, value ∈ (aliasSunday dayOfWeek).values ↔
        table.DenotesDayOfWeek value := by
    intro value
    rw [mem_aliasSunday_iff]
    simp only [weekdays.values, Crontab.DenotesDayOfWeek]
  have wildcard :
      (aliasSunday dayOfWeek).wildcard = dayOfWeek.wildcard := by
    unfold aliasSunday
    split <;> rfl
  refine ⟨minutes.values, hours.values, days.values, months.values,
    weekday, fun now isMoment => ?_⟩
  simp only [matchesDay, wildcard, months.values, Crontab.MatchesDay]
  refine and_congr_right fun _ => ?_
  by_cases dayStar : Crontab.IsStar table.dayOfMonth
  · have dayWildcard := days.wildcard.mpr dayStar
    by_cases weekStar : Crontab.IsStar table.dayOfWeek
    · have weekWildcard := weekdays.wildcard.mpr weekStar
      have everyDay :
          ListDenotes dayOfMonthLimits table.dayOfMonth now.dayOfMonth :=
        dayStar ▸ listDenotes_star isMoment.firstDay isMoment.lastDay
      have everyWeekday : table.DenotesDayOfWeek now.dayOfWeek := by
        have small := isMoment.dayOfWeek
        refine ⟨now.dayOfWeek, ?_, (if_neg (by omega)).symm⟩
        rw [weekStar]
        exact listDenotes_star (Nat.zero_le _)
          (small.trans (by decide))
      simp [dayWildcard, weekWildcard, dayStar, weekStar, everyDay,
        everyWeekday]
    · have weekWildcard : dayOfWeek.wildcard = false :=
        Bool.eq_false_iff.mpr (mt weekdays.wildcard.mp weekStar)
      simp [dayWildcard, weekWildcard, dayStar, weekStar, weekday]
  · have dayWildcard : dayOfMonth.wildcard = false :=
      Bool.eq_false_iff.mpr (mt days.wildcard.mp dayStar)
    by_cases weekStar : Crontab.IsStar table.dayOfWeek
    · have weekWildcard := weekdays.wildcard.mpr weekStar
      simp [dayWildcard, weekWildcard, dayStar, weekStar, days.values]
    · have weekWildcard : dayOfWeek.wildcard = false :=
        Bool.eq_false_iff.mpr (mt weekdays.wildcard.mp weekStar)
      simp [dayWildcard, weekWildcard, dayStar, weekStar, days.values,
        weekday]

/-- A line of the grammar is read, and its fields mean what it says. -/
theorem parseCronExpression_of_writesCrontab {expr : Text} {table : Crontab}
    (ascii : ∀ char ∈ expr, isAscii char = true)
    (writes : WritesCrontab parsedLengths expr table) :
    ∃ fields,
      parseCronExpression (some expr) = .ok fields ∧
        table.Means fields := by
  obtain ⟨short, minute, hour, dayOfMonth, month, dayOfWeek, words,
    minutes, hours, days, months, weekdays⟩ := writes
  have wordAscii :
      ∀ word ∈ [minute, hour, dayOfMonth, month, dayOfWeek],
        ∀ char ∈ word, isAscii char = true :=
    fun word isWord char isIn => ascii char (words.mem isWord isIn)
  have split := (splitSpaces_trim_eq_iff (List.cons_ne_nil _ _)).mpr words
  obtain ⟨minuteField, minuteRead, minuteMeans⟩ :=
    cronField_of_writesList (wordAscii minute (by simp)) minutes 1
  obtain ⟨hourField, hourRead, hourMeans⟩ :=
    cronField_of_writesList (wordAscii hour (by simp)) hours 2
  obtain ⟨dayField, dayRead, dayMeans⟩ :=
    cronField_of_writesList (wordAscii dayOfMonth (by simp)) days 3
  obtain ⟨monthField, monthRead, monthMeans⟩ :=
    cronField_of_writesList (wordAscii month (by simp)) months 4
  obtain ⟨weekField, weekRead, weekMeans⟩ :=
    cronField_of_writesList (wordAscii dayOfWeek (by simp)) weekdays 5
  refine ⟨_, ?_, means_of_fields minuteMeans hourMeans dayMeans monthMeans
    weekMeans⟩
  have shown := words.shown (List.cons_ne_nil _ _)
  rw [parseCronExpression]
  simp only [shown, Bool.false_eq_true, if_false, Nat.not_lt.mpr short,
    split, minuteRead, hourRead, dayRead, monthRead, weekRead]
  rfl

theorem exceptBind_eq_ok {First Last : Type}
    {first : Except Text First} {next : First → Except Text Last}
    {last : Last} (succeeds : first >>= next = .ok last) :
    ∃ value, first = .ok value ∧ next value = .ok last := by
  cases first with
  | error reason => contradiction
  | ok value => exact ⟨value, rfl, succeeds⟩

theorem exists_writesCrontab_of_parseCronExpression
    {expr : Text} {fields : CronFields}
    (ascii : ∀ char ∈ expr, isAscii char = true)
    (read : parseCronExpression (some expr) = .ok fields) :
    ∃ table, WritesCrontab parsedLengths expr table := by
  rw [parseCronExpression] at read
  split at read
  · contradiction
  split at read
  · contradiction
  next short =>
    split at read
    · next minute hour dayOfMonth month dayOfWeek split =>
        have words := (splitSpaces_trim_eq_iff
          (List.cons_ne_nil _ _)).mp split
        have wordAscii :
            ∀ word ∈ [minute, hour, dayOfMonth, month, dayOfWeek],
              ∀ char ∈ word, isAscii char = true :=
          fun word isWord char isIn => ascii char (words.mem isWord isIn)
        obtain ⟨_, minuteRead, read⟩ := exceptBind_eq_ok read
        obtain ⟨_, hourRead, read⟩ := exceptBind_eq_ok read
        obtain ⟨_, dayRead, read⟩ := exceptBind_eq_ok read
        obtain ⟨_, monthRead, read⟩ := exceptBind_eq_ok read
        obtain ⟨_, weekRead, -⟩ := exceptBind_eq_ok read
        obtain ⟨minutes, minuteWritten⟩ :=
          exists_writesList_of_cronField (wordAscii minute (by simp))
            minuteRead
        obtain ⟨hours, hourWritten⟩ :=
          exists_writesList_of_cronField (wordAscii hour (by simp)) hourRead
        obtain ⟨days, dayWritten⟩ :=
          exists_writesList_of_cronField (wordAscii dayOfMonth (by simp))
            dayRead
        obtain ⟨months, monthWritten⟩ :=
          exists_writesList_of_cronField (wordAscii month (by simp))
            monthRead
        obtain ⟨weekdays, weekWritten⟩ :=
          exists_writesList_of_cronField (wordAscii dayOfWeek (by simp))
            weekRead
        exact ⟨⟨minutes, hours, days, months, weekdays⟩,
          Nat.le_of_not_lt short, minute, hour, dayOfMonth, month,
          dayOfWeek, words, minuteWritten, hourWritten, dayWritten,
          monthWritten, weekWritten⟩
    · contradiction

/--
The parser succeeds on the lines of the grammar, where values have at most
three digits and steps at most four, and its fields mean what the line says.
-/
theorem parseCronExpression_means
    (expr : Text) (ascii : ∀ char ∈ expr, isAscii char = true) :
    ((∃ fields, parseCronExpression (some expr) = .ok fields) ↔
        ∃ table, WritesCrontab parsedLengths expr table) ∧
      ∀ fields table,
        parseCronExpression (some expr) = .ok fields →
          WritesCrontab parsedLengths expr table →
            table.Means fields := by
  refine ⟨⟨?_, ?_⟩, fun fields table read writes => ?_⟩
  · rintro ⟨fields, read⟩
    exact exists_writesCrontab_of_parseCronExpression ascii read
  · rintro ⟨table, writes⟩
    obtain ⟨fields, read, -⟩ :=
      parseCronExpression_of_writesCrontab ascii writes
    exact ⟨fields, read⟩
  · obtain ⟨found, parsed, means⟩ :=
      parseCronExpression_of_writesCrontab ascii writes
    rw [read] at parsed
    cases parsed
    exact means

/-- Some minutes of working days, in January and in March. -/
def workingDays : Text :=
  "*/5 9-17/2 1,15 JAN,MAR MON-FRI".toList

/-- A Tuesday: the second of March 2027, five past nine. -/
def marchSecond : LocalTime where
  minute := 5
  hour := 9
  dayOfMonth := 2
  month := 2
  year := 127
  dayOfWeek := 2
  zone := "+0000".toList

/-- The line is one of the grammar, and it chooses the Tuesday. -/
theorem parseCronExpression_means_workingDays :
    ∃ table,
      WritesCrontab parsedLengths workingDays table ∧
        table.MatchesDay marchSecond := by
  have ascii : ∀ char ∈ workingDays, isAscii char = true :=
    List.all_eq_true.mp (by decide +kernel)
  have evaluated :
      (parseCronExpression (some workingDays)).toOption.any
          (fun fields =>
            decide (marchSecond.month + 1 ∈ fields.month.values) &&
              matchesDay fields marchSecond) = true := by
    decide +kernel
  have means := parseCronExpression_means workingDays ascii
  cases read : parseCronExpression (some workingDays) with
  | error reason =>
    rw [read] at evaluated
    cases evaluated
  | ok fields =>
    rw [read] at evaluated
    have chosen := Bool.and_eq_true_iff.mp evaluated
    obtain ⟨table, writes⟩ := means.1.mp ⟨fields, read⟩
    refine ⟨table, writes, ?_⟩
    exact ((means.2 fields table read writes).dayTest marchSecond
      ⟨by decide, by decide, by decide, by decide, by decide,
        by decide⟩).mp ⟨of_decide_eq_true chosen.1, chosen.2⟩

/-- A line whose first value has four digits. -/
def longZero : Text :=
  "0000 * * * *".toList

/-- The line is one of the grammar, but the parser refuses its value. -/
theorem long_numeral_refused :
    (∃ table, WritesCrontab anyLengths longZero table) ∧
      parseCronExpression (some longZero) =
        .error
          ("field 1 (0000): value is not a valid number or name").toList := by
  have every :
      ∀ limits, WritesList anyLengths limits ['*'] [.every none] := by
    intro limits
    exact ⟨[['*']], List.cons_ne_nil _ _, rfl,
      List.Forall₂.cons (WritesItem.every WritesStep.absent)
        List.Forall₂.nil⟩
  have zeros :
      WritesList anyLengths minuteLimits "0000".toList [.value 0] := by
    refine ⟨["0000".toList], List.cons_ne_nil _ _, rfl,
      List.Forall₂.cons (WritesItem.value ⟨Or.inl ⟨?_, rfl⟩, ?_, ?_⟩)
        List.Forall₂.nil⟩
    · exact ⟨by decide, List.all_eq_true.mp rfl, by simp [anyLengths]⟩
    · exact Nat.le_refl 0
    · exact Nat.zero_le 59
  have star : IsWord ['*'] := ⟨by decide, by simp [isSpace]⟩
  have four : IsWord "0000".toList := ⟨by decide, by simp [isSpace]⟩
  have blank : [' '] ≠ [] := List.cons_ne_nil ' ' []
  have last : IsSpaced ['*'] [['*']] :=
    IsSpaced.last star (List.all_nil : ([] : Text).all isSpace = true)
  have later := IsSpaced.more star blank rfl
    (IsSpaced.more star blank rfl (IsSpaced.more star blank rfl last))
  have words :
      HasWords longZero ["0000".toList, ['*'], ['*'], ['*'], ['*']] :=
    ⟨[], _, rfl, rfl, IsSpaced.more four blank rfl later⟩
  refine ⟨⟨⟨[.value 0], [.every none], [.every none], [.every none],
    [.every none]⟩, by decide, _, _, _, _, _, words, zeros, every _,
    every _, every _, every _⟩, ?_⟩
  decide +kernel

end DeveloperDashboard.Collector
