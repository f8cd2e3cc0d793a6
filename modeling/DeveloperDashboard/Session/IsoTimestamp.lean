import DeveloperDashboard.Perl.TimeLocal

namespace DeveloperDashboard.Session

open Library Perl

/-!
# ISO timestamps

The pattern of `_iso8601_to_epoch` fixes the shape of a timestamp, and
`timegm` the ranges of its fields.
-/

inductive OnError where
  | die
  | zero
  deriving DecidableEq

/-- The offset of a zone: its sign, hours and minutes. -/
structure ZoneOffset where
  negative : Bool
  hour : Text
  minute : Text
  deriving DecidableEq

/-- The fields of a timestamp; there is no offset for `Z`. -/
structure IsoFields where
  year : Text
  month : Text
  day : Text
  hour : Text
  minute : Text
  second : Text
  offset : Option ZoneOffset
  deriving DecidableEq

/-- The pattern `\d{count}` at the start of a text. -/
def takeDigits (count : Nat) (text : Text) : Option (Text × Text) :=
  if (text.take count).length = count && (text.take count).all isDigit then
    some (text.take count, text.drop count)
  else none

def takeChar (char : Char) : Text → Option Text
  | first :: rest => if first = char then some rest else none
  | [] => none

/-- The pattern `(Z|[+-]\d{4}|[+-]\d{2}:\d{2})\z`. -/
def matchZone : Text → Option (Option ZoneOffset)
  | ['Z'] => some none
  | sign :: rest =>
    if sign = '+' || sign = '-' then
      match takeDigits 2 rest with
      | some (hour, rest) =>
        match takeDigits 2 ((takeChar ':' rest).getD rest) with
        | some (minute, []) => some (some ⟨sign = '-', hour, minute⟩)
        | _ => none
      | none => none
    else none
  | [] => none

def matchTimestamp (text : Text) : Option IsoFields := do
  let (year, text) ← takeDigits 4 text
  let (month, text) ← takeDigits 2 (← takeChar '-' text)
  let (day, text) ← takeDigits 2 (← takeChar '-' text)
  let (hour, text) ← takeDigits 2 (← takeChar 'T' text)
  let (minute, text) ← takeDigits 2 (← takeChar ':' text)
  let (second, text) ← takeDigits 2 (← takeChar ':' text)
  let offset ← matchZone text
  return ⟨year, month, day, hour, minute, second, offset⟩

def offsetSeconds : Option ZoneOffset → Int
  | none => 0
  | some offset =>
    let seconds : Int :=
      stringNumber offset.hour * 3600 + stringNumber offset.minute * 60
    if offset.negative then -seconds else seconds

/-- The present year, and what is left to `timegm`. -/
def fieldsToEpoch (thisYear : Nat) (fields : IsoFields) :
    Except Text Int :=
  (timegm thisYear fields.second fields.minute fields.hour fields.day
    (stringNumber fields.month - 1) fields.year).map fun epoch =>
      epoch - offsetSeconds fields.offset

/-- `_iso8601_to_epoch`; `none` is an undefined text. -/
def iso8601ToEpoch (thisYear : Nat) (onError : OnError)
    (text : Option Text) :
    Except Text Int :=
  match text.bind matchTimestamp with
  | none =>
    match onError with
    | .zero => .ok 0
    | .die =>
      .error
        ("Unsupported ISO-8601 timestamp ".toList ++
          text.getD "(undef)".toList ++ ['\n'])
  | some fields => fieldsToEpoch thisYear fields

def IsoFields.isAscii (fields : IsoFields) : Bool :=
  (fields.year ++ fields.month ++ fields.day ++ fields.hour ++
    fields.minute ++ fields.second).all Char.isDigit &&
      fields.offset.all fun offset =>
        (offset.hour ++ offset.minute).all Char.isDigit

/-- The fields are those of a date and a time of day. -/
structure IsoFields.InRange (fields : IsoFields) (year : Nat) : Prop where
  date :
    IsDate year (stringNumber fields.month) (stringNumber fields.day)
  hour : stringNumber fields.hour ≤ 23
  minute : stringNumber fields.minute ≤ 59
  second : stringNumber fields.second ≤ 59

instance (fields : IsoFields) (year : Nat) :
    Decidable (fields.InRange year) :=
  decidable_of_iff
    (IsDate year (stringNumber fields.month) (stringNumber fields.day) ∧
      stringNumber fields.hour ≤ 23 ∧ stringNumber fields.minute ≤ 59 ∧
        stringNumber fields.second ≤ 59)
    ⟨fun ⟨date, hour, minute, second⟩ => ⟨date, hour, minute, second⟩,
      fun range => ⟨range.date, range.hour, range.minute, range.second⟩⟩

def offsetInRange : Option ZoneOffset → Bool
  | none => true
  | some offset =>
    decide
      (stringNumber offset.hour ≤ 23 ∧ stringNumber offset.minute ≤ 59)

/-- The seconds of a time of day on a date, from the start of 1970. -/
def IsoFields.seconds (fields : IsoFields) (year : Nat) : Int :=
  86400 *
      dayNumber year (stringNumber fields.month)
        (stringNumber fields.day) +
    3600 * stringNumber fields.hour + 60 * stringNumber fields.minute +
      stringNumber fields.second

/--
The instant of a timestamp in the Gregorian calendar: it is written in ASCII
digits, the date and the time of day exist, and the offset is less than a day.
-/
def instantOf (text : Text) : Option Int :=
  match matchTimestamp text with
  | none => none
  | some fields =>
    if fields.isAscii && decide (fields.InRange (stringNumber fields.year)) &&
        offsetInRange fields.offset then
      some
        (fields.seconds (stringNumber fields.year) -
          offsetSeconds fields.offset)
    else none

/-- The year in which `timegm` puts a date. -/
def IsoFields.readYear (fields : IsoFields) (thisYear : Nat) : Nat :=
  calendarYear thisYear (stringNumber fields.year)

/-- The instant at which `timegm` puts the fields. -/
def IsoFields.readEpoch (fields : IsoFields) (thisYear : Nat) : Int :=
  fields.seconds (fields.readYear thisYear) - offsetSeconds fields.offset

theorem le_readYear (fields : IsoFields) (thisYear : Nat) :
    1000 ≤ fields.readYear thisYear := by
  unfold IsoFields.readYear calendarYear
  dsimp only
  split
  · assumption
  · split
    · omega
    · omega

variable {fields : IsoFields}

theorem fieldsToEpoch_of_inRange {thisYear : Nat}
    (range : fields.InRange (fields.readYear thisYear)) :
    fieldsToEpoch thisYear fields = .ok (fields.readEpoch thisYear) := by
  have date := range.date
  have month :
      ((stringNumber fields.month : Int) - 1).toNat =
        stringNumber fields.month - 1 := by
    omega
  have days :
      monthDays (fields.readYear thisYear)
          (stringNumber fields.month - 1 + 1) =
        monthDays (fields.readYear thisYear)
          (stringNumber fields.month) := by
    rw [Nat.sub_add_cancel date.month_pos]
  have first := date.month_pos
  have last := date.month_le
  have dayFirst := date.day_pos
  have dayLast := date.day_le
  have hour := range.hour
  have minute := range.minute
  have second := range.second
  have count :
      dayGm (stringNumber fields.day) (stringNumber fields.month - 1)
          (fields.readYear thisYear) =
        dayNumber (fields.readYear thisYear) (stringNumber fields.month)
          (stringNumber fields.day) :=
    dayGm_eq_dayNumber
      (lt_of_lt_of_le (by decide) (le_readYear fields thisYear)) first last
  unfold IsoFields.readYear at days dayLast count
  unfold fieldsToEpoch timegm
  dsimp only
  rw [month, days, if_neg (by omega), if_neg (by omega),
    if_neg (by omega), if_neg (by omega), if_neg (by omega), count]
  simp only [Except.map, IsoFields.readEpoch, IsoFields.readYear,
    IsoFields.seconds]
  congr 1
  omega

/-- Fields out of range make `timegm` die. -/
theorem fieldsToEpoch_of_not_inRange {thisYear : Nat}
    (outside : ¬ fields.InRange (fields.readYear thisYear)) :
    ∃ message, fieldsToEpoch thisYear fields = .error message := by
  unfold fieldsToEpoch timegm
  dsimp only
  split
  · exact ⟨_, rfl⟩
  · next month =>
      split
      · exact ⟨_, rfl⟩
      · next day =>
          split
          · exact ⟨_, rfl⟩
          · next hour =>
              split
              · exact ⟨_, rfl⟩
              · next minute =>
                  split
                  · exact ⟨_, rfl⟩
                  · next second =>
                      refine absurd ?_ outside
                      have same :
                          ((stringNumber fields.month : Int) - 1).toNat + 1 =
                            stringNumber fields.month := by
                        omega
                      rw [same] at day
                      refine ⟨⟨?_, ?_, ?_, ?_⟩, ?_, ?_, ?_⟩
                      · omega
                      · omega
                      · omega
                      · unfold IsoFields.readYear
                        omega
                      · omega
                      · omega
                      · omega

theorem instantOf_of_match {text : Text}
    (shape : matchTimestamp text = some fields) (instant : Int) :
    instantOf text = some instant ↔
      (fields.isAscii = true ∧
          fields.InRange (stringNumber fields.year) ∧
            offsetInRange fields.offset = true) ∧
        fields.seconds (stringNumber fields.year) -
          offsetSeconds fields.offset = instant := by
  rw [instantOf, shape]
  dsimp only
  split
  · next plain =>
      simp only [Bool.and_eq_true, decide_eq_true_eq] at plain
      rw [Option.some.injEq]
      exact ⟨fun same => ⟨⟨plain.1.1, plain.1.2, plain.2⟩, same⟩,
        fun both => both.2⟩
  · next other =>
      simp only [Bool.and_eq_true, decide_eq_true_eq] at other
      exact ⟨fun same => absurd same.symm (Option.some_ne_none _),
        fun both =>
          absurd ⟨⟨both.1.1, both.1.2.1⟩, both.1.2.2⟩ other⟩

theorem instant_neg_of_early {year : Nat} (range : fields.InRange year)
    (early : year < 1000) (offset : offsetInRange fields.offset = true) :
    fields.seconds year - offsetSeconds fields.offset < 0 := by
  have days := range.date.dayNumber_lt_first early
  have first : dayNumber 1000 1 1 = -354285 := by
    decide
  have hour := range.hour
  have minute := range.minute
  have second := range.second
  have least : -86400 ≤ offsetSeconds fields.offset := by
    unfold offsetSeconds
    cases zone : fields.offset with
    | none => decide
    | some shift =>
      rw [zone] at offset
      have bounds := of_decide_eq_true offset
      dsimp only
      split
      · omega
      · omega
  unfold IsoFields.seconds
  omega

theorem fieldsToEpoch_eq_iff
    (range : fields.InRange (stringNumber fields.year)) (thisYear : Nat) :
    fieldsToEpoch thisYear fields =
        .ok
          (fields.seconds (stringNumber fields.year) -
            offsetSeconds fields.offset) ↔
      1000 ≤ stringNumber fields.year := by
  constructor
  · intro read
    by_contra early
    have before :
        stringNumber fields.year < fields.readYear thisYear :=
      lt_of_lt_of_le (Nat.lt_of_not_le early) (le_readYear fields thisYear)
    have later := range.date.dayNumber_lt before
    by_cases readable : fields.InRange (fields.readYear thisYear)
    · rw [fieldsToEpoch_of_inRange readable, Except.ok.injEq] at read
      unfold IsoFields.readEpoch IsoFields.seconds at read
      omega
    · obtain ⟨message, died⟩ := fieldsToEpoch_of_not_inRange readable
      rw [died] at read
      contradiction
  · intro late
    have same :
        fields.readYear thisYear = stringNumber fields.year :=
      calendarYear_of_le late thisYear
    rw [← same] at range
    rw [fieldsToEpoch_of_inRange range, IsoFields.readEpoch, same]

end DeveloperDashboard.Session
