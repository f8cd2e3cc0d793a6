import Mathlib.Data.List.Sort
import DeveloperDashboard.Config.JsonValue
import DeveloperDashboard.Library.FramedList
import DeveloperDashboard.Perl.Lines
import DeveloperDashboard.Session.IsoTimestamp

namespace DeveloperDashboard.Collector

open Library Perl Config Session

/-!
# Collector log rotation

`append_log_entry` writes entries that begin with a header line.  `rotate_log`
finds them again by their headers, drops those that are too old, and cuts the
log to a number of lines.  A text is the bytes that are written.
-/

/-- What the callers of `append_log_entry` name as its source. -/
inductive LogSource where
  | loopError
  | loopStopped
  | watchdog
  deriving DecidableEq

def LogSource.text : LogSource → Text
  | .loopError => "loop error".toList
  | .loopStopped => "loop stopped by signal".toList
  | .watchdog => "watchdog".toList

/-- The arguments of `append_log_entry`. -/
structure LogEntry where
  happenedAt : Option Text
  exitCode : Option Int
  timedOut : Bool
  stdout : Option Text
  stderr : Option Text
  error : Option Text
  source : Option LogSource
  deriving DecidableEq

/-- `_with_trailing_newline`. -/
def withTrailingNewline (text : Text) : Text :=
  if text.getLast? = some '\n' then text else text ++ ['\n']

def entryMark : Text :=
  "=== collector ".toList

def headerFields (entry : LogEntry) : List Text :=
  (match entry.exitCode with
    | some exitCode => [("exit=" ++ toString exitCode).toList]
    | none => []) ++
  (if entry.timedOut then ["timed_out=1".toList] else []) ++
    match entry.source with
    | some source => ["source=".toList ++ source.text]
    | none => []

def headerText (name : Text) (entry : LogEntry) : Text :=
  let time :=
    match entry.happenedAt with
    | some time => if isTrue time then time else "unknown-time".toList
    | none => "unknown-time".toList
  " | ".toList.intercalate
      ([entryMark ++ name, "@ ".toList ++ time] ++ headerFields entry) ++
    " ===\n".toList

def outputChunk (title : String) (output : Option Text) : Text :=
  match output with
  | none => []
  | some [] => []
  | some output => title.toList ++ ['\n'] ++ withTrailingNewline output

def entryText (name : Text) (entry : LogEntry) : Text :=
  headerText name entry ++ outputChunk "[stdout]" entry.stdout ++
    outputChunk "[stderr]" entry.stderr ++
      outputChunk "[error]" entry.error ++ ['\n']

def missingName : Text :=
  "Missing collector name".toList

/-- `_format_log_entry`. -/
def formatLogEntry (name : Text) (entry : LogEntry) : Except Text Text :=
  if isTrue name then .ok (entryText name entry) else .error missingName

/-- `append_log_entry`, which creates the log; `none` is a missing file. -/
def appendLogEntry (name : Text) (log : Option Text) (entry : LogEntry) :
    Except Text (Option Text) :=
  (formatLogEntry name entry).map fun text => some (log.getD [] ++ text)

/-- Calls of `append_log_entry` one after the other. -/
def appendLogEntries (name : Text) (log : Option Text) :
    List LogEntry → Except Text (Option Text)
  | [] => .ok log
  | entry :: rest =>
    (appendLogEntry name log entry).bind fun log =>
      appendLogEntries name log rest

/-- The canonical names of rotation keys, in the order of `sort`. -/
inductive RotationKey where
  | days
  | hours
  | lines
  | minutes
  | months
  | weeks
  deriving DecidableEq

def RotationKey.name : RotationKey → String
  | .days => "days"
  | .hours => "hours"
  | .lines => "lines"
  | .minutes => "minutes"
  | .months => "months"
  | .weeks => "weeks"

def rotationKeys : List RotationKey :=
  [.days, .hours, .lines, .minutes, .months, .weeks]

def rotationAliases : List (String × RotationKey) :=
  [("lines", .lines), ("minute", .minutes), ("minutes", .minutes),
    ("hour", .hours), ("hours", .hours), ("day", .days), ("days", .days),
    ("week", .weeks), ("weeks", .weeks), ("month", .months),
    ("months", .months)]

abbrev RotationRules :=
  Entries RotationKey Nat

/-- The rule of one key, which dies of what is no number. -/
def normalizeRule
    (name : Text) (rules : RotationRules) (entry : String × JsonValue) :
    Except Text RotationRules :=
  match rotationAliases.lookup entry.1 with
  | none =>
    .error
      ("collector rotation key ".toList ++ entry.1.toList ++
        " for ".toList ++ name ++ " is not supported\n".toList)
  | some key =>
    match scalarText entry.2 with
    | some text =>
      if text ≠ [] ∧ text.all isDigit = true then
        .ok (rules.store key (stringNumber text))
      else .error (notInteger key)
    | none => .error (notInteger key)
where
  /-- The message about a value that is no number. -/
  notInteger (key : RotationKey) : Text :=
    "collector rotation ".toList ++ key.name.toList ++ " for ".toList ++
      name ++ " must be a non-negative integer\n".toList

def normalizeRules (name : Text) (rules : RotationRules) :
    List (String × JsonValue) → Except Text RotationRules
  | [] => .ok rules
  | entry :: rest =>
    (normalizeRule name rules entry).bind fun rules =>
      normalizeRules name rules rest

/-- `_normalize_rotation`. -/
def normalizeRotation (name : Text) :
    Option JsonValue → Except Text RotationRules
  | none => .ok []
  | some .null => .ok []
  | some (.hash rotation) =>
    normalizeRules name []
      (rotation.insertionSort fun left right => left.1 ≤ right.1)
  | some _ =>
    .error
      ("collector rotation for ".toList ++ name ++
        " must be a hash reference\n".toList)

def secondsPerUnit : List (RotationKey × Nat) :=
  [(.minutes, 60), (.hours, 60 * 60), (.days, 60 * 60 * 24),
    (.weeks, 60 * 60 * 24 * 7), (.months, 60 * 60 * 24 * 30)]

/-- `_rotation_retention_seconds`. -/
def rotationRetentionSeconds (rules : RotationRules) : Option Nat :=
  secondsPerUnit.foldl
    (fun seconds unit =>
      match rules.lookup unit.1 with
      | none => seconds
      | some count => some (seconds.getD 0 + count * unit.2))
    none

/-- `_split_log_entries`. -/
def splitLogEntries (text : Text) : List Text :=
  (Framed.frames entryMark.isPrefixOf (splitLineStarts text)).map
    List.flatten

/-- What may stand between the time and the end of a header line. -/
def isHeaderEnd (text : Text) : Bool :=
  text == " ===".toList ||
    (" | ".toList.isPrefixOf text &&
      " ===".toList.isSuffixOf (text.drop 3))

/-- The time of a header, when it stands here; a space follows it. -/
def timestampHere (text : Text) : Option Text :=
  let timestamp := (text.drop 5).takeWhile (· ≠ ' ')
  if " | @ ".toList.isPrefixOf text &&
      (matchTimestamp timestamp).any (·.isAscii) &&
        isHeaderEnd ((text.drop 5).dropWhile (· ≠ ' ')) then
    some timestamp
  else none

/-- The last place of a time, which is where `[^\n]*` first lets it be. -/
def lastTimestamp : Text → Option Text
  | [] => none
  | char :: rest => (lastTimestamp rest).or (timestampHere (char :: rest))

/-- The time that the pattern finds in the header line of an entry. -/
def headerTimestamp (entry : Text) : Option Text :=
  let line := entry.takeWhile (· ≠ '\n')
  if entryMark.isPrefixOf line && decide ('\n' ∈ entry) then
    lastTimestamp (line.drop entryMark.length)
  else none

/-- `_entry_timestamp_epoch`. -/
def entryTimestampEpoch (thisYear : Nat) (name entry : Text) :
    Except Text Int :=
  match headerTimestamp entry with
  | none =>
    .error
      ("Unable to parse collector log timestamp for ".toList ++ name ++
        ['\n'])
  | some timestamp =>
    match iso8601ToEpoch thisYear .die (some timestamp) with
    | .ok epoch => .ok epoch
    | .error _ =>
      .error
        ("Unsupported collector log timestamp ".toList ++ timestamp ++
          ['\n'])

def keepFrom (thisYear : Nat) (name : Text) (cutoff : Int) :
    List Text → Except Text (List Text)
  | [] => .ok []
  | entry :: rest =>
    (entryTimestampEpoch thisYear name entry).bind fun epoch =>
      (keepFrom thisYear name cutoff rest).map fun kept =>
        if cutoff ≤ epoch then entry :: kept else kept

/-- `_trim_log_by_age`. -/
def trimLogByAge
    (thisYear : Nat) (name text : Text) (retention : Nat) (now : Int) :
    Except Text Text :=
  if text = [] then .ok text
  else
    (keepFrom thisYear name (now - retention) (splitLogEntries text)).map
      List.flatten

/-- `_realign_to_entry_boundary`. -/
def realignToEntryBoundary (original trimmed : Text) : Text :=
  if entryMark.isPrefixOf trimmed then trimmed
  else if ¬ entryMark.isPrefixOf original then trimmed
  else (splitLogEntries trimmed).tail.flatten

/-- `_trim_log_by_lines`. -/
def trimLogByLines (text : Text) (lines : Nat) : Text :=
  let ends := text.getLast? = some '\n'
  let parts := text.splitOn '\n'
  let parts := if ends then parts.dropLast else parts
  if text = [] then text
  else if parts.length ≤ lines then text
  else
    realignToEntryBoundary text
      (joinLines (parts.drop (parts.length - lines)) ++
        if ends then ['\n'] else [])

def applyAgeRule
    (thisYear : Nat) (name text : Text) (rules : RotationRules) (now : Int) :
    Except Text Text :=
  match rotationRetentionSeconds rules with
  | none => .ok text
  | some retention => trimLogByAge thisYear name text retention now

def applyLineRule (rules : RotationRules) (text : Text) : Text :=
  match rules.lookup .lines with
  | none => text
  | some lines => trimLogByLines text lines

/-- `_apply_log_rotation`. -/
def applyLogRotation
    (thisYear : Nat) (name text : Text) (rules : RotationRules) (now : Int) :
    Except Text Text :=
  (applyAgeRule thisYear name text rules now).map (applyLineRule rules)

/-- What `rotate_log` returns of a log that it changes. -/
structure RotationReport where
  name : Text
  strategy : Text
  beforeBytes : Nat
  afterBytes : Nat
  dryRun : Bool
  deriving DecidableEq

def rotationStrategy (rules : RotationRules) : Text :=
  [','].intercalate
    (rotationKeys.filterMap fun key =>
      (rules.lookup key).map fun count =>
        (key.name ++ "=" ++ toString count).toList)

/-- `rotate_log`: what it returns, and the log file after it. -/
def rotateLog (thisYear : Nat) (name : Text) (rotation : Option JsonValue)
    (now : Int) (dryRun : Bool) (log : Option Text) :
    Except Text (Option RotationReport × Option Text) :=
  if name = [] then .error missingName
  else
    (normalizeRotation name rotation).bind fun rules =>
      if rules = [] then .ok (none, log)
      else if ¬ isTrue name then .error missingName
      else
        match log with
        | none => .ok (none, none)
        | some original =>
          (applyLogRotation thisYear name original rules now).map
            fun rotated =>
              if rotated = original then (none, some original)
              else
                (some
                    ⟨name, rotationStrategy rules, original.length,
                      rotated.length, dryRun⟩,
                  some (if dryRun then original else rotated))

end DeveloperDashboard.Collector
