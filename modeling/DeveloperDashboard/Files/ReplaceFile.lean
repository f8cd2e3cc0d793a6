import DeveloperDashboard.Library.CrashSafety
import DeveloperDashboard.Perl.Encoding
import DeveloperDashboard.Perl.Number

namespace DeveloperDashboard.Files

open Library Perl

/-!
# Replacing a file

The calls that `_replace_state_file` and `_write_helper_atomically` make on
the prepared file and on the one to be replaced.  Each call can fail, and what
is printed can show up a piece at a time.
-/

/-- The prepared file, and the file that it replaces. -/
inductive Place where
  | source
  | target
deriving DecidableEq

structure FilePair where
  source : Option Bytes
  target : Option Bytes
deriving DecidableEq

def FilePair.get (files : FilePair) : Place → Option Bytes
  | .source => files.source
  | .target => files.target

def FilePair.put (files : FilePair) (place : Place) (content : Option Bytes) :
    FilePair :=
  match place with
  | .source => { files with source := content }
  | .target => { files with target := content }

/-- The calls; `drop` is the close of a handle that goes out of scope. -/
inductive FileCall where
  | renameFile
  | moveItem
  | doesExist (place : Place)
  | unlink (place : Place)
  | readFile (place : Place)
  | openFile (place : Place)
  | printTo (place : Place) (content : Bytes)
  | closeFile (place : Place) (content : Bytes)
  | drop (place : Place) (content : Bytes)
deriving DecidableEq

/-- How a call goes: so much shows up while it runs, or it is answered. -/
inductive Outcome where
  | shows (length : Nat)
  | succeeds
  | fails (reason : Text)
deriving DecidableEq

/-- What was read, or what `$!` says. -/
abbrev Answer :=
  Except Text Bytes

def fileEffect : Procedure.Effect FilePair FileCall Outcome Answer
  | files, .renameFile, .succeeds
  | files, .moveItem, .succeeds =>
    files.source.map fun content => (⟨none, some content⟩, some (.ok []))
  | files, .doesExist place, .succeeds =>
    (files.get place).map fun _ => (files, some (.ok []))
  | files, .doesExist place, .fails reason =>
    if files.get place = none then some (files, some (.error reason))
    else none
  | files, .unlink place, .succeeds =>
    (files.get place).map fun _ => (files.put place none, some (.ok []))
  | files, .readFile place, .succeeds =>
    (files.get place).map fun content => (files, some (.ok content))
  | files, .openFile place, .succeeds =>
    some (files.put place (some []), some (.ok []))
  | files, .printTo _ _, .succeeds => some (files, some (.ok []))
  | files, .closeFile place content, .succeeds
  | files, .drop place content, .succeeds =>
    some (files.put place (some content), some (.ok []))
  | files, .printTo place content, .shows length
  | files, .closeFile place content, .shows length
  | files, .drop place content, .shows length =>
    some (files.put place (some (content.take length)), none)
  | files, _, .fails reason => some (files, some (.error reason))
  | _, _, .shows _ => none

abbrev FileProcedure (Result : Type) :=
  Procedure FileCall Answer Result

/-- How a procedure ends: it returns, or it dies with a text. -/
abbrev Ending :=
  Except Text Unit

structure FileNames where
  source : Text
  target : Text

/-- The layer `:crlf` on a handle that is read. -/
def fromCrlf : Bytes → Bytes
  | 13 :: 10 :: rest => 10 :: fromCrlf rest
  | byte :: rest => byte :: fromCrlf rest
  | [] => []

/-- The layer `:crlf` on a handle that is written. -/
def toCrlf (content : Bytes) : Bytes :=
  content.flatMap fun byte => if byte = 10 then [13, 10] else [byte]

/--
`_overwrite_state_file_in_place` on Windows, where both handles have the
default layers; the close is not checked.
-/
def overwriteStateFileInPlace (names : FileNames) :
    FileProcedure (Except Text Unit) := do
  match ← Procedure.ask (.readFile .source) with
  | .error reason =>
    return .error ("Unable to read ".toList ++ names.source ++
      " for in-place overwrite: ".toList ++ reason)
  | .ok raw =>
    let content := toCrlf (fromCrlf raw)
    match ← Procedure.ask (.openFile .target) with
    | .error reason =>
      return .error ("Unable to open ".toList ++ names.target ++
        " for in-place overwrite: ".toList ++ reason)
    | .ok _ =>
      match ← Procedure.ask (.printTo .target content) with
      | .error reason =>
        let _ ← Procedure.ask (.drop .target content)
        return .error ("Unable to write ".toList ++ names.target ++
          " during in-place overwrite: ".toList ++ reason)
      | .ok _ =>
        let _ ← Procedure.ask (.closeFile .target content)
        let _ ← Procedure.ask (.unlink .source)
        return .ok ()

def joinedError (renameError kind reason : Text) : Text :=
  if reason = [] then renameError
  else renameError ++ "; ".toList ++ kind ++ " fallback failed: ".toList ++
    chomp reason

/-- The last lines: the prepared file is removed. -/
def giveUp (names : FileNames) (renameError : Text) :
    FileProcedure Ending := do
  match ← Procedure.ask (.doesExist .source) with
  | .ok _ =>
    let _ ← Procedure.ask (.unlink .source)
  | .error _ => pure ()
  return .error ("Unable to rename ".toList ++ names.source ++
    " to ".toList ++ names.target ++ ": ".toList ++ renameError)

/-- The fallbacks of a round, and what follows when they fail. -/
def fallBack (names : FileNames) (renameError : Text)
    (next : Text → FileProcedure Ending) : FileProcedure Ending := do
  match ← Procedure.ask .moveItem with
  | .ok _ => return .ok ()
  | .error moveReason =>
    let renameError :=
      joinedError renameError "PowerShell Move-Item".toList moveReason
    match ← overwriteStateFileInPlace names with
    | .ok () => return .ok ()
    | .error reason =>
      next (joinedError renameError "in-place overwrite".toList reason)

/-- What follows a round: the last one gives up, the others try again. -/
def afterRound (names : FileNames) (isLast : Bool)
    (again : Text → FileProcedure Ending) (renameError : Text) :
    FileProcedure Ending :=
  if isLast then giveUp names renameError
  else do
    match ← Procedure.ask .renameFile with
    | .ok _ => return .ok ()
    | .error reason => again reason

def replaceRounds (names : FileNames) :
    Nat → Text → FileProcedure Ending
  | 0, renameError => giveUp names renameError
  | left + 1, renameError => do
      let next :=
        afterRound names (decide (left = 0)) (replaceRounds names left)
      match ← Procedure.ask (.doesExist .target) with
      | .error _ => fallBack names renameError next
      | .ok _ =>
        match ← Procedure.ask (.unlink .target) with
        | .error reason =>
          return .error ("Unable to remove ".toList ++ names.target ++
            " before Windows replace retry: ".toList ++ reason)
        | .ok _ =>
          match ← Procedure.ask .renameFile with
          | .ok _ => return .ok ()
          | .error reason => fallBack names reason next

/-- `_replace_state_file`. -/
def replaceStateFile (isWindows : Bool) (names : FileNames) :
    FileProcedure Ending := do
  match ← Procedure.ask .renameFile with
  | .ok _ => return .ok ()
  | .error reason =>
    if isWindows then replaceRounds names 10 reason
    else giveUp names reason

/-- `_replace_helper_file`. -/
def replaceHelperFile (isWindows : Bool) (names : FileNames) :
    FileProcedure Ending := do
  match ← Procedure.ask .renameFile with
  | .ok _ => return .ok ()
  | .error reason =>
    if isWindows then
      match ← Procedure.ask (.doesExist .target) with
      | .error _ => giveUp names reason
      | .ok _ =>
        match ← Procedure.ask (.unlink .target) with
        | .error reason =>
          return .error ("Unable to remove ".toList ++ names.target ++
            " before Windows helper replace retry: ".toList ++ reason)
        | .ok _ =>
          match ← Procedure.ask .renameFile with
          | .ok _ => return .ok ()
          | .error reason => giveUp names reason
    else giveUp names reason

/-- `_write_helper_atomically`; the print is not checked. -/
def writeHelperAtomically (isWindows : Bool) (names : FileNames)
    (content : Bytes) : FileProcedure Ending := do
  match ← Procedure.ask (.openFile .source) with
  | .error reason =>
    return .error ("Unable to write ".toList ++ names.source ++
      ": ".toList ++ reason)
  | .ok _ =>
    let _ ← Procedure.ask (.printTo .source content)
    match ← Procedure.ask (.closeFile .source content) with
    | .error reason =>
      return .error ("Unable to close ".toList ++ names.source ++
        ": ".toList ++ reason)
    | .ok _ => replaceHelperFile isWindows names

end DeveloperDashboard.Files
