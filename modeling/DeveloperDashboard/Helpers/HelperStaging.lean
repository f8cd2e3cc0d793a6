import DeveloperDashboard.Files.ReplaceFile
import DeveloperDashboard.Library.FileTreeEdits

namespace DeveloperDashboard.Helpers

open Perl

/-!
# The content of helpers

What is staged for each built-in helper: the shipped file with some lines
rewritten, an ownership marker and a version.  A file with the marker, or with
phrases of older releases, counts as staged.
-/

/-- `helper_names`. -/
def helperNames : List Text :=
  ["jq", "yq", "tomq", "propq", "iniq", "csvq", "xmlq", "of", "open-file",
    "workspace", "file", "files", "path", "paths", "ps1", "encode", "decode",
    "indicator", "collector", "config", "auth", "api", "ask", "init", "cpan",
    "page", "action", "docker", "serve", "stop", "restart", "log", "shell",
    "doctor", "housekeeper", "skills", "which", "upgrade",
    "complete"].map String.toList

/-- `helper_aliases`. -/
def helperAliases : List (Text × Text) :=
  [("pjq", "jq"), ("pyq", "yq"), ("ptomq", "tomq"), ("pjp", "propq"),
    ("skill", "skills"), ("logs", "log")].map fun entry =>
      (entry.1.toList, entry.2.toList)

def coreName : Text :=
  "_dashboard-core".toList

def retiredName : Text :=
  "skill".toList

def managedNames : List Text :=
  coreName :: helperNames

/-- `canonical_helper_name`; `none` is the empty string. -/
def canonicalHelperName (name : Text) : Option Text :=
  if helperNames.any fun other => decide (other = name) then some name
  else (helperAliases.find? fun entry => decide (entry.1 = name)).map Prod.snd

/-- `_helper_uses_dashboard_core`. -/
def helperUsesDashboardCore (name : Text) : Bool :=
  (["encode", "decode", "indicator", "collector", "config", "auth", "api",
    "ask", "init", "cpan", "page", "action", "docker", "serve", "stop",
    "restart", "log", "shell", "doctor", "housekeeper", "skills",
    "which"].map String.toList).any fun other => decide (other = name)

def literal (text : String) : Bytes :=
  utf8Bytes text.toList

/-- `$legacy_block`. -/
def legacyBlock : Bytes :=
  literal ("my $command = basename($0);\n" ++
    "my $core = File::Spec->catfile( $Bin, '_dashboard-core' );\n" ++
    "exec \x7b $^X \x7d $^X, $core, $command, @ARGV;\n" ++
    "die \"Unable to exec $core for $command: $!\";\n")

/-- What stands behind the name in `$managed_block`. -/
def managedTail : Bytes :=
  literal ("';\n" ++
    "my $core = File::Spec->catfile( $Bin, '_dashboard-core' );\n" ++
    "my $running_helper = eval \x7b require Cwd; " ++
    "Cwd::abs_path($0) \x7d || $0;\n" ++
    "$ENV\x7bDEVELOPER_DASHBOARD_RUNNING_HELPER\x7d ||= " ++
    "$running_helper;\n" ++
    "if (is_windows()) \x7b\n" ++
    "    eval \x7b\n" ++
    "        require Developer::Dashboard::InternalCLI;\n" ++
    "        my $shipped_core = Developer::Dashboard::InternalCLI::" ++
    "_helper_asset_path('_dashboard-core');\n" ++
    "        $core = $shipped_core if defined $shipped_core && " ++
    "$shipped_core ne q\x7b\x7d && -f $shipped_core;\n" ++
    "        1;\n" ++
    "    \x7d or do \x7b\n" ++
    "        # Keep the staged sibling core path when the shipped helper " ++
    "asset is unavailable.\n" ++
    "    \x7d;\n" ++
    "\x7d\n" ++
    "if ( !defined $ENV\x7bDEVELOPER_DASHBOARD_REPO_LIB\x7d || " ++
    "$ENV\x7bDEVELOPER_DASHBOARD_REPO_LIB\x7d eq q\x7b\x7d ) \x7b\n" ++
    "    for my $inc (@INC) \x7b\n" ++
    "        next if !defined $inc || $inc eq q\x7b\x7d;\n" ++
    "        my $candidate = File::Spec->catfile( $inc, 'Developer', " ++
    "'Dashboard.pm' );\n" ++
    "        if ( -f $candidate ) \x7b\n" ++
    "            $ENV\x7bDEVELOPER_DASHBOARD_REPO_LIB\x7d = $inc;\n" ++
    "            last;\n" ++
    "        \x7d\n" ++
    "    \x7d\n" ++
    "\x7d\n" ++
    "my @command = ( $^X, $core, $command, @ARGV );\n" ++
    "if (is_windows()) \x7b\n" ++
    "    system @command;\n" ++
    "    my $status = $?;\n" ++
    "    my $exit_code = $status > 255 ? $status >> 8 : $status;\n" ++
    "    exit $exit_code;\n" ++
    "\x7d\n" ++
    "exec \x7b $^X \x7d @command;\n" ++
    "die \"Unable to exec $core for $command: $!\";\n")

def commandHead : Bytes :=
  literal "my $command = '"

/-- `$managed_block`. -/
def managedBlock (name : Text) : Bytes :=
  commandHead ++ utf8Bytes name ++ managedTail

/-- What stands behind the name in the last pattern. -/
def commandTail : Bytes :=
  literal ("';\n" ++
    "my $core = File::Spec->catfile( $Bin, '_dashboard-core' );\n" ++
    "my @command = ( $^X, $core, $command, @ARGV );\n" ++
    "if (is_windows()) \x7b\n" ++
    "    system @command;\n" ++
    "    my $status = $?;\n" ++
    "    my $exit_code = $status > 255 ? $status >> 8 : $status;\n" ++
    "    exit $exit_code;\n" ++
    "\x7d\n" ++
    "exec \x7b $^X \x7d @command;\n" ++
    "die \"Unable to exec $core for $command: $!\";")

/-- The last pattern: a quoted name between two literals. -/
def afterCommand (text : Bytes) : Option Bytes :=
  (afterLiteral commandHead text).bind fun quoted =>
    if (quoted.takeWhile fun byte => decide (byte ≠ 39)).isEmpty then none
    else
      afterLiteral commandTail
        (quoted.dropWhile fun byte => decide (byte ≠ 39))

def platformLine : Bytes :=
  literal "use Developer::Dashboard::Platform qw(is_windows);\n"

def findBinLines : Bytes :=
  literal "use File::Spec;\nuse FindBin qw($Bin);\n"

/-- The substitutions for a helper that uses the shared one. -/
def rewriteWrapper (name : Text) (content : Bytes) : Bytes :=
  let content :=
    replaceFirst (afterLiteral (literal "use File::Basename qw(basename);\n"))
      [] content
  let content := removeAll platformLine 0 content
  let content :=
    replaceFirst (afterLiteral findBinLines) (findBinLines ++ platformLine)
      content
  let content :=
    replaceFirst (afterLiteral legacyBlock) (managedBlock name) content
  replaceFirst afterCommand (managedBlock name) content

/-- `_managed_helper_marker`. -/
def managedHelperMarker (name : Text) : Bytes :=
  literal "# developer-dashboard-managed-helper: " ++ utf8Bytes name

/-- `_managed_helper_version_marker`. -/
def managedHelperVersionMarker : Bytes :=
  literal "# developer-dashboard-managed-helper-version: 6.29"

/-- The first line with its newline, if it starts with `#!`. -/
def shebangLine? (content : Bytes) : Option Bytes :=
  let line := content.takeWhile fun byte => decide (byte ≠ 10)
  if (literal "#!").isPrefixOf line && decide (line ≠ content) then
    some (line ++ [10])
  else none

def markContent (name : Text) (content : Bytes) : Bytes :=
  let marker := managedHelperMarker name ++ [10]
  let version := managedHelperVersionMarker ++ [10]
  if hasLiteral marker content then
    if hasLiteral version content then content
    else replaceFirst (afterLiteral marker) (marker ++ version) content
  else
    match shebangLine? content with
    | some line => line ++ marker ++ version ++ content.drop line.length
    | none => marker ++ version ++ content

/-- `_managed_helper_content`, of the shipped file. -/
def managedHelperContent (name : Text) (shipped : Bytes) : Bytes :=
  markContent name
    (if helperUsesDashboardCore name then rewriteWrapper name shipped
    else shipped)

/-- `_is_dashboard_managed_helper`. -/
def isDashboardManagedHelper (content : Bytes) (name : Text) : Bool :=
  hasLine 10 (managedHelperMarker name) content ||
    (decide (name = coreName) &&
      hasLiteral (literal "Missing built-in dashboard command") content &&
      hasLiteral (literal "Developer::Dashboard::CLI::SeededPages")
        content) ||
    (hasLiteral (literal "LAZY-THIN-CMD") content &&
      hasLiteral (literal "Developer Dashboard") content)

/-- What `_managed_helper_file_current` asks of a content. -/
def isCurrentContent (content : Bytes) (name : Text) : Bool :=
  isDashboardManagedHelper content name &&
    hasLine 10 managedHelperVersionMarker content

theorem markContent_ne_nil (name : Text) (content : Bytes) :
    markContent name content ≠ [] := by
  have given : managedHelperMarker name ++ [10] ≠ [] := by simp
  unfold markContent
  dsimp only
  split
  · next marked =>
      have nonempty := ne_nil_of_hasLiteral given marked
      split
      · exact nonempty
      · exact replaceFirst_ne_nil (by simp) nonempty
  · split <;> simp

open Library Files

/-!
# Staging helpers

`ensure_helpers`, `ensure_dashboard_core` and `ensure_helper` outside Windows,
as procedures on a file tree: every step that they make on the files is a
call, which can fail and before which they can be cut off.
-/

abbrev HelperPath :=
  List Text

/-- A regular file, or what is there and is neither one nor a folder. -/
inductive HelperFile where
  | regular (content : Bytes) (executable : Bool)
  | special
deriving DecidableEq

abbrev HelperTree :=
  FileTree Text HelperFile

inductive Change where
  | made (path : HelperPath)
  | written (path : HelperPath)
  | placed (path : HelperPath)
  | madeExecutable (path : HelperPath)
  | removed (path : HelperPath)
deriving DecidableEq

structure HelperWorld where
  tree : HelperTree
  changes : List Change

def HelperWorld.record (world : HelperWorld) (change : Change)
    (tree : HelperTree) : HelperWorld :=
  ⟨tree, world.changes ++ [change]⟩

def regular? (tree : HelperTree) (path : HelperPath) : Option Bytes :=
  match tree.content? path with
  | some (.regular content _) => some content
  | _ => none

def writeRegular (tree : HelperTree) (path : HelperPath) (content : Bytes) :
    Option HelperTree :=
  match tree.entries.lookup path with
  | none => tree.writeFile path (.regular content false)
  | some (.file (.regular _ executable)) =>
    tree.writeFile path (.regular content executable)
  | _ => none

/-- `chmod` with the mode 0700. -/
def setExecutable (tree : HelperTree) (path : HelperPath) :
    Option HelperTree :=
  (regular? tree path).bind fun content =>
    tree.writeFile path (.regular content true)

/-- `rename`, of a file. -/
def moveFile (tree : HelperTree) (source target : HelperPath) :
    Option HelperTree :=
  (tree.content? source).bind fun file =>
    (tree.writeFile target file).bind fun moved => moved.removeFile source

/-- `unlink`, of a file that is there. -/
def unlinkFile (tree : HelperTree) (path : HelperPath) : Option HelperTree :=
  if tree.isFile path then tree.removeFile path else none

/-- Tests and changes; `pair` is a call on a prepared file and its target. -/
inductive HelperCall where
  | isFolder (path : HelperPath)
  | isThere (path : HelperPath)
  | isRegular (path : HelperPath)
  | isEmpty (path : HelperPath)
  | read (path : HelperPath)
  | makeFolder (path : HelperPath)
  | makeExecutable (path : HelperPath)
  | unlink (path : HelperPath)
  | pair (source target : HelperPath) (call : FileCall)
deriving DecidableEq

def pathOf (source target : HelperPath) : Place → HelperPath
  | .source => source
  | .target => target

def testAnswer (holds : Bool) : Answer :=
  if holds then .ok [] else .error []

def pairEffect (source target : HelperPath) :
    Procedure.Effect HelperWorld FileCall Outcome Answer
  | world, .renameFile, .succeeds =>
    (moveFile world.tree source target).map fun tree =>
      (world.record (.placed target) tree, some (.ok []))
  | world, .doesExist place, .succeeds =>
    some (world, some (testAnswer
      (world.tree.entries.lookup (pathOf source target place)).isSome))
  | world, .unlink place, .succeeds =>
    (unlinkFile world.tree (pathOf source target place)).map fun tree =>
      (world.record (.removed (pathOf source target place)) tree,
        some (.ok []))
  | world, .openFile place, .succeeds =>
    (writeRegular world.tree (pathOf source target place) []).map
      fun tree =>
        (world.record (.written (pathOf source target place)) tree,
          some (.ok []))
  | world, .printTo _ _, .succeeds => some (world, some (.ok []))
  | world, .printTo place content, .shows length
  | world, .closeFile place content, .shows length =>
    (writeRegular world.tree (pathOf source target place)
      (content.take length)).map fun tree =>
        (world.record (.written (pathOf source target place)) tree, none)
  | world, .closeFile place content, .succeeds =>
    (writeRegular world.tree (pathOf source target place) content).map
      fun tree =>
        (world.record (.written (pathOf source target place)) tree,
          some (.ok []))
  | _, .doesExist _, .fails _ => none
  | world, _, .fails reason => some (world, some (.error reason))
  | _, _, _ => none

def helperEffect : Procedure.Effect HelperWorld HelperCall Outcome Answer
  | world, .isFolder path, .succeeds =>
    some (world, some (testAnswer (world.tree.isFolder path)))
  | world, .isThere path, .succeeds =>
    some (world, some (testAnswer (world.tree.entries.lookup path).isSome))
  | world, .isRegular path, .succeeds =>
    some (world, some (testAnswer (regular? world.tree path).isSome))
  | world, .isEmpty path, .succeeds =>
    some (world,
      some (testAnswer (decide (regular? world.tree path = some []))))
  | world, .read path, .succeeds =>
    (regular? world.tree path).map fun content =>
      (world, some (.ok content))
  | world, .makeFolder path, .succeeds =>
    (world.tree.makeFolder path).map fun tree =>
      (world.record (.made path) tree, some (.ok []))
  | world, .makeExecutable path, .succeeds =>
    (setExecutable world.tree path).map fun tree =>
      (world.record (.madeExecutable path) tree, some (.ok []))
  | world, .unlink path, .succeeds =>
    (unlinkFile world.tree path).map fun tree =>
      (world.record (.removed path) tree, some (.ok []))
  | world, .pair source target call, outcome =>
    pairEffect source target world call outcome
  | world, .read _, .fails reason
  | world, .makeFolder _, .fails reason
  | world, .makeExecutable _, .fails reason
  | world, .unlink _, .fails reason =>
    some (world, some (.error reason))
  | _, _, _ => none

/-- A procedure that dies with a text, or returns. -/
abbrev Staging (Result : Type) :=
  ExceptT Text (Procedure HelperCall Answer) Result

def test (call : HelperCall) : Staging Bool := do
  let answer ← ExceptT.lift (Procedure.ask call)
  return answer.toBool

def callOrDie (call : HelperCall) (opening : Text) : Staging Bytes := do
  match ← ExceptT.lift (Procedure.ask call) with
  | .ok content => return content
  | .error reason => throw (opening ++ ": ".toList ++ reason)

def pathText (path : HelperPath) : Text :=
  '/' :: ['/'].intercalate path

def leadingPaths (path : HelperPath) : List HelperPath :=
  (List.range path.length).map fun index => path.take (index + 1)

/-- `make_path`. -/
def makePath : List HelperPath → Staging Unit
  | [] => return ()
  | path :: rest => do
      if ← test (.isFolder path) then makePath rest
      else
        let _ ← callOrDie (.makeFolder path) ("mkdir ".toList ++ pathText path)
        makePath rest

/-- `ensure_dir`. -/
def ensureDir (path : HelperPath) : Staging Unit := do
  if ← test (.isFolder path) then return ()
  else makePath (leadingPaths path)

/-- `open` and reading the whole file. -/
def readFile (path : HelperPath) : Staging Bytes :=
  callOrDie (.read path) ("Unable to read ".toList ++ pathText path)

def removeManaged (target : HelperPath) (name : Text) : Staging Bool := do
  if !(← test (.isThere target)) then return false
  else if !(← test (.isRegular target)) then return false
  else
    let content ← readFile target
    if !isDashboardManagedHelper content name then return false
    else
      let _ ← callOrDie (.unlink target)
        ("Unable to remove managed helper ".toList ++ pathText target)
      return true

/-- The home runtime, the shipped files and the digest of contents. -/
structure HelperHost where
  home : HelperPath
  shipped : Text → Option Bytes
  digest : Bytes → Text

namespace HelperHost

variable (host : HelperHost)

/-- `_helper_parent_root`. -/
def parentRoot : HelperPath :=
  host.home ++ ["cli".toList]

/-- `_helper_install_root`. -/
def installRoot : HelperPath :=
  host.parentRoot ++ ["dd".toList]

/-- `helper_path`, and `dashboard_core_path`, of a name that is staged. -/
def helperPath (name : Text) : HelperPath :=
  host.installRoot ++ [name]

/-- The place of releases before there was a folder for helpers. -/
def flatPath (name : Text) : HelperPath :=
  host.parentRoot ++ [name]

/-- The prepared file of a helper: `target.tmp.pid.random`. -/
def tempPath (name suffix : Text) : HelperPath :=
  host.installRoot ++ [name ++ ".tmp.".toList ++ suffix]

/-- `_managed_helper_content` of a name. -/
def content? (name : Text) : Option Bytes :=
  (host.shipped name).map (managedHelperContent name)

/-- `_write_helper_atomically`. -/
def writeHelper (name suffix : Text) (content : Bytes) : Staging Unit :=
  ExceptT.mk
    ((writeHelperAtomically false
      ⟨pathText (host.tempPath name suffix),
        pathText (host.helperPath name)⟩ content).mapCall
      (.pair (host.tempPath name suffix) (host.helperPath name)))

/-- `_stage_managed_helper`. -/
def stageManagedHelper (name suffix : Text) : Staging Bool :=
  match host.content? name with
  | none => throw ("Unable to read ".toList ++ name)
  | some content => do
      let target := host.helperPath name
      if ← test (.isThere target) then
        if !(← test (.isRegular target)) then return false
        else if ← test (.isEmpty target) then
          host.writeHelper name suffix content
          return true
        else
          let existing ← readFile target
          if !isDashboardManagedHelper existing name then return false
          else if decide (host.digest existing = host.digest content) then
            return false
          else
            host.writeHelper name suffix content
            return true
      else
        host.writeHelper name suffix content
        return true

/-- A helper is staged and made executable; whether it was written. -/
def stageAndSecure (name suffix : Text) : Staging Bool := do
  if ← host.stageManagedHelper name suffix then
    let _ ← callOrDie (.makeExecutable (host.helperPath name))
      ("Unable to chmod ".toList ++ pathText (host.helperPath name) ++
        " to 0700".toList)
    return true
  else return false

/-- The loop of `ensure_helpers`. -/
def stageNames (suffix : Text → Text) : List Text → Staging (List HelperPath)
  | [] => return []
  | name :: rest => do
      let isWritten ← host.stageAndSecure name (suffix name)
      let written ← stageNames suffix rest
      return if isWritten then host.helperPath name :: written else written

/-- `_remove_retired_managed_helper`. -/
def removeRetiredManagedHelper : Staging Bool :=
  removeManaged (host.helperPath retiredName) retiredName

/-- `_remove_legacy_managed_flat_helpers`, from a name on. -/
def removeLegacyManagedFlatHelpers : List Text → Staging (List HelperPath)
  | [] => return []
  | name :: rest => do
      let isRemoved ← removeManaged (host.flatPath name) name
      let removed ← removeLegacyManagedFlatHelpers rest
      return if isRemoved then host.flatPath name :: removed else removed

/-- `_managed_helper_file_current`. -/
def managedHelperFileCurrent (name : Text) : Staging Bool := do
  if !(← test (.isRegular (host.helperPath name))) then return false
  else
    let content ← readFile (host.helperPath name)
    return isCurrentContent content name

def refreshHelper (name suffix : Text) : Staging (List HelperPath) := do
  if ← host.managedHelperFileCurrent name then return []
  else if ← host.stageAndSecure name suffix then
    return [host.helperPath name]
  else return []

def ensureRoots : Staging Unit := do
  ensureDir host.parentRoot
  ensureDir host.installRoot

/-- The last steps of `ensure_helpers` and `ensure_helper`. -/
def removeOldHelpers : Staging Unit := do
  let _ ← host.removeRetiredManagedHelper
  let _ ← host.removeLegacyManagedFlatHelpers managedNames
  return ()

/-- `ensure_helpers`. -/
def ensureHelpers (skipNames : List Text) (suffix : Text → Text) :
    Staging (List HelperPath) := do
  host.ensureRoots
  let _ ← host.stageAndSecure coreName (suffix coreName)
  let written ←
    host.stageNames suffix (helperNames.filter fun name =>
      !skipNames.any fun skipped => decide (skipped = name))
  host.removeOldHelpers
  return written

/-- `ensure_dashboard_core`. -/
def ensureDashboardCore (suffix : Text → Text) : Staging (List HelperPath) := do
  host.ensureRoots
  host.refreshHelper coreName (suffix coreName)

/-- `ensure_helper`. -/
def ensureHelper (given : Text) (suffix : Text → Text) :
    Staging (List HelperPath) :=
  match canonicalHelperName given with
  | none =>
    throw ("Unsupported helper command '".toList ++ given ++ ['\''])
  | some name => do
      host.ensureRoots
      let core ←
        (if helperUsesDashboardCore name then
          host.refreshHelper coreName (suffix coreName)
        else pure [] : Staging (List HelperPath))
      let written ← host.refreshHelper name (suffix name)
      host.removeOldHelpers
      return core ++ written

end HelperHost

inductive Ensured where
  | helpers (skipNames : List Text)
  | core
  | helper (name : Text)
deriving DecidableEq

/-- A run, with the process id and the random number for each prepared file. -/
structure HelperRun where
  ensured : Ensured
  suffix : Text → Text

def HelperRun.procedure (host : HelperHost) (run : HelperRun) :
    Procedure HelperCall Answer (Except Text (List HelperPath)) :=
  match run.ensured with
  | .helpers skipNames => (host.ensureHelpers skipNames run.suffix).run
  | .core => (host.ensureDashboardCore run.suffix).run
  | .helper name => (host.ensureHelper name run.suffix).run

end DeveloperDashboard.Helpers
