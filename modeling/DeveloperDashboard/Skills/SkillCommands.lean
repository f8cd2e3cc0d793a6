import DeveloperDashboard.Skills.InstalledSkills

namespace DeveloperDashboard.Skills

open Library Perl

/-!
# Commands of skills

A command is a text with dots.  Its leading parts may be the names of nested
skills, so that each place where it can be cut gives a file that may be the
command; and a skill may have an initializer for what is not found.  The
commands and hooks are looked for in all layers of the skill.
-/

structure DottedCommand where
  text : Text
  plain : '/' ∉ text

/-- The non-empty parts of `split /\./, $command`. -/
def commandSegments (command : Text) : List Text :=
  (command.splitOn '.').filter fun segment => decide (segment ≠ [])

/-- A candidate of `_command_root_specs`. -/
structure CommandRootSpec where
  nestedSegments : List Text
  commandName : Text
  initOnly : Bool
deriving DecidableEq

/-- Whether `validated_path_segments` leaves these names as they are. -/
def areValidSegments (segments : List Text) : Bool :=
  decide
    ((validatedPathSegments (['/'].intercalate segments)).length =
      segments.length)

/-- The candidate that cuts a command after some of its segments. -/
def splitSpec (segments : List Text) (splitIndex : Nat) :
    Option CommandRootSpec :=
  if areValidSegments (segments.take splitIndex) then
    some
      { nestedSegments := segments.take splitIndex
        commandName := ['.'].intercalate (segments.drop splitIndex)
        initOnly := false }
  else none

/-- The candidate of a command that names a nested skill. -/
def terminalSpec (segments : List Text) : Option CommandRootSpec :=
  if areValidSegments segments then
    some
      { nestedSegments := segments
        commandName := "__init__".toList
        initOnly := true }
  else none

/-- `_command_root_specs`. -/
def commandRootSpecs (segments : List Text) : List CommandRootSpec :=
  if segments = [] then []
  else
    { nestedSegments := []
      commandName := ['.'].intercalate segments
      initOnly := false } ::
        (List.range' 1 (segments.length - 1)).filterMap
          (splitSpec segments) ++
      (terminalSpec segments).toList

/-- The pattern `\.[^\\\/.]+\z`, on a path with this last name. -/
def hasExtension (name : Text) : Bool :=
  let after := ((name.splitOn '.').getLast?).getD []
  name.contains '.' && decide (after ≠ []) && !after.contains '\\'

/-- The last names of `_runnable_path_candidates`. -/
def runnableCandidates (name : Text) : List Text :=
  if hasExtension name then [name]
  else
    name ::
      [".pl", ".py", ".js", ".go", ".java", ".ps1", ".cmd", ".bat", ".sh",
          ".bash"].map fun suffix =>
        name ++ suffix.toList

/-- The result of `_command_spec`. -/
structure CommandSpec where
  cmdPath : Path
  skillPath : Path
  skillLayers : List Path
  envSkillLayers : List Path
  commandName : Text
deriving DecidableEq

inductive Dispatched where
  | error (text : String)
  /-- `unknown_skill_command_message`. -/
  | unknownCommand (skillName command : Text)
  /-- `_native_version_fallback`. -/
  | versionFallback (skillName : Text)
  | run (hooks : List Path) (cmdPath : Path)
deriving DecidableEq

def Dispatched.files : Dispatched → List Path
  | .run hooks cmdPath => hooks ++ [cmdPath]
  | _ => []

variable {Content : Type}

namespace PathRegistry

/-- `_nested_skill_path`. -/
def nestedSkillPath (skillPath : Path) (segments : List Text) : Path :=
  skillPath ++ segments.flatMap fun segment => ["skills".toList, segment]

def cliRoot (skillPath : Path) : Path :=
  skillPath ++ ["cli".toList]

section

variable (paths : PathRegistry Content) (executable : Content → Bool)

/-- `resolve_runnable_file` of a name in a directory. -/
def resolveRunnableFile (dir : Path) (name : Text) : Option Path :=
  ((runnableCandidates name).map fun candidate =>
    dir ++ [candidate]).find? fun candidate =>
      (paths.tree.content? candidate).any executable

/-- The `@provider_layers` of a candidate. -/
def providerLayers (layers : List Path) (nested : List Text) : List Path :=
  (layers.map fun layer => nestedSkillPath layer nested).filter
    fun provider => nested.isEmpty || paths.tree.isFolder provider

/-- The `@env_skill_layers` of a candidate. -/
def envLayers : List Path → List Text → List Path
  | frontier, [] => frontier
  | frontier, segment :: rest =>
    frontier ++
      envLayers
        ((frontier.map fun root =>
          nestedSkillPath root [segment]).filter paths.tree.isFolder)
        rest

def findCommand (layers : List Path) (nested : List Text)
    (fileName commandName : Text) :
    Option CommandSpec :=
  let providers := paths.providerLayers layers nested
  providers.reverse.findSome? fun provider =>
    (paths.resolveRunnableFile executable (cliRoot provider) fileName).map
      fun cmdPath =>
        { cmdPath := cmdPath
          skillPath := provider
          skillLayers := providers
          envSkillLayers := paths.envLayers layers nested
          commandName := commandName }

def findExplicit (layers : List Path) (spec : CommandRootSpec) :
    Option CommandSpec :=
  paths.findCommand executable layers spec.nestedSegments spec.commandName
    spec.commandName

def findInitializer (layers : List Path) (spec : CommandRootSpec) :
    Option CommandSpec :=
  paths.findCommand executable layers spec.nestedSegments
    "__init__".toList
    (if spec.initOnly then "__init__".toList else spec.commandName)

/-- The two loops of `_command_spec`, over the layers of the skill. -/
def commandSpecIn (layers : List Path) (segments : List Text) :
    Option CommandSpec :=
  let specs := commandRootSpecs segments
  ((specs.filter fun spec => !spec.initOnly).findSome?
      (paths.findExplicit executable layers)).or
    (specs.reverse.findSome? (paths.findInitializer executable layers))

/-- `_command_spec`. -/
def commandSpec (skillName command : Text) : Option CommandSpec :=
  if !isTrue skillName || !isTrue command then none
  else
    paths.commandSpecIn executable (paths.dispatcherSkillLayers skillName)
      (commandSegments command)

/-- `command_path`. -/
def commandPath (skillName command : Text) : Option Path :=
  (paths.commandSpec executable skillName command).map CommandSpec.cmdPath

/-- The runnable files below `cli/<command>.d` of the layers. -/
def hookPaths (layers : List Path) (commandName : Text) : List Path :=
  layers.flatMap fun layer =>
    let hooksDir := cliRoot layer ++ [commandName ++ ".d".toList]
    if !paths.tree.isFolder hooksDir then []
    else
      ((paths.sortedNames hooksDir).filter fun entry =>
          (paths.resolveRunnableFile executable hooksDir entry).isSome).map
        fun entry => hooksDir ++ [entry]

/-- `command_hook_paths`. -/
def commandHookPaths (skillName command : Text) : List Path :=
  match paths.commandSpec executable skillName command with
  | none => []
  | some spec =>
    paths.hookPaths executable spec.skillLayers spec.commandName

/-- `get_skill_path`, of disabled skills too. -/
def getSkillPath (repoName : Text) : Option Path :=
  if !isTrue repoName then none
  else
    (paths.installedSkillRoots true paths.directoryInventory).find?
      fun skillPath => decide (skillPath.getLast? = some repoName)

/-- `is_enabled`. -/
def isEnabled (repoName : Text) : Bool :=
  match paths.getSkillPath repoName with
  | none => false
  | some skillPath => !paths.isDisabled skillPath

/-- The hooks that `execute_hooks` runs. -/
def executeHooks (skillName command : Text) : List Path :=
  if !isTrue skillName || !isTrue command then []
  else if (paths.getSkillPath skillName).isNone then []
  else if !paths.isEnabled skillName then []
  else
    match paths.commandSpec executable skillName command with
    | none =>
      paths.hookPaths executable (paths.dispatcherSkillLayers skillName)
        command
    | some spec =>
      paths.hookPaths executable spec.skillLayers spec.commandName

/-- The hooks that `_execute_hooks_streaming` runs. -/
def executeHooksStreaming
    (skillName : Text) (layers : List Path) (commandName : Text) :
    List Path :=
  if !isTrue skillName || !isTrue commandName then []
  else paths.hookPaths executable layers commandName

/-- What `dispatch` and `exec_command` check first, and what then runs. -/
def dispatchWith
    (skillName command : Text) (hooks : CommandSpec → List Path) :
    Dispatched :=
  if !isTrue skillName then .error "Missing skill name"
  else if !isTrue command then .error "Missing command name"
  else if (paths.getSkillPath skillName).isNone then
    .unknownCommand skillName command
  else if !paths.isEnabled skillName then .unknownCommand skillName command
  else
    match paths.commandSpec executable skillName command with
    | none =>
      if command = "version".toList then .versionFallback skillName
      else .unknownCommand skillName command
    | some spec => .run (hooks spec) spec.cmdPath

/-- `dispatch`. -/
def dispatch (skillName command : Text) : Dispatched :=
  paths.dispatchWith executable skillName command fun _ =>
    paths.executeHooks executable skillName command

/-- `exec_command`, which has `_execute_hooks_streaming` run the hooks. -/
def execCommand (skillName command : Text) : Dispatched :=
  paths.dispatchWith executable skillName command fun spec =>
    paths.executeHooksStreaming executable skillName spec.skillLayers
      spec.commandName

end

end PathRegistry

end DeveloperDashboard.Skills
