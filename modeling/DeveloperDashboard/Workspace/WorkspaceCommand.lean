import DeveloperDashboard.Library.Entries
import DeveloperDashboard.Perl.Text
import Mathlib.Data.List.Dedup
import Mathlib.Data.List.Sort
import Mathlib.Data.List.SplitOn

namespace DeveloperDashboard.Workspace

open Library Perl

/-!
# The tmux server

What the dashboard relies on: a target is the session of that name, or else
the only one whose name begins so, or else the only one whose name it matches
as a pattern; and periods and colons of a new name become underscores.
-/

/-- The variables of a session, or the global options. -/
abbrev Environment :=
  Entries Text Text

def tmuxName (name : Text) : Text :=
  name.map fun char => if char = '.' ∨ char = ':' then '_' else char

/-- The sessions by their names, and the global options. -/
structure TmuxServer where
  sessions : Entries Text Environment
  options : Environment
  nodup : (sessions.map Prod.fst).Nodup
  named : ∀ name ∈ sessions.map Prod.fst, tmuxName name = name

def onlyName : List Text → Option Text
  | [name] => some name
  | _ => none

theorem tmuxName_tmuxName (name : Text) :
    tmuxName (tmuxName name) = tmuxName name := by
  unfold tmuxName
  rw [List.map_map]
  refine List.map_congr_left ?_
  intro char _
  by_cases separates : char = '.' ∨ char = ':'
  · simp [separates]
  · simp [separates]

variable {name : Text}

theorem mem_of_onlyName {names : List Text}
    (only : onlyName names = some name) : name ∈ names := by
  unfold onlyName at only
  split at only
  · obtain rfl := Option.some.inj only
    exact List.mem_cons_self
  · cases only

variable {session : Text}

namespace TmuxServer

variable (server : TmuxServer)

def names : List Text :=
  server.sessions.map Prod.fst

def hasName (name : Text) : Bool :=
  server.names.any fun other => decide (other = name)

def target? (fnmatch : Text → Text → Bool) (target : Text) : Option Text :=
  if server.hasName target then some target
  else if (server.names.filter fun name => target.isPrefixOf name).isEmpty
  then onlyName (server.names.filter fun name => fnmatch target name)
  else onlyName (server.names.filter fun name => target.isPrefixOf name)

def adjust (session : Text) (change : Environment → Environment) :
    TmuxServer where
  sessions :=
    server.sessions.mapValues fun name environment =>
      if name = session then change environment else environment
  options := server.options
  nodup := by
    unfold Entries.mapValues
    rw [List.map_map]
    exact server.nodup
  named := by
    unfold Entries.mapValues
    rw [List.map_map]
    exact server.named

def withOptions (options : Environment) : TmuxServer :=
  { server with options }

theorem not_mem_of_hasName
    (fresh : server.hasName name = false) : name ∉ server.names := by
  intro isName
  unfold hasName at fresh
  rw [List.any_eq_false] at fresh
  exact fresh name isName (decide_eq_true rfl)

/-- `new-session`, unless there is one of that name. -/
def newSession (name : Text) (environment : Environment) :
    Option TmuxServer :=
  if fresh : server.hasName (tmuxName name) = false then
    some
      { sessions := server.sessions ++ [(tmuxName name, environment)]
        options := server.options
        nodup := by
          rw [List.map_append, List.nodup_append]
          refine ⟨server.nodup, by simp, ?_⟩
          rintro one isOne other isOther rfl
          obtain rfl : one = tmuxName name := by simpa using isOther
          exact server.not_mem_of_hasName fresh isOne
        named := by
          intro other isOther
          rw [List.map_append] at isOther
          rcases List.mem_append.mp isOther with isOld | isNew
          · exact server.named other isOld
          · obtain rfl : other = tmuxName name := by simpa using isNew
            exact tmuxName_tmuxName name }
  else none

/-- `show-environment`: a variable of the session of a target. -/
def showEnvironment (fnmatch : Text → Text → Bool) (target name : Text) :
    Option Text :=
  (server.target? fnmatch target).bind fun session =>
    (server.sessions.lookup session).bind fun environment =>
      environment.lookup name

/-- `set-environment`: a variable is set, or unset with `-u`. -/
def setEnvironment (fnmatch : Text → Text → Bool) (target name : Text)
    (value : Option Text) : Option TmuxServer :=
  (server.target? fnmatch target).map fun session =>
    server.adjust session fun environment =>
      environment.assign (fun _ => value) name

variable {server}

theorem hasName_iff :
    server.hasName name = true ↔ name ∈ server.names := by
  unfold hasName
  rw [List.any_eq_true]
  constructor
  · rintro ⟨other, isName, same⟩
    exact of_decide_eq_true same ▸ isName
  · intro isName
    exact ⟨name, isName, decide_eq_true rfl⟩

@[simp] theorem names_adjust
    (session : Text) (change : Environment → Environment) :
    (server.adjust session change).names = server.names := by
  unfold names adjust Entries.mapValues
  rw [List.map_map]
  rfl

@[simp] theorem target?_adjust
    (fnmatch : Text → Text → Bool) (target session : Text)
    (change : Environment → Environment) :
    (server.adjust session change).target? fnmatch target =
      server.target? fnmatch target := by
  unfold target? hasName
  rw [names_adjust]

theorem mem_names_of_target? {fnmatch : Text → Text → Bool} {target : Text}
    (found : server.target? fnmatch target = some session) :
    session ∈ server.names := by
  unfold target? at found
  split at found
  · next isName =>
      obtain rfl := Option.some.inj found
      exact hasName_iff.mp isName
  · split at found
    · exact (List.mem_filter.mp (mem_of_onlyName found)).1
    · exact (List.mem_filter.mp (mem_of_onlyName found)).1

theorem target?_of_mem (fnmatch : Text → Text → Bool)
    (isName : session ∈ server.names) :
    server.target? fnmatch session = some session :=
  if_pos (hasName_iff.mpr isName)

theorem lookup_adjust (session other : Text)
    (change : Environment → Environment) :
    (server.adjust session change).sessions.lookup other =
      (server.sessions.lookup other).map fun environment =>
        if other = session then change environment else environment :=
  Entries.lookup_mapValues
    (fun name environment =>
      if name = session then change environment else environment)
    server.sessions other

theorem lookup_adjust_of_ne {other : Text}
    (different : other ≠ session) (change : Environment → Environment) :
    (server.adjust session change).sessions.lookup other =
      server.sessions.lookup other := by
  rw [lookup_adjust]
  simp [different]

theorem ext {other : TmuxServer}
    (sameSessions : server.sessions = other.sessions)
    (sameOptions : server.options = other.options) : server = other := by
  cases server
  cases other
  cases sameSessions
  cases sameOptions
  rfl

theorem adjust_adjust (session : Text)
    (first second : Environment → Environment) :
    (server.adjust session first).adjust session second =
      server.adjust session fun environment =>
        second (first environment) := by
  refine ext ?_ rfl
  unfold adjust Entries.mapValues
  dsimp only
  rw [List.map_map]
  refine List.map_congr_left ?_
  intro entry _
  by_cases same : entry.1 = session
  · simp [same]
  · simp [same]

theorem adjust_id (session : Text) :
    server.adjust session (fun environment => environment) = server := by
  refine ext ?_ rfl
  unfold adjust Entries.mapValues
  simp

theorem exists_lookup_of_mem (isName : session ∈ server.names) :
    ∃ environment, server.sessions.lookup session = some environment := by
  cases found : server.sessions.lookup session with
  | some environment => exact ⟨environment, rfl⟩
  | none =>
    exact absurd isName
      ((Entries.lookup_eq_none_iff server.sessions session).mp found)

theorem showEnvironment_eq {fnmatch : Text → Text → Bool} {target : Text}
    {environment : Environment}
    (found : server.target? fnmatch target = some session)
    (has : server.sessions.lookup session = some environment) (name : Text) :
    server.showEnvironment fnmatch target name =
      environment.lookup name := by
  unfold showEnvironment
  rw [found, Option.bind_some, has, Option.bind_some]

end TmuxServer

/-!
# The workspace command

The name, the directory and the variables are found first.  Then each call of
tmux gives the name as a target again: the check for a session, the check of
its owner, every variable that is set, and the attachment.
-/

def workspaceRef : Text :=
  "WORKSPACE_REF".toList

def ticketRef : Text :=
  "TICKET_REF".toList

/-- The variable that lists the keys of the layered files. -/
def workspaceEnvKeys : Text :=
  "DEVELOPER_DASHBOARD_WORKSPACE_ENV_KEYS".toList

/-- What the command is called with, and the process environment. -/
structure WorkspaceCommand where
  args : List Text
  envWorkspace : Option Text
  envTicket : Option Text
  processWorkspace : Option Text
  processTicket : Option Text

/-- The arguments without the options, and the options. -/
structure SplitArgs where
  clean : List Text
  changeDir : Bool
  docker : Bool
  forceBuild : Bool

/-- One round of `split_workspace_change_dir_args`. -/
def splitArg (split : SplitArgs) (arg : Text) : SplitArgs :=
  if arg = "-c".toList then { split with changeDir := true }
  else if arg = "-C".toList then
    { split with changeDir := true, forceBuild := true }
  else if arg = "-d".toList ∨ arg = "--docker".toList then
    { split with docker := true }
  else { split with clean := split.clean ++ [arg] }

/-- `split_workspace_change_dir_args`. -/
def splitWorkspaceChangeDirArgs (args : List Text) : SplitArgs :=
  args.foldl splitArg ⟨[], false, false, false⟩

def orNext (name next : Option Text) : Option Text :=
  if name.all List.isEmpty then next else name

/-- `resolve_workspace_request`. -/
def resolveWorkspaceRequest (command : WorkspaceCommand)
    (args : List Text) : Except Text Text :=
  let given :=
    orNext
      (orNext
        (orNext (orNext args.head? command.envWorkspace) command.envTicket)
        command.processWorkspace)
      command.processTicket
  if given.all List.isEmpty then
    .error "Please specify a workspace name\n".toList
  else .ok (given.getD [])

structure WorkspaceSetup where
  /-- `registered_workspace_dir`, empty for a name that is not registered. -/
  registeredDir : Text → Except Text Text
  isDirectory : Text → Bool
  isAbsolute : Text → Bool
  /-- `chdir`, with what `$!` says when it fails. -/
  changeDirectory : Text → Except Text Unit
  currentDirectory : Text
  /-- `_workspace_layered_env` of a directory. -/
  layeredEnv : Text → Except Text Environment
  /-- `_run_docker_workspace`, which asks no tmux of the host. -/
  runDocker : Text → Text → Bool → Except Text Unit
  /-- `shell_quote_for` of the dashboard command. -/
  quotedDashboard : Text
  fnmatch : Text → Text → Bool

namespace WorkspaceSetup

variable (setup : WorkspaceSetup)

/-- The directory that a name leads to, and the current one afterwards. -/
def enterTarget (workspace target : Text) (changeDir : Bool) :
    Except Text Text :=
  let named :=
    (if changeDir then " '" else " path alias '").toList ++ workspace
  if target = [] then
    if changeDir then
      .error ("Workspace".toList ++ named ++
        ("' is not a registered dashboard path, " ++
          "so -c has no directory to change into\n").toList)
    else .ok setup.currentDirectory
  else if setup.isDirectory target = false then
    .error ("Workspace".toList ++ named ++ "' resolves to '".toList ++
      target ++ "', which is not a directory\n".toList)
  else
    match setup.changeDirectory target with
    | .error reason =>
      .error ("Unable to change directory to '".toList ++ target ++
        "' for workspace".toList ++ named ++ "': ".toList ++ reason ++
        ['\n'])
    | .ok () => .ok target

/-- The name, the directory and the options of a request. -/
structure Request where
  workspace : Text
  target : Text
  cwd : Text
  docker : Bool
  forceBuild : Bool

def refusal (split : SplitArgs) (workspace : Text) : Option Text :=
  if split.forceBuild && !split.docker then
    some ("-C requires -d/--docker and a registered directory " ++
      "alias\n").toList
  else if split.docker && !split.changeDir then
    some ("--docker requires -c or -C and a registered directory " ++
      "alias\n").toList
  else if split.docker && setup.isAbsolute workspace then
    some ("Docker workspaces require a registered directory alias, " ++
      "not an absolute path\n").toList
  else none

/-- The steps of `run_workspace_command` before the plan. -/
def request (command : WorkspaceCommand) : Except Text Request :=
  let split := splitWorkspaceChangeDirArgs command.args
  (resolveWorkspaceRequest command split.clean).bind fun workspace =>
    match setup.refusal split workspace with
    | some reason => .error reason
    | none =>
      (setup.registeredDir workspace).bind fun target =>
        (setup.enterTarget workspace target split.changeDir).map fun cwd =>
          ⟨workspace, target, cwd, split.docker, split.forceBuild⟩

end WorkspaceSetup

/-- `_tmux_session_name` of a name that is not empty. -/
def tmuxSessionName (workspace : Text) : Text :=
  workspace.map fun char => if char = '.' then '_' else char

/-- `sort keys`. -/
def sortedKeys (environment : Environment) : List Text :=
  (environment.map Prod.fst).dedup.insertionSort (· ≤ ·)

/-- `workspace_environment`: the layered values are merged over the tags. -/
def workspaceEnvironment (workspace : Text) (layered : Environment) :
    Environment :=
  let tags : Environment :=
    [(workspaceRef, workspace), (ticketRef, workspace),
      ("B".toList, workspace),
      ("OB".toList, "origin/".toList ++ workspace),
      ("DEVELOPER_DASHBOARD_TMUX_STATUS".toList, "1".toList)]
  (tags.overlay (fun _ _ value => value) layered).store workspaceEnvKeys
    ([':'].intercalate (sortedKeys layered))

/-- `session_exists`, which takes the name `0` for a missing one. -/
def sessionExists (fnmatch : Text → Text → Bool) (server : TmuxServer)
    (session : Text) : Except Text Bool :=
  if Perl.isTrue session then
    .ok (server.target? fnmatch (tmuxSessionName session)).isSome
  else .error "Missing session name".toList

/-- What `build_workspace_plan` returns. -/
structure WorkspacePlan where
  session : Text
  tmuxSession : Text
  cwd : Text
  env : Environment
  doesExist : Bool

/-- `build_workspace_plan`, for the name that was resolved. -/
def buildWorkspacePlan (setup : WorkspaceSetup) (server : TmuxServer)
    (workspace cwd : Text) : Except Text WorkspacePlan := do
  let layered ← setup.layeredEnv cwd
  let found ← sessionExists setup.fnmatch server workspace
  return ⟨workspace, tmuxSessionName workspace, cwd,
    workspaceEnvironment workspace layered, found⟩

/-- What tmux says of a target that stands for no session. -/
def noSuchSession (target : Text) : Text :=
  "can't find session: ".toList ++ target ++ ['\n']

def firstLine (value : Text) : Text :=
  value.takeWhile fun char => decide (char ≠ '\n')

/-- `_verify_workspace_session_identity`. -/
def verifyWorkspaceSessionIdentity (fnmatch : Text → Text → Bool)
    (server : TmuxServer) (workspace tmuxSession : Text) :
    Except Text Unit :=
  match server.showEnvironment fnmatch tmuxSession workspaceRef with
  | none => .ok ()
  | some value =>
    let owner := firstLine value
    if owner = [] ∨ owner = workspace then .ok ()
    else
      .error ("Tmux session '".toList ++ tmuxSession ++
        "' belongs to workspace '".toList ++ owner ++ "', not '".toList ++
        workspace ++ "'; tmux normalizes periods to underscores\n".toList)

/-- The value that `_tmux_stdout` leaves of a variable. -/
def withoutReturn (value : Text) : Text :=
  if value.getLast? = some '\r' then value.dropLast else value

def listedKeys (value : Text) : List Text :=
  (value.splitOn ':').filter fun key => !key.isEmpty

def staleKeys (existing : Option Text) (env : Environment) : List Text :=
  ((listedKeys (withoutReturn (existing.getD []))).dedup.insertionSort
    (· ≤ ·)).filter fun key =>
      !(listedKeys ((env.lookup workspaceEnvKeys).getD [])).any
        fun other => decide (other = key)

/-- The variables that are unset and those that are set, in order. -/
def environmentEdits (existing : Option Text) (env : Environment) :
    List (Text × Option Text) :=
  (staleKeys existing env).map (fun key => (key, none)) ++
    (sortedKeys env).map fun key => (key, env.lookup key)

/-- The loops of `apply_workspace_environment`. -/
def applyEdits (fnmatch : Text → Text → Bool) (session : Text) :
    List (Text × Option Text) → TmuxServer → Except Text Unit × TmuxServer
  | [], server => (.ok (), server)
  | (name, value) :: rest, server =>
    match server.setEnvironment fnmatch session name value with
    | none =>
      (.error ("Unable to refresh tmux workspace environment for '".toList
        ++ session ++ "': ".toList ++ noSuchSession session), server)
    | some changed => applyEdits fnmatch session rest changed

/-- `apply_workspace_environment`. -/
def applyWorkspaceEnvironment (fnmatch : Text → Text → Bool)
    (session : Text) (env : Environment) (server : TmuxServer) :
    Except Text Unit × TmuxServer :=
  applyEdits fnmatch session
    (environmentEdits
      (server.showEnvironment fnmatch session workspaceEnvKeys) env) server

/-- The option under which the first status line is kept. -/
def statusDefault : Text :=
  "@dd_ticket_status_default".toList

/-- `apply_ticket_status`: the global options. -/
def applyTicketStatus (quotedDashboard : Text) (options : Environment) :
    Environment :=
  let saved := (options.lookup statusDefault).getD []
  let shown := (options.lookup "status-format[0]".toList).getD []
  let defaultStatus := if saved = [] then shown else saved
  let options :=
    if saved = [] ∧ shown ≠ [] then options.store statusDefault shown
    else options
  let options :=
    (((options.store "status-position".toList "bottom".toList).store
      "status".toList "2".toList).store
      "status-interval".toList "15".toList).store
      "status-format[0]".toList
      ("#(".toList ++ quotedDashboard ++
        (" ps1 --mode tmux-status-top " ++
          "--width #\x7bclient_width\x7d)").toList)
  let options :=
    if defaultStatus = [] then options
    else options.store "status-format[1]".toList defaultStatus
  options.remove "status-format[2]".toList

/-- How the command ends, unless it dies. -/
inductive WorkspaceEnd where
  | docker
  | attached (session : Text)
deriving DecidableEq

def createSession (fnmatch : Text → Text → Bool) (plan : WorkspacePlan)
    (server : TmuxServer) : Except Text Bool × TmuxServer :=
  if plan.doesExist then (.ok true, server)
  else
    match server.newSession plan.tmuxSession plan.env with
    | some created => (.ok false, created)
    | none =>
      let failed :=
        "Unable to create tmux ticket session '".toList ++ plan.session ++
          "': duplicate session: ".toList ++ tmuxName plan.tmuxSession ++
          ['\n']
      match sessionExists fnmatch server plan.session with
      | .error reason =>
        (.error (failed ++ "Session recheck failed: ".toList ++ reason),
          server)
      | .ok true => (.ok true, server)
      | .ok false => (.error failed, server)

def useSession (setup : WorkspaceSetup) (plan : WorkspacePlan)
    (server : TmuxServer) : Except Text WorkspaceEnd × TmuxServer :=
  match applyWorkspaceEnvironment setup.fnmatch plan.tmuxSession plan.env
    server with
  | (.error reason, changed) => (.error reason, changed)
  | (.ok (), changed) =>
    let shown := changed.withOptions
      (applyTicketStatus setup.quotedDashboard changed.options)
    match shown.target? setup.fnmatch plan.tmuxSession with
    | some session => (.ok (.attached session), shown)
    | none =>
      (.error ("Unable to attach tmux ticket session '".toList ++
        plan.session ++ "': ".toList ++ noSuchSession plan.tmuxSession),
        shown)

def carryOut (setup : WorkspaceSetup) (plan : WorkspacePlan)
    (server : TmuxServer) : Except Text WorkspaceEnd × TmuxServer :=
  match createSession setup.fnmatch plan server with
  | (.error reason, after) => (.error reason, after)
  | (.ok false, after) => useSession setup plan after
  | (.ok true, after) =>
    match verifyWorkspaceSessionIdentity setup.fnmatch after plan.session
      plan.tmuxSession with
    | .error reason => (.error reason, after)
    | .ok () => useSession setup plan after

/-- `run_workspace_command`. -/
def runWorkspaceCommand (setup : WorkspaceSetup)
    (command : WorkspaceCommand) (server : TmuxServer) :
    Except Text WorkspaceEnd × TmuxServer :=
  match setup.request command with
  | .error reason => (.error reason, server)
  | .ok request =>
    if request.docker then
      (do
        setup.runDocker request.workspace request.target request.forceBuild
        return .docker, server)
    else
      match buildWorkspacePlan setup server request.workspace
        request.cwd with
      | .error reason => (.error reason, server)
      | .ok plan => carryOut setup plan server

end DeveloperDashboard.Workspace
