import DeveloperDashboard.Workspace.WorkspaceCommand

namespace DeveloperDashboard.Workspace

open Library Perl

/-!
# A workspace command and its own session

Every step changes the variables of the session that the target stands for.
That is the session of the workspace unless another one's name begins with
the target, or matches it, while no session has that name.
-/

/-- What the edits make of the variables of a session. -/
def editedBy (edits : List (Text × Option Text))
    (environment : Environment) : Environment :=
  edits.foldl (fun current edit => current.assign (fun _ => edit.2) edit.1)
    environment

variable {session : Text}

theorem applyEdits_eq {fnmatch : Text → Text → Bool} {target : Text}
    (edits : List (Text × Option Text)) {server : TmuxServer}
    (found : server.target? fnmatch target = some session) :
    applyEdits fnmatch target edits server =
      (.ok (), server.adjust session (editedBy edits)) := by
  induction edits generalizing server with
  | nil =>
    rw [applyEdits]
    exact congrArg (Prod.mk _) (TmuxServer.adjust_id session).symm
  | cons edit rest ih =>
    have changed :
        server.setEnvironment fnmatch target edit.1 edit.2 =
          some (server.adjust session fun environment =>
            environment.assign (fun _ => edit.2) edit.1) := by
      rw [TmuxServer.setEnvironment, found, Option.map_some]
    rw [applyEdits, changed]
    dsimp only
    rw [ih (by rw [TmuxServer.target?_adjust, found]),
      TmuxServer.adjust_adjust]
    rfl

variable {name : Text}

theorem lookup_editedBy
    (existing : Option Text) (env environment : Environment)
    (isKey : name ∈ sortedKeys env) :
    (editedBy (environmentEdits existing env) environment).lookup name =
      env.lookup name := by
  unfold editedBy environmentEdits
  rw [List.foldl_append]
  generalize List.foldl _ environment _ = unset
  rw [List.foldl_map]
  calc
    _ = ((sortedKeys env).foldl (Entries.assign env.lookup) unset).lookup
          name := rfl
    _ = env.lookup name := by
      rw [Entries.lookup_foldl_assign, if_pos isKey]

theorem lookup_workspaceEnvironment
    (workspace : Text) (layered : Environment) :
    (workspaceEnvironment workspace layered).lookup workspaceRef =
      some ((layered.lookup workspaceRef).getD workspace) := by
  have different : workspaceEnvKeys ≠ workspaceRef := by decide
  unfold workspaceEnvironment
  rw [Entries.lookup_store_of_ne _ different, Entries.lookup_overlay,
    Entries.lookup_cons, if_pos rfl]
  cases layered.lookup workspaceRef with
  | none => rfl
  | some value => rfl

theorem mem_sortedKeys_workspaceEnvironment
    (workspace : Text) (layered : Environment) :
    workspaceRef ∈ sortedKeys (workspaceEnvironment workspace layered) := by
  unfold sortedKeys
  rw [List.mem_insertionSort, List.mem_dedup]
  by_contra absent
  have noValue :=
    (Entries.lookup_eq_none_iff
      (workspaceEnvironment workspace layered) workspaceRef).mpr absent
  rw [lookup_workspaceEnvironment] at noValue
  contradiction

theorem tmuxName_tmuxSessionName (workspace : Text) :
    tmuxName (tmuxSessionName workspace) = tmuxName workspace := by
  unfold tmuxName tmuxSessionName
  rw [List.map_map]
  refine List.map_congr_left ?_
  intro char _
  by_cases period : char = '.'
  · simp [period]
  · simp [period]

variable {workspace : Text}

theorem tmuxSessionName_eq_tmuxName (plain : ':' ∉ workspace) :
    tmuxSessionName workspace = tmuxName workspace := by
  unfold tmuxName tmuxSessionName
  refine List.map_congr_left ?_
  intro char isIn
  have noColon : char ≠ ':' := by
    rintro rfl
    exact plain isIn
  simp [noColon]

theorem colon_mem_tmuxSessionName
    (colon : ':' ∈ workspace) : ':' ∈ tmuxSessionName workspace := by
  unfold tmuxSessionName
  exact List.mem_map.mpr ⟨':', colon, rfl⟩

theorem colon_not_mem_of_named
    (named : tmuxName name = name) : ':' ∉ name := by
  intro colon
  rw [← named] at colon
  obtain ⟨char, _, became⟩ := List.mem_map.mp colon
  by_cases separates : char = '.' ∨ char = ':'
  · rw [if_pos separates] at became
    exact absurd became (by decide)
  · rw [if_neg separates] at became
    exact separates (.inr became)

variable {environment : Environment} {created : TmuxServer}

namespace TmuxServer

variable {server : TmuxServer} {fnmatch : Text → Text → Bool}

theorem target?_of_colon {target : Text} (colon : ':' ∈ target) :
    server.target? fnmatch target =
      onlyName (server.names.filter fun name => fnmatch target name) := by
  have notName : ¬ server.hasName target = true := by
    intro isName
    exact colon_not_mem_of_named
      (server.named target (hasName_iff.mp isName)) colon
  have noLonger :
      (server.names.filter fun name => target.isPrefixOf name) = [] := by
    rw [List.filter_eq_nil_iff]
    intro name isName begins
    exact colon_not_mem_of_named (server.named name isName)
      ((List.isPrefixOf_iff_prefix.mp begins).subset colon)
  unfold target?
  rw [if_neg notName, noLonger]
  rfl

theorem names_newSession
    (isNew : server.newSession name environment = some created) :
    created.names = server.names ++ [tmuxName name] := by
  unfold newSession at isNew
  split at isNew
  · obtain rfl := Option.some.inj isNew
    unfold names
    rw [List.map_append]
    rfl
  · cases isNew

theorem lookup_newSession
    (isNew : server.newSession name environment = some created)
    (other : Text) :
    created.sessions.lookup other =
      (server.sessions.lookup other).or
        (if tmuxName name = other then some environment else none) := by
  unfold newSession at isNew
  split at isNew
  · obtain rfl := Option.some.inj isNew
    rw [Entries.lookup_append, Entries.lookup_cons]
    rfl
  · cases isNew

end TmuxServer

theorem onlyName_append_singleton {names : List Text}
    (none : onlyName names = none) (session : Text) :
    onlyName (names ++ [name]) = some session ↔
      names = [] ∧ session = name := by
  rcases names with _ | ⟨first, _ | ⟨second, rest⟩⟩
  · simp [onlyName, eq_comm]
  · simp [onlyName] at none
  · simp [onlyName]

/-- The target of a workspace stands for the session made for it. -/
def FoundOnceCreated (fnmatch : Text → Text → Bool) (server : TmuxServer)
    (workspace : Text) : Prop :=
  ':' ∉ workspace ∨
    (fnmatch (tmuxSessionName workspace) (tmuxName workspace) = true ∧
      ∀ name ∈ server.names,
        fnmatch (tmuxSessionName workspace) name = false)

theorem TmuxServer.target?_newSession
    {fnmatch : Text → Text → Bool} {server : TmuxServer}
    (noTarget : server.target? fnmatch (tmuxSessionName workspace) = none)
    (isNew :
      server.newSession (tmuxSessionName workspace) environment =
        some created)
    (session : Text) :
    created.target? fnmatch (tmuxSessionName workspace) = some session ↔
      session = tmuxName workspace ∧
        FoundOnceCreated fnmatch server workspace := by
  have newNames := names_newSession isNew
  rw [tmuxName_tmuxSessionName] at newNames
  by_cases colon : ':' ∈ workspace
  · have inTarget := colon_mem_tmuxSessionName colon
    rw [target?_of_colon inTarget] at noTarget ⊢
    rw [newNames, List.filter_append]
    by_cases isMatched :
        fnmatch (tmuxSessionName workspace) (tmuxName workspace) = true
    · rw [List.filter_cons_of_pos isMatched, List.filter_nil,
        onlyName_append_singleton noTarget, List.filter_eq_nil_iff]
      simp [FoundOnceCreated, colon, isMatched, and_comm]
    · rw [List.filter_cons_of_neg isMatched, List.filter_nil,
        List.append_nil, noTarget]
      simp [FoundOnceCreated, colon, isMatched]
  · have isName : tmuxName workspace ∈ created.names := by
      rw [newNames]
      exact List.mem_append_right _ List.mem_cons_self
    rw [tmuxSessionName_eq_tmuxName colon, target?_of_mem fnmatch isName]
    constructor
    · intro same
      exact ⟨(Option.some.inj same).symm, .inl colon⟩
    · rintro ⟨rfl, _⟩
      rfl

/-- A request for a workspace outside Docker, with its layered files. -/
structure LocalRun (setup : WorkspaceSetup) (command : WorkspaceCommand)
    (request : WorkspaceSetup.Request) (layered : Environment) : Prop where
  requested : setup.request command = .ok request
  notDocker : request.docker = false
  hasName : Perl.isTrue request.workspace = true
  loaded : setup.layeredEnv request.cwd = .ok layered

def planFor (setup : WorkspaceSetup) (server : TmuxServer)
    (request : WorkspaceSetup.Request) (layered : Environment) :
    WorkspacePlan where
  session := request.workspace
  tmuxSession := tmuxSessionName request.workspace
  cwd := request.cwd
  env := workspaceEnvironment request.workspace layered
  doesExist :=
    (server.target? setup.fnmatch
      (tmuxSessionName request.workspace)).isSome

variable {setup : WorkspaceSetup} {command : WorkspaceCommand}
  {request : WorkspaceSetup.Request} {layered : Environment}

theorem LocalRun.run_eq (run : LocalRun setup command request layered)
    (server : TmuxServer) :
    runWorkspaceCommand setup command server =
      carryOut setup (planFor setup server request layered) server := by
  have planned :
      buildWorkspacePlan setup server request.workspace request.cwd =
        .ok (planFor setup server request layered) := by
    unfold buildWorkspacePlan sessionExists
    rw [run.loaded, if_pos run.hasName]
    rfl
  unfold runWorkspaceCommand
  rw [run.requested]
  dsimp only
  rw [run.notDocker, planned]
  rfl

/-- Any other run leaves tmux alone. -/
theorem run_of_not_localRun
    (notLocal :
      ∀ request layered, ¬ LocalRun setup command request layered)
    (server : TmuxServer) :
    (runWorkspaceCommand setup command server).2 = server ∧
      ∀ session,
        (runWorkspaceCommand setup command server).1 ≠
          .ok (.attached session) := by
  unfold runWorkspaceCommand
  cases requested : setup.request command with
  | error reason => exact ⟨rfl, fun _ => by rintro ⟨⟩⟩
  | ok request =>
    dsimp only
    by_cases docker : request.docker = true
    · rw [if_pos docker]
      refine ⟨rfl, fun session => ?_⟩
      cases setup.runDocker request.workspace request.target
          request.forceBuild with
      | error reason => rintro ⟨⟩
      | ok _ => rintro ⟨⟩
    · rw [if_neg docker]
      have notDocker : request.docker = false := by simpa using docker
      unfold buildWorkspacePlan sessionExists
      cases loaded : setup.layeredEnv request.cwd with
      | error reason => exact ⟨rfl, fun _ => by rintro ⟨⟩⟩
      | ok layered =>
        have noName : ¬ Perl.isTrue request.workspace = true := by
          intro hasName
          exact notLocal request layered
            ⟨requested, notDocker, hasName, loaded⟩
        rw [if_neg noName]
        exact ⟨rfl, fun _ => by rintro ⟨⟩⟩

/-- The server after the steps on the session of a target. -/
def usedServer (setup : WorkspaceSetup) (plan : WorkspacePlan)
    (session : Text) (server : TmuxServer) : TmuxServer :=
  (server.adjust session
    (editedBy
      (environmentEdits
        (server.showEnvironment setup.fnmatch plan.tmuxSession
          workspaceEnvKeys) plan.env))).withOptions
    (applyTicketStatus setup.quotedDashboard server.options)

theorem useSession_of_target? (plan : WorkspacePlan) {server : TmuxServer}
    (found :
      server.target? setup.fnmatch plan.tmuxSession = some session) :
    useSession setup plan server =
      (.ok (.attached session), usedServer setup plan session server) := by
  have stays :
      (usedServer setup plan session server).target? setup.fnmatch
        plan.tmuxSession = some session := by
    rw [← found]
    exact TmuxServer.target?_adjust setup.fnmatch plan.tmuxSession session _
  unfold useSession applyWorkspaceEnvironment
  rw [applyEdits_eq _ found]
  dsimp only
  unfold usedServer at stays
  rw [show (server.adjust session _).options = server.options from rfl,
    stays]
  rfl

theorem useSession_of_target?_eq_none
    (plan : WorkspacePlan) {server : TmuxServer}
    (noTarget : server.target? setup.fnmatch plan.tmuxSession = none)
    (isKey : workspaceRef ∈ sortedKeys plan.env) :
    ∃ reason, useSession setup plan server = (.error reason, server) := by
  unfold useSession applyWorkspaceEnvironment
  cases edits : environmentEdits
      (server.showEnvironment setup.fnmatch plan.tmuxSession
        workspaceEnvKeys) plan.env with
  | nil =>
    unfold environmentEdits at edits
    have noKeys :=
      List.map_eq_nil_iff.mp (List.append_eq_nil_iff.mp edits).2
    rw [noKeys] at isKey
    contradiction
  | cons edit rest =>
    have refused :
        server.setEnvironment setup.fnmatch plan.tmuxSession edit.1
          edit.2 = none := by
      rw [TmuxServer.setEnvironment, noTarget, Option.map_none]
    rw [applyEdits, refused]
    exact ⟨_, rfl⟩

/-- The owner in the tag of the session that the target stands for. -/
def HasOtherOwner (fnmatch : Text → Text → Bool) (server : TmuxServer)
    (workspace : Text) : Prop :=
  ∃ value,
    server.showEnvironment fnmatch (tmuxSessionName workspace)
        workspaceRef = some value ∧
      firstLine value ≠ [] ∧ firstLine value ≠ workspace

theorem verifyWorkspaceSessionIdentity_eq_ok_iff
    (fnmatch : Text → Text → Bool) (server : TmuxServer) (workspace : Text) :
    verifyWorkspaceSessionIdentity fnmatch server workspace
        (tmuxSessionName workspace) = .ok () ↔
      ¬ HasOtherOwner fnmatch server workspace := by
  unfold verifyWorkspaceSessionIdentity HasOtherOwner
  cases server.showEnvironment fnmatch (tmuxSessionName workspace)
      workspaceRef with
  | none => simp
  | some value =>
    dsimp only
    by_cases accepted : firstLine value = [] ∨ firstLine value = workspace
    · rw [if_pos accepted]
      simp only [Option.some.injEq, exists_eq_left', not_and, not_not,
        true_iff]
      intro given
      exact accepted.resolve_left given
    · rw [if_neg accepted]
      simpa [not_or] using accepted

theorem carryOut_of_target? {server : TmuxServer} {session : Text}
    (found :
      server.target? setup.fnmatch (tmuxSessionName request.workspace) =
        some session)
    (owned : ¬ HasOtherOwner setup.fnmatch server request.workspace) :
    carryOut setup (planFor setup server request layered) server =
      (.ok (.attached session),
        usedServer setup (planFor setup server request layered) session
          server) := by
  have doesExist :
      (planFor setup server request layered).doesExist = true := by
    unfold planFor
    rw [found]
    rfl
  have verified :
      verifyWorkspaceSessionIdentity setup.fnmatch server
        (planFor setup server request layered).session
        (planFor setup server request layered).tmuxSession = .ok () :=
    (verifyWorkspaceSessionIdentity_eq_ok_iff setup.fnmatch server
      request.workspace).mpr owned
  unfold carryOut createSession
  rw [if_pos doesExist]
  dsimp only
  rw [verified]
  exact useSession_of_target? _ found

theorem carryOut_of_hasOtherOwner {server : TmuxServer}
    (other : HasOtherOwner setup.fnmatch server request.workspace) :
    ∃ reason,
      carryOut setup (planFor setup server request layered) server =
        (.error reason, server) := by
  have doesExist :
      (planFor setup server request layered).doesExist = true := by
    obtain ⟨value, shown, _⟩ := other
    unfold TmuxServer.showEnvironment at shown
    obtain ⟨session, found, _⟩ := Option.bind_eq_some_iff.mp shown
    unfold planFor
    rw [found]
    rfl
  have notOwned :=
    mt (verifyWorkspaceSessionIdentity_eq_ok_iff setup.fnmatch server
      request.workspace).mp (not_not.mpr other)
  unfold carryOut createSession
  rw [if_pos doesExist]
  dsimp only
  cases verified :
      verifyWorkspaceSessionIdentity setup.fnmatch server
        (planFor setup server request layered).session
        (planFor setup server request layered).tmuxSession with
  | ok _ => exact absurd verified notOwned
  | error reason => exact ⟨reason, rfl⟩

theorem carryOut_of_hasName {server : TmuxServer}
    (noTarget :
      server.target? setup.fnmatch (tmuxSessionName request.workspace) =
        none)
    (taken : server.hasName (tmuxName request.workspace) = true)
    (given : Perl.isTrue request.workspace = true) :
    ∃ reason,
      carryOut setup (planFor setup server request layered) server =
        (.error reason, server) := by
  have notCreated :
      server.newSession (planFor setup server request layered).tmuxSession
        (planFor setup server request layered).env = none := by
    unfold TmuxServer.newSession planFor
    dsimp only
    rw [dif_neg (by rw [tmuxName_tmuxSessionName, taken]; decide)]
  have recheck :
      sessionExists setup.fnmatch server
        (planFor setup server request layered).session = .ok false := by
    unfold sessionExists planFor
    dsimp only
    rw [if_pos given, noTarget]
    rfl
  have absent :
      ¬ (planFor setup server request layered).doesExist = true := by
    simp [planFor, noTarget]
  unfold carryOut createSession
  rw [if_neg absent, notCreated]
  dsimp only
  rw [recheck]
  exact ⟨_, rfl⟩

theorem carryOut_of_newSession {server created : TmuxServer}
    (noTarget :
      server.target? setup.fnmatch (tmuxSessionName request.workspace) =
        none)
    (isNew :
      server.newSession (tmuxSessionName request.workspace)
        (workspaceEnvironment request.workspace layered) = some created) :
    carryOut setup (planFor setup server request layered) server =
      useSession setup (planFor setup server request layered) created := by
  have absent :
      ¬ (planFor setup server request layered).doesExist = true := by
    simp [planFor, noTarget]
  have isCreated :
      server.newSession (planFor setup server request layered).tmuxSession
        (planFor setup server request layered).env = some created :=
    isNew
  unfold carryOut createSession
  rw [if_neg absent, isCreated]

theorem target?_usedServer (plan : WorkspacePlan) (target session : Text)
    (server : TmuxServer) :
    (usedServer setup plan session server).target? setup.fnmatch target =
      server.target? setup.fnmatch target :=
  TmuxServer.target?_adjust setup.fnmatch target session _

theorem names_usedServer (plan : WorkspacePlan) (session : Text)
    (server : TmuxServer) :
    (usedServer setup plan session server).names = server.names :=
  TmuxServer.names_adjust session _

theorem lookup_usedServer (plan : WorkspacePlan) {server : TmuxServer}
    (has : server.sessions.lookup session = some environment) :
    (usedServer setup plan session server).sessions.lookup session =
      some
        (editedBy
          (environmentEdits
            (server.showEnvironment setup.fnmatch plan.tmuxSession
              workspaceEnvKeys) plan.env) environment) := by
  refine (TmuxServer.lookup_adjust session session _).trans ?_
  rw [has, Option.map_some, if_pos rfl]

theorem lookup_usedServer_of_ne (plan : WorkspacePlan)
    (server : TmuxServer) {other : Text} (different : other ≠ session) :
    (usedServer setup plan session server).sessions.lookup other =
      server.sessions.lookup other :=
  TmuxServer.lookup_adjust_of_ne different _

theorem exists_tag_usedServer {before server : TmuxServer} {session : Text}
    (isName : session ∈ server.names) :
    ∃ environment,
      (usedServer setup (planFor setup before request layered) session
          server).sessions.lookup session = some environment ∧
        environment.lookup workspaceRef =
          some ((layered.lookup workspaceRef).getD request.workspace) := by
  obtain ⟨environment, has⟩ := TmuxServer.exists_lookup_of_mem isName
  have isKey :=
    mem_sortedKeys_workspaceEnvironment request.workspace layered
  exact ⟨_, lookup_usedServer _ has, (lookup_editedBy _ _ _ isKey).trans
      (lookup_workspaceEnvironment request.workspace layered)⟩

theorem hasOtherOwner_usedServer_iff
    {before server : TmuxServer} {session : Text}
    (found :
      server.target? setup.fnmatch (tmuxSessionName request.workspace) =
        some session) :
    HasOtherOwner setup.fnmatch
        (usedServer setup (planFor setup before request layered) session
          server) request.workspace ↔
      firstLine ((layered.lookup workspaceRef).getD request.workspace) ≠
          [] ∧
        firstLine
            ((layered.lookup workspaceRef).getD request.workspace) ≠
          request.workspace := by
  obtain ⟨environment, has, tag⟩ :=
    @exists_tag_usedServer setup request layered before _ _
      (TmuxServer.mem_names_of_target? found)
  unfold HasOtherOwner
  rw [TmuxServer.showEnvironment_eq
    ((target?_usedServer _ _ _ server).trans found) has, tag]
  simp

/-- The command has changed the session of its workspace alone. -/
structure OwnSession (workspace : Text) (before after : TmuxServer)
    (session : Text) : Prop where
  attached : session = tmuxName workspace
  names :
    after.names =
      if before.hasName (tmuxName workspace) then before.names
      else before.names ++ [tmuxName workspace]
  others :
    ∀ other, other ≠ tmuxName workspace →
      after.sessions.lookup other = before.sessions.lookup other
  tagged :
    ∃ environment,
      after.sessions.lookup (tmuxName workspace) = some environment ∧
        environment.lookup workspaceRef = some workspace

/--
The command dies before it changes a session, or it attaches the session of
its workspace, the only one that it changes, and attaches it again when it
runs again.
-/
structure TouchesOwnSession (setup : WorkspaceSetup)
    (command : WorkspaceCommand) (server : TmuxServer) : Prop where
  diesFirst :
    ∀ reason after,
      runWorkspaceCommand setup command server = (.error reason, after) →
        after = server
  leavesHost :
    ∀ after,
      runWorkspaceCommand setup command server = (.ok .docker, after) →
        after = server
  attaches :
    ∀ session after,
      runWorkspaceCommand setup command server =
          (.ok (.attached session), after) →
        ∃ workspace,
          resolveWorkspaceRequest command
              (splitWorkspaceChangeDirArgs command.args).clean =
            .ok workspace ∧
          OwnSession workspace server after session ∧
          ∃ again,
            runWorkspaceCommand setup command after =
                (.ok (.attached session), again) ∧
              again.names = after.names

/-- The layered files leave the tag, and the next run reads the whole tag. -/
structure KeepsTag (workspace : Text) (layered : Environment) : Prop where
  notLayered :
    ∀ value, layered.lookup workspaceRef = some value → value = workspace
  oneLine : firstLine workspace = [] ∨ firstLine workspace = workspace

/--
The session that the target stands for is the one of the workspace, or the
command refuses it for its tag.
-/
structure FitsTarget (fnmatch : Text → Text → Bool) (server : TmuxServer)
    (workspace : Text) (layered : Environment) : Prop where
  found :
    ∀ session,
      server.target? fnmatch (tmuxSessionName workspace) = some session →
        HasOtherOwner fnmatch server workspace ∨
          session = tmuxName workspace ∧ KeepsTag workspace layered
  missing :
    server.target? fnmatch (tmuxSessionName workspace) = none →
      server.hasName (tmuxName workspace) = true ∨
        FoundOnceCreated fnmatch server workspace ∧
          KeepsTag workspace layered

theorem LocalRun.resolved (run : LocalRun setup command request layered) :
    resolveWorkspaceRequest command
        (splitWorkspaceChangeDirArgs command.args).clean =
      .ok request.workspace := by
  have requested := run.requested
  unfold WorkspaceSetup.request at requested
  dsimp only at requested
  cases resolved : resolveWorkspaceRequest command
      (splitWorkspaceChangeDirArgs command.args).clean with
  | error reason =>
    rw [resolved] at requested
    cases requested
  | ok workspace =>
    rw [resolved, Except.bind] at requested
    split at requested
    · cases requested
    · cases known : setup.registeredDir workspace with
      | error reason =>
        rw [known] at requested
        cases requested
      | ok target =>
        rw [known, Except.bind] at requested
        cases entered : setup.enterTarget workspace target
            (splitWorkspaceChangeDirArgs command.args).changeDir with
        | error reason =>
          rw [entered] at requested
          cases requested
        | ok cwd =>
          rw [entered] at requested
          cases requested
          rfl

theorem touchesOwnSession_of_unchanged {server : TmuxServer}
    (unchanged : (runWorkspaceCommand setup command server).2 = server)
    (notAttached :
      ∀ session,
        (runWorkspaceCommand setup command server).1 ≠
          .ok (.attached session)) :
    TouchesOwnSession setup command server where
  diesFirst := by
    intro reason after run
    rw [run] at unchanged
    exact unchanged
  leavesHost := by
    intro after run
    rw [run] at unchanged
    exact unchanged
  attaches := by
    intro session after run
    rw [run] at notAttached
    exact absurd rfl (notAttached session)

/-- The session of the workspace is changed, attached and found again. -/
theorem touchesOwnSession_of_used
    (run : LocalRun setup command request layered)
    {server current : TmuxServer}
    (found :
      current.target? setup.fnmatch (tmuxSessionName request.workspace) =
        some (tmuxName request.workspace))
    (keeps : KeepsTag request.workspace layered)
    (names :
      current.names =
        if server.hasName (tmuxName request.workspace) then server.names
        else server.names ++ [tmuxName request.workspace])
    (others :
      ∀ other, other ≠ tmuxName request.workspace →
        current.sessions.lookup other = server.sessions.lookup other)
    (ran :
      runWorkspaceCommand setup command server =
        (.ok (.attached (tmuxName request.workspace)),
          usedServer setup (planFor setup server request layered)
            (tmuxName request.workspace) current)) :
    TouchesOwnSession setup command server where
  diesFirst := by
    intro reason after other
    rw [ran] at other
    cases other
  leavesHost := by
    intro after other
    rw [ran] at other
    cases other
  attaches := by
    intro session after same
    rw [ran] at same
    obtain ⟨rfl, rfl⟩ : session = tmuxName request.workspace ∧
        after = usedServer setup (planFor setup server request layered)
          (tmuxName request.workspace) current := by
      simpa [eq_comm] using same
    have isTag :
        (layered.lookup workspaceRef).getD request.workspace =
          request.workspace := by
      cases given : layered.lookup workspaceRef with
      | none => rfl
      | some value => exact keeps.notLayered value given
    have owned :
        ¬ HasOtherOwner setup.fnmatch
          (usedServer setup (planFor setup server request layered)
            (tmuxName request.workspace) current) request.workspace := by
      rw [hasOtherOwner_usedServer_iff found, isTag]
      rintro ⟨notEmpty, different⟩
      exact keeps.oneLine.elim notEmpty different
    refine ⟨request.workspace, run.resolved, ⟨rfl, ?_, ?_, ?_⟩, ?_⟩
    · rw [names_usedServer, names]
    · intro other different
      rw [lookup_usedServer_of_ne _ _ different, others other different]
    · obtain ⟨environment, has, tag⟩ :=
        @exists_tag_usedServer setup request layered server _ _
          (TmuxServer.mem_names_of_target? found)
      rw [isTag] at tag
      exact ⟨environment, has, tag⟩
    · have foundAgain :=
        (target?_usedServer (planFor setup server request layered) _
          (tmuxName request.workspace) current).trans found
      have ranAgain := @carryOut_of_target? setup request layered _ _ foundAgain owned
      rw [← run.run_eq] at ranAgain
      exact ⟨_, ranAgain, names_usedServer _ _ _⟩

/-- What a promise that is kept says of the target and the tag. -/
theorem keepsTag_of_touchesOwnSession
    (run : LocalRun setup command request layered)
    {server current : TmuxServer}
    (touches : TouchesOwnSession setup command server)
    (found :
      current.target? setup.fnmatch (tmuxSessionName request.workspace) =
        some session)
    (ran :
      runWorkspaceCommand setup command server =
        (.ok (.attached session),
          usedServer setup (planFor setup server request layered) session
            current)) :
    session = tmuxName request.workspace ∧
      KeepsTag request.workspace layered := by
  obtain ⟨workspace, resolved, own, again, ranAgain, _⟩ :=
    touches.attaches session _ ran
  obtain rfl : request.workspace = workspace := by
    rw [run.resolved] at resolved
    exact Except.ok.inj resolved
  obtain rfl := own.attached
  obtain ⟨environment, has, tag⟩ := own.tagged
  obtain ⟨other, hasOther, otherTag⟩ :=
    @exists_tag_usedServer setup request layered server _ _
      (TmuxServer.mem_names_of_target? found)
  rw [has, Option.some.injEq] at hasOther
  rw [← hasOther, tag, Option.some.injEq] at otherTag
  refine ⟨rfl, ?_, ?_⟩
  · intro value given
    rw [given] at otherTag
    exact otherTag.symm
  · by_contra notOneLine
    rw [not_or] at notOneLine
    have refused := (@hasOtherOwner_usedServer_iff setup request layered server
      _ _ found).mpr
        (otherTag ▸ notOneLine)
    obtain ⟨reason, died⟩ :=
      @carryOut_of_hasOtherOwner setup request layered _ refused
    rw [run.run_eq, died] at ranAgain
    cases ranAgain

theorem exists_newSession {server : TmuxServer}
    (free : ¬ server.hasName (tmuxName workspace) = true)
    (environment : Environment) :
    ∃ created,
      server.newSession (tmuxSessionName workspace) environment =
        some created := by
  have fresh :
      server.hasName (tmuxName (tmuxSessionName workspace)) = false := by
    rw [tmuxName_tmuxSessionName]
    simpa using free
  unfold TmuxServer.newSession
  rw [dif_pos fresh]
  exact ⟨_, rfl⟩

/-- A kept promise says what the target stands for. -/
theorem fitsTarget_of_touchesOwnSession
    (run : LocalRun setup command request layered) {server : TmuxServer}
    (touches : TouchesOwnSession setup command server) :
    FitsTarget setup.fnmatch server request.workspace layered where
  found := by
    intro session found
    by_cases other : HasOtherOwner setup.fnmatch server request.workspace
    · exact .inl other
    · have ran := @carryOut_of_target? setup request layered _ _ found other
      rw [← run.run_eq] at ran
      exact .inr (keepsTag_of_touchesOwnSession run touches found ran)
  missing := by
    intro noTarget
    by_cases taken : server.hasName (tmuxName request.workspace) = true
    · exact .inl taken
    · right
      obtain ⟨created, isNew⟩ :=
        exists_newSession taken
          (workspaceEnvironment request.workspace layered)
      have ran := @carryOut_of_newSession setup request layered _ _ noTarget isNew
      rw [← run.run_eq] at ran
      cases found :
          created.target? setup.fnmatch
            (tmuxSessionName request.workspace) with
      | none =>
        -- The session is there, but no variable of it can be set.
        obtain ⟨reason, died⟩ :=
          useSession_of_target?_eq_none
            (planFor setup server request layered) found
            (mem_sortedKeys_workspaceEnvironment _ layered)
        have unchanged :=
          touches.diesFirst reason created (ran.trans died)
        have newNames := TmuxServer.names_newSession isNew
        rw [unchanged] at newNames
        simp at newNames
      | some session =>
        have used :=
          useSession_of_target?
            (planFor setup server request layered) found
        obtain ⟨_, keeps⟩ :=
          keepsTag_of_touchesOwnSession run touches found (ran.trans used)
        have once :=
          (TmuxServer.target?_newSession noTarget isNew session).mp found
        exact ⟨once.2, keeps⟩

theorem touchesOwnSession_of_died {server : TmuxServer} {reason : Text}
    (died :
      runWorkspaceCommand setup command server = (.error reason, server)) :
    TouchesOwnSession setup command server := by
  refine touchesOwnSession_of_unchanged (by rw [died]) ?_
  intro session attached
  rw [died] at attached
  cases attached

theorem touchesOwnSession_of_fitsTarget
    (run : LocalRun setup command request layered) {server : TmuxServer}
    (fits :
      FitsTarget setup.fnmatch server request.workspace layered) :
    TouchesOwnSession setup command server := by
  cases found :
      server.target? setup.fnmatch (tmuxSessionName request.workspace) with
  | some session =>
    by_cases other : HasOtherOwner setup.fnmatch server request.workspace
    · obtain ⟨reason, died⟩ :=
        @carryOut_of_hasOtherOwner setup request layered _ other
      rw [← run.run_eq] at died
      exact touchesOwnSession_of_died died
    · obtain ⟨rfl, keeps⟩ := (fits.found session found).resolve_left other
      have ran := @carryOut_of_target? setup request layered _ _ found other
      rw [← run.run_eq] at ran
      have isName :=
        TmuxServer.hasName_iff.mpr (TmuxServer.mem_names_of_target? found)
      exact touchesOwnSession_of_used run found keeps
        (if_pos isName).symm (fun _ _ => rfl) ran
  | none =>
    rcases em (server.hasName (tmuxName request.workspace) = true) with
      taken | free
    · obtain ⟨reason, died⟩ :=
        @carryOut_of_hasName setup request layered _ found taken run.hasName
      rw [← run.run_eq] at died
      exact touchesOwnSession_of_died died
    · obtain ⟨once, keeps⟩ := (fits.missing found).resolve_left free
      obtain ⟨created, isNew⟩ :=
        exists_newSession free
          (workspaceEnvironment request.workspace layered)
      have foundNew :=
        (TmuxServer.target?_newSession found isNew
          (tmuxName request.workspace)).mpr ⟨rfl, once⟩
      have ran := @carryOut_of_newSession setup request layered _ _ found isNew
      rw [← run.run_eq] at ran
      have newNames := TmuxServer.names_newSession isNew
      rw [tmuxName_tmuxSessionName] at newNames
      refine touchesOwnSession_of_used run foundNew keeps
        (newNames.trans (if_neg free).symm) ?_
        (ran.trans (useSession_of_target? _ foundNew))
      intro other different
      rw [TmuxServer.lookup_newSession isNew, tmuxName_tmuxSessionName,
        if_neg (Ne.symm different), Option.or_none]

/--
A workspace command touches its own session alone exactly when its target
stands for that session, or for one whose tag makes the command refuse.
-/
theorem touchesOwnSession_iff
    (setup : WorkspaceSetup) (command : WorkspaceCommand)
    (server : TmuxServer) :
    TouchesOwnSession setup command server ↔
      ∀ request layered,
        LocalRun setup command request layered →
          FitsTarget setup.fnmatch server request.workspace layered := by
  constructor
  · intro touches request layered run
    exact fitsTarget_of_touchesOwnSession run touches
  · intro fits
    by_cases isLocal :
        ∃ request layered, LocalRun setup command request layered
    · obtain ⟨request, layered, run⟩ := isLocal
      exact touchesOwnSession_of_fitsTarget run (fits request layered run)
    · have notLocal :
          ∀ request layered,
            ¬ LocalRun setup command request layered := by
        intro request layered run
        exact isLocal ⟨request, layered, run⟩
      exact touchesOwnSession_of_unchanged
        (run_of_not_localRun notLocal server).1
        (run_of_not_localRun notLocal server).2

/-- No name is registered, and there are no layered files. -/
def bareSetup : WorkspaceSetup where
  registeredDir := fun _ => .ok []
  isDirectory := fun _ => true
  isAbsolute := fun path => decide (path.head? = some '/')
  changeDirectory := fun _ => .ok ()
  currentDirectory := "/home/dev".toList
  layeredEnv := fun _ => .ok []
  runDocker := fun _ _ _ => .ok ()
  quotedDashboard := "dashboard".toList
  fnmatch := fun pattern name => decide (pattern = name)

/-- `dashboard workspace feature`. -/
def featureCommand : WorkspaceCommand where
  args := ["feature".toList]
  envWorkspace := none
  envTicket := none
  processWorkspace := none
  processTicket := none

/-- One session, which no workspace was created with. -/
def featureXServer : TmuxServer where
  sessions := [("feature-x".toList, [])]
  options := []
  nodup := by decide
  named := by decide

theorem longer_name_is_taken :
    ¬ TouchesOwnSession bareSetup featureCommand featureXServer := by
  intro touches
  have ran :
      (runWorkspaceCommand bareSetup featureCommand featureXServer).1 =
        .ok (.attached "feature-x".toList) := by
    rfl
  obtain ⟨workspace, resolved, own, _⟩ :=
    touches.attaches "feature-x".toList
      (runWorkspaceCommand bareSetup featureCommand featureXServer).2
      (Prod.ext ran rfl)
  obtain rfl : "feature".toList = workspace := by
    rw [show resolveWorkspaceRequest featureCommand _ =
      .ok "feature".toList from rfl] at resolved
    exact Except.ok.inj resolved
  exact absurd own.attached (by decide)

end DeveloperDashboard.Workspace
