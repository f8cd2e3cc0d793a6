import DeveloperDashboard.Helpers.SafeStaging

namespace DeveloperDashboard.Helpers

open Library Perl Files

/-!
# Staging converges

A run of `ensure_helpers` that is not cut off leaves every helper complete,
and the runs after it change nothing.
-/

variable {name : Text}

namespace HelperHost

variable {host : HelperHost} {wasStaged : Text → Bytes → Prop}
variable {start : HelperTree} {world : HelperWorld}

theorem flatPath_ne_installRoot (isManaged : name ∈ managedNames) :
    host.installRoot ≠ host.flatPath name := by
  have notFolder : "dd".toList ∉ managedNames := by
    decide +kernel
  intro same
  have isFolder := List.singleton_inj.mp (List.append_cancel_left same)
  rw [← isFolder] at isManaged
  exact notFolder isManaged

/-- What the last steps of a run leave. -/
structure OldRemoved (host : HelperHost) (wasStaged : Text → Bytes → Prop)
    (start : HelperTree) (before after : HelperWorld) : Prop where
  settled : host.Settled wasStaged start after.tree
  retired : NotManaged after.tree (host.helperPath retiredName) retiredName
  flats :
    ∀ name ∈ managedNames, NotManaged after.tree (host.flatPath name) name
  progress : Progress host wasStaged start before.tree after.tree

/-- The rule for the last steps of a run. -/
theorem Fits.safe_removeOldHelpers (fits : host.Fits wasStaged start)
    (settled : host.Settled wasStaged start world.tree) :
    host.Safe wasStaged start
      (fun _ after => OldRemoved host wasStaged start world after)
      host.removeOldHelpers world := by
  refine safe_bind (removable_retired.safe_removeManaged fits settled) ?_
  intro isRemoved middle retired
  refine safe_bind
    (fits.safe_removeLegacy (fun _ isManaged => isManaged)
      retired.settled) ?_
  intro removed after flats
  have offFlats (path : HelperPath)
      (inFolder : ∀ name ∈ managedNames, path ≠ host.flatPath name) :=
    flats.same path inFolder
  have helperOffFlats (name : Text) :=
    offFlats (host.helperPath name) fun other _ same =>
      host.flatPath_ne_in_installRoot other name same.symm
  refine safe_pure flats.settled ⟨flats.settled, ?_, flats.gone, ?_, ?_⟩
  · intro content found
    refine retired.gone content ?_
    unfold HasContent at found ⊢
    rw [helperOffFlats retiredName] at found
    exact found
  · intro name isManaged done
    refine done.congr ((helperOffFlats name).trans (retired.same _ ?_))
    exact removable_retired.notManaged name isManaged
  · refine (offFlats _ fun name isManaged =>
      flatPath_ne_installRoot isManaged).trans (retired.same _ ?_)
    exact (host.helperPath_ne_of_length _ (Nat.le_refl _)).symm

structure Complete (host : HelperHost) (wasStaged : Text → Bytes → Prop)
    (start tree : HelperTree) : Prop where
  root : tree.isFolder host.installRoot = true
  done : ∀ name ∈ managedNames, host.Done wasStaged start tree name
  retired : NotManaged tree (host.helperPath retiredName) retiredName
  flats : ∀ name ∈ managedNames, NotManaged tree (host.flatPath name) name

/-- The prepared files of a run do not take the place of the user's. -/
def KeepsTemps (host : HelperHost) (wasStaged : Text → Bytes → Prop)
    (start : HelperTree) (suffix : Text → Text) : Prop :=
  ∀ name ∈ managedNames,
    ¬ IsUserFile wasStaged start (host.tempPath name (suffix name))

variable {suffix : Text → Text}

section

variable (fits : host.Fits wasStaged start)

include fits

/-- The rule for `ensure_helpers`. -/
theorem Fits.safe_ensureHelpers (skipNames : List Text)
    (temps : KeepsTemps host wasStaged start suffix)
    (settled : host.Settled wasStaged start world.tree) :
    host.Safe wasStaged start
      (fun _ after =>
        host.Settled wasStaged start after.tree ∧
          (skipNames = [] → Complete host wasStaged start after.tree))
      (host.ensureHelpers skipNames suffix) world := by
  have isCore : coreName ∈ managedNames := List.mem_cons_self
  refine safe_bind (safe_ensureRoots settled) ?_
  rintro _ rooted ⟨settledRoot, isFolder⟩
  refine safe_bind
    (fits.safe_stageAndSecure isCore (temps coreName isCore)
      settledRoot) ?_
  intro coreWritten staged core
  refine safe_bind
    (fits.safe_stageNames (fun name member =>
      List.mem_cons_of_mem _ (List.mem_of_mem_filter member)) temps
        core.settled) ?_
  intro written middle helpers
  refine safe_bind (fits.safe_removeOldHelpers helpers.settled) ?_
  intro _ after removed
  refine safe_pure removed.settled ⟨removed.settled, ?_⟩
  rintro rfl
  have whole := (core.append (fun name isName => by
    rw [List.mem_singleton.mp isName]
    exact isCore) helpers).progress.trans removed.progress
  refine ⟨?_, fun name isManaged => ?_, removed.retired, removed.flats⟩
  · rw [FileTree.isFolder_iff_lookup] at isFolder ⊢
    exact whole.root.trans isFolder
  · refine removed.progress.done name isManaged ?_
    rcases List.mem_cons.mp isManaged with rfl | isHelper
    · exact helpers.progress.done coreName isCore
        (core.done coreName List.mem_cons_self)
    · refine helpers.done name (List.mem_filter.mpr ⟨isHelper, rfl⟩)

omit fits in
theorem safe_managedHelperFileCurrent
    (settled : host.Settled wasStaged start world.tree) :
    host.Safe wasStaged start
      (fun _ after => host.Settled wasStaged start after.tree)
      (host.managedHelperFileCurrent name) world := by
  refine safe_test rfl settled.kept ?_
  cases isRegular : regular? world.tree (host.helperPath name) with
  | none => exact safe_pure settled settled
  | some content =>
    exact safe_readFile (regular?_eq_some_iff.mp isRegular) settled.kept
      (safe_pure settled settled) (fun reason => settled)

/-- The rule for staging a helper unless it is current. -/
theorem Fits.safe_refreshHelper
    (isManaged : name ∈ managedNames)
    (temps : KeepsTemps host wasStaged start suffix)
    (settled : host.Settled wasStaged start world.tree) :
    host.Safe wasStaged start
      (fun _ after => host.Settled wasStaged start after.tree)
      (host.refreshHelper name (suffix name)) world := by
  refine safe_bind (safe_managedHelperFileCurrent settled) ?_
  intro isCurrent middle settled
  cases isCurrent with
  | true => exact safe_pure settled settled
  | false =>
    refine safe_bind
      (fits.safe_stageAndSecure isManaged (temps name isManaged)
        settled) ?_
    intro isWritten after here
    cases isWritten <;> exact safe_pure here.settled here.settled

theorem Fits.safe_ensureDashboardCore
    (temps : KeepsTemps host wasStaged start suffix)
    (settled : host.Settled wasStaged start world.tree) :
    host.Safe wasStaged start
      (fun _ after => host.Settled wasStaged start after.tree)
      (host.ensureDashboardCore suffix) world := by
  refine safe_bind (safe_ensureRoots settled) ?_
  rintro _ after ⟨settledRoot, _⟩
  exact fits.safe_refreshHelper List.mem_cons_self temps settledRoot

/-- The rule for `ensure_helper`. -/
theorem Fits.safe_ensureHelper (given : Text)
    (temps : KeepsTemps host wasStaged start suffix)
    (settled : host.Settled wasStaged start world.tree) :
    host.Safe wasStaged start
      (fun _ after => host.Settled wasStaged start after.tree)
      (host.ensureHelper given suffix) world := by
  unfold ensureHelper
  cases canonical : canonicalHelperName given with
  | none => exact safe_throw settled
  | some name =>
    have isManaged := mem_managedNames_of_canonical canonical
    refine safe_bind (safe_ensureRoots settled) ?_
    rintro _ rooted ⟨settledRoot, _⟩
    have coreFirst :
        host.Safe wasStaged start
          (fun _ after => host.Settled wasStaged start after.tree)
          (if helperUsesDashboardCore name then
            host.refreshHelper coreName (suffix coreName)
          else pure []) rooted := by
      split
      · exact fits.safe_refreshHelper List.mem_cons_self temps settledRoot
      · exact safe_pure settledRoot settledRoot
    refine safe_bind coreFirst ?_
    intro core middle settledCore
    refine safe_bind
      (fits.safe_refreshHelper isManaged temps settledCore) ?_
    intro written later settledHelper
    refine safe_bind (fits.safe_removeOldHelpers settledHelper) ?_
    intro _ after removed
    exact safe_pure removed.settled removed.settled

end

/-- A procedure that leaves the files and the changes as they are. -/
abbrev Quiet {Result : Type} (fits : Result → Prop)
    (procedure : Staging Result) (world : HelperWorld) : Prop :=
  Procedure.CrashSafe helperEffect (fun _ _ _ => True)
    (fun after => after = world)
    (fun result after =>
      after = world ∧ ∀ value, result = .ok value → fits value)
    procedure.run world

variable {Result Other : Type} {fits : Result → Prop}

theorem quiet_pure {value : Result} (holds : fits value) :
    Quiet fits (pure value) world := by
  refine .finish rfl ⟨rfl, ?_⟩
  rintro other ⟨⟩
  exact holds

theorem quiet_throw {reason : Text} :
    Quiet fits (throw reason) world := by
  refine .finish rfl ⟨rfl, ?_⟩
  rintro other ⟨⟩

theorem quiet_bind {first : Staging Result} {rest : Result → Staging Other}
    {fits : Other → Prop} {between : Result → Prop}
    (quiet : Quiet between first world)
    (next : ∀ value, between value → Quiet fits (rest value) world) :
    Quiet fits (first >>= rest) world := by
  refine Procedure.CrashSafe.bindExcept (.mono ?_ quiet)
  rintro result after ⟨rfl, holds⟩
  refine ⟨fun value returned => next value (holds value returned), ?_⟩
  intro reason _
  refine .finish rfl ⟨rfl, ?_⟩
  rintro value ⟨⟩

theorem quiet_readFile {path : HelperPath} {content : Bytes}
    {rest : Bytes → Staging Result}
    (found : HasContent world.tree path content)
    (next : Quiet fits (rest content) world) :
    Quiet fits (readFile path >>= rest) world := by
  refine safe_readFile found rfl next fun reason => ⟨rfl, ?_⟩
  rintro value ⟨⟩

theorem quiet_ensureDir {path : HelperPath}
    (isFolder : world.tree.isFolder path = true) :
    Quiet (fun _ => True) (ensureDir path) world := by
  refine safe_test rfl rfl ?_
  rw [isFolder]
  exact quiet_pure trivial

theorem quiet_ensureRoots
    (isFolder : world.tree.isFolder host.installRoot = true) :
    Quiet (fun _ => True) host.ensureRoots world := by
  refine quiet_bind (quiet_ensureDir (FileTree.isFolder_parent isFolder)) ?_
  intro _ _
  exact quiet_ensureDir isFolder

theorem content?_ne_nil {content : Bytes}
    (isContent : host.content? name = some content) : content ≠ [] := by
  obtain ⟨shipped, _, rfl⟩ := Option.map_eq_some_iff.mp isContent
  exact markContent_ne_nil name _

/-- A file that is not empty and is either foreign or current is left. -/
theorem quiet_stage_regular {suffix : Text} {existing : Bytes}
    (found : HasContent world.tree (host.helperPath name) existing)
    (nonempty : existing ≠ [])
    (kept :
      isDashboardManagedHelper existing name = false ∨
        host.content? name = some existing) :
    Quiet (fun isWritten => isWritten = false)
      (host.stageManagedHelper name suffix) world := by
  have isRegular := regular?_eq_some_iff.mpr found
  have isThere :
      (world.tree.entries.lookup (host.helperPath name)).isSome = true := by
    obtain ⟨executable, found⟩ := found
    rw [found]
    rfl
  unfold stageManagedHelper
  cases isContent : host.content? name with
  | none => exact quiet_throw
  | some content =>
    refine safe_test rfl rfl ?_
    rw [isThere]
    refine safe_test rfl rfl ?_
    rw [isRegular]
    refine safe_test rfl rfl ?_
    rw [isRegular, decide_eq_false (by simpa using nonempty)]
    refine quiet_readFile found ?_
    cases isManaged : isDashboardManagedHelper existing name with
    | false => exact quiet_pure rfl
    | true =>
      have same : existing = content := by
        rcases kept with foreign | current
        · rw [isManaged] at foreign
          cases foreign
        · exact Option.some.inj (current.symm.trans isContent)
      rw [same, decide_eq_true rfl]
      exact quiet_pure rfl

theorem Fits.quiet_stageManagedHelper {suffix : Text}
    (fits : host.Fits wasStaged start) (isManaged : name ∈ managedNames)
    (done : host.Done wasStaged start world.tree name) :
    Quiet (fun isWritten => isWritten = false)
      (host.stageManagedHelper name suffix) world := by
  rcases done with ⟨content, isContent, found⟩ | ⟨kept, isUser | irregular⟩
  · exact quiet_stage_regular ⟨true, found⟩ (content?_ne_nil isContent)
      (.inr isContent)
  · obtain ⟨other, existing, isName, atStart, nonempty, notStaged⟩ := isUser
    have sameName : name = other := by
      simpa [helperPath] using isName
    subst sameName
    have recognised :=
      fits.recognised name _ existing (.staged isManaged) atStart nonempty
    obtain ⟨executable, found⟩ := atStart
    exact quiet_stage_regular ⟨executable, kept.trans found⟩ nonempty
      (.inl (Bool.eq_false_iff.mpr fun isManaged =>
        notStaged (recognised.mp isManaged)))
  · have notRegular : regular? world.tree (host.helperPath name) = none := by
      unfold regular? FileTree.content?
      rcases irregular with found | found <;> rw [found]
    have isThere :
        (world.tree.entries.lookup (host.helperPath name)).isSome =
          true := by
      rcases irregular with found | found <;> rw [found] <;> rfl
    unfold stageManagedHelper
    cases host.content? name with
    | none => exact quiet_throw
    | some content =>
      refine safe_test rfl rfl ?_
      rw [isThere]
      refine safe_test rfl rfl ?_
      rw [notRegular]
      exact quiet_pure rfl

theorem Fits.quiet_stageAndSecure {suffix : Text}
    (fits : host.Fits wasStaged start) (isManaged : name ∈ managedNames)
    (done : host.Done wasStaged start world.tree name) :
    Quiet (fun isWritten => isWritten = false)
      (host.stageAndSecure name suffix) world := by
  refine quiet_bind (fits.quiet_stageManagedHelper isManaged done) ?_
  rintro _ rfl
  exact quiet_pure rfl

theorem Fits.quiet_stageNames {names : List Text}
    (fits : host.Fits wasStaged start)
    (managed : ∀ name ∈ names, name ∈ managedNames)
    (done :
      ∀ name ∈ managedNames, host.Done wasStaged start world.tree name) :
    Quiet (fun _ => True) (host.stageNames suffix names) world := by
  induction names with
  | nil => exact quiet_pure trivial
  | cons name rest ih =>
    obtain ⟨isManaged, managedRest⟩ := List.forall_mem_cons.mp managed
    refine quiet_bind
      (fits.quiet_stageAndSecure isManaged (done name isManaged)) ?_
    intro isWritten _
    refine quiet_bind (ih managedRest) ?_
    intro written _
    exact quiet_pure trivial

theorem quiet_removeManaged {target : HelperPath}
    (gone : NotManaged world.tree target name) :
    Quiet (fun _ => True) (removeManaged target name) world := by
  refine safe_test rfl rfl ?_
  cases (world.tree.entries.lookup target).isSome with
  | false => exact quiet_pure trivial
  | true =>
    refine safe_test rfl rfl ?_
    cases isRegular : regular? world.tree target with
    | none => exact quiet_pure trivial
    | some content =>
      have found := regular?_eq_some_iff.mp isRegular
      refine quiet_readFile found ?_
      rw [gone content found]
      exact quiet_pure trivial

theorem quiet_removeLegacy {names : List Text}
    (gone :
      ∀ name ∈ names, NotManaged world.tree (host.flatPath name) name) :
    Quiet (fun _ => True) (host.removeLegacyManagedFlatHelpers names)
      world := by
  induction names with
  | nil => exact quiet_pure trivial
  | cons name rest ih =>
    obtain ⟨here, later⟩ := List.forall_mem_cons.mp gone
    refine quiet_bind (quiet_removeManaged here) ?_
    intro isRemoved _
    refine quiet_bind (ih later) ?_
    intro removed _
    exact quiet_pure trivial

theorem Complete.quiet_removeOldHelpers
    (complete : Complete host wasStaged start world.tree) :
    Quiet (fun _ => True) host.removeOldHelpers world := by
  refine quiet_bind (quiet_removeManaged complete.retired) ?_
  intro isRemoved _
  refine quiet_bind (quiet_removeLegacy complete.flats) ?_
  intro removed _
  exact quiet_pure trivial

theorem Fits.quiet_refreshHelper
    (fits : host.Fits wasStaged start) (isManaged : name ∈ managedNames)
    (done : host.Done wasStaged start world.tree name) :
    Quiet (fun _ => True) (host.refreshHelper name (suffix name)) world := by
  have quietTest :
      Quiet (fun _ => True) (host.managedHelperFileCurrent name) world := by
    refine safe_test rfl rfl ?_
    cases isRegular : regular? world.tree (host.helperPath name) with
    | none => exact quiet_pure trivial
    | some content =>
      exact quiet_readFile (regular?_eq_some_iff.mp isRegular)
        (quiet_pure trivial)
  refine quiet_bind quietTest ?_
  intro isCurrent _
  cases isCurrent with
  | true => exact quiet_pure trivial
  | false =>
    refine quiet_bind (fits.quiet_stageAndSecure isManaged done) ?_
    rintro _ rfl
    exact quiet_pure trivial

/-- No run changes anything once everything is complete. -/
theorem Complete.quiet_procedure (fits : host.Fits wasStaged start)
    (complete : Complete host wasStaged start world.tree) (run : HelperRun) :
    Quiet (fun _ => True) (run.procedure host) world := by
  have isCore : coreName ∈ managedNames := List.mem_cons_self
  have doneCore := complete.done coreName isCore
  obtain ⟨ensured, suffix⟩ := run
  cases ensured with
  | helpers skipNames =>
    refine quiet_bind (quiet_ensureRoots complete.root) fun _ _ => ?_
    refine quiet_bind (fits.quiet_stageAndSecure isCore doneCore)
      fun _ _ => ?_
    refine quiet_bind (fits.quiet_stageNames (fun name member =>
      List.mem_cons_of_mem _ (List.mem_of_mem_filter member))
        complete.done) fun _ _ => ?_
    refine quiet_bind complete.quiet_removeOldHelpers fun _ _ => ?_
    exact quiet_pure trivial
  | core =>
    refine quiet_bind (quiet_ensureRoots complete.root) fun _ _ => ?_
    exact fits.quiet_refreshHelper isCore doneCore
  | helper given =>
    change Quiet (fun _ => True) (host.ensureHelper given suffix) world
    unfold ensureHelper
    cases canonical : canonicalHelperName given with
    | none => exact quiet_throw
    | some name =>
      have isManaged := mem_managedNames_of_canonical canonical
      have coreFirst :
          Quiet (fun _ => True)
            (if helperUsesDashboardCore name then
              host.refreshHelper coreName (suffix coreName)
            else pure []) world := by
        split
        · exact fits.quiet_refreshHelper isCore doneCore
        · exact quiet_pure trivial
      refine quiet_bind (quiet_ensureRoots complete.root)
        fun _ _ => ?_
      refine quiet_bind coreFirst fun _ _ => ?_
      refine quiet_bind (fits.quiet_refreshHelper isManaged
        (complete.done name isManaged)) fun _ _ => ?_
      refine quiet_bind complete.quiet_removeOldHelpers fun _ _ => ?_
      exact quiet_pure trivial

/-- What the worker does, and the last run that ended. -/
abbrev HelperStage :=
  Procedure.Stage HelperRun HelperCall Answer
    (Except Text (List HelperPath))

def histories (host : HelperHost) (start : HelperTree) :
    TransitionSystem (HelperWorld × HelperStage)
      (Procedure.RunEvent HelperRun HelperCall Outcome) :=
  Procedure.runs helperEffect (HelperRun.procedure host)
    fun world => world = ⟨start, []⟩

def IsComplete (stage : HelperStage) : Prop :=
  ∃ run written,
    stage = .idle (some (run, .ok written)) ∧ run.ensured = .helpers []

/--
The files of the user stay as they are; after a complete run every place that
is not taken has its helper, no managed helper is left in the folder of
commands, and no further run changes anything.
-/
structure Converges (host : HelperHost) (wasStaged : Text → Bytes → Prop)
    (start : HelperTree) (state : HelperWorld × HelperStage) : Prop where
  userFiles :
    ∀ path,
      IsUserFile wasStaged start path →
        state.1.tree.entries.lookup path = start.entries.lookup path
  staged :
    IsComplete state.2 →
      ∀ name ∈ managedNames,
        ¬ IsUserFile wasStaged start (host.helperPath name) →
        ¬ IsIrregular state.1.tree (host.helperPath name) →
          host.IsStaged state.1.tree name
  flats :
    IsComplete state.2 →
      ∀ name, NotManaged state.1.tree (host.flatPath name) name
  quiet :
    IsComplete state.2 →
      ∀ (next : HelperRun) (trace : List (HelperCall × Outcome))
        (last : HelperWorld ×
          Procedure HelperCall Answer (Except Text (List HelperPath))),
        (Procedure.system helperEffect (next.procedure host)
          state.1).Execution trace last →
            last.1 = state.1

/--
Prepared files do not take the place of the user's, making a helper executable
does not fail, and no run is cut off between putting a helper in place and
making it executable.
-/
def stagingGuard (host : HelperHost) (wasStaged : Text → Bytes → Prop)
    (start : HelperTree) :
    Procedure.RunGuard HelperWorld HelperRun HelperCall Outcome where
  mayStart := fun run => KeepsTemps host wasStaged start run.suffix
  mayCall := finishesHelpers
  mayCut := fun world =>
    ∀ path, world.changes.getLast? ≠ some (.placed path)

def RunEnds (host : HelperHost) (wasStaged : Text → Bytes → Prop)
    (start : HelperTree) (run : HelperRun)
    (result : Except Text (List HelperPath)) (world : HelperWorld) : Prop :=
  host.Settled wasStaged start world.tree ∧
    (run.ensured = .helpers [] →
      ∀ written,
        result = .ok written → Complete host wasStaged start world.tree)

theorem Fits.safe_procedure
    (fits : host.Fits wasStaged start) (run : HelperRun)
    (temps : KeepsTemps host wasStaged start run.suffix)
    (settled : host.Settled wasStaged start world.tree) :
    Procedure.CrashSafe helperEffect finishesHelpers
      (host.Kept wasStaged start) (RunEnds host wasStaged start run)
      (run.procedure host) world := by
  obtain ⟨ensured, suffix⟩ := run
  cases ensured with
  | helpers skipNames =>
    refine .mono ?_ (fits.safe_ensureHelpers skipNames temps settled)
    rintro (reason | written) after ended
    · exact ⟨ended, by rintro _ written ⟨⟩⟩
    · refine ⟨ended.1, ?_⟩
      rintro ⟨⟩ _ _
      exact ended.2 rfl
  | core =>
    refine .mono ?_ (fits.safe_ensureDashboardCore temps settled)
    rintro (reason | written) after ended <;>
      exact ⟨ended, by rintro ⟨⟩⟩
  | helper given =>
    refine .mono ?_ (fits.safe_ensureHelper given temps settled)
    rintro (reason | written) after ended <;>
      exact ⟨ended, by rintro ⟨⟩⟩

theorem settled_start : host.Settled wasStaged start start :=
  ⟨fun _ _ => rfl, fun _ _ _ => .inl rfl, fun _ => .inl rfl⟩

theorem Complete.notManaged_flatPath {tree : HelperTree}
    (complete : Complete host wasStaged start tree)
    (fits : host.Fits wasStaged start)
    (settled : host.Settled wasStaged start tree) (name : Text) :
    NotManaged tree (host.flatPath name) name := by
  by_cases isManaged : name ∈ managedNames
  · exact complete.flats name isManaged
  · rintro content ⟨executable, found⟩
    rcases settled.flats name with kept | absent | folder
    · exact fits.flats name isManaged content
        ⟨executable, kept.symm.trans found⟩
    · rw [found] at absent
      cases absent
    · rw [found] at folder
      cases folder

def bareHost : HelperHost where
  home := []
  shipped := fun _ => some []
  digest := byteText

/-- Only the current release has ever staged a helper. -/
def stagedNow (name : Text) (content : Bytes) : Prop :=
  content = managedHelperContent name []

def emptyTree : HelperTree where
  entries := [([], .folder)]
  closed := by decide

theorem fits_emptyTree : bareHost.Fits stagedNow emptyTree := by
  have noFile (path : HelperPath) (file : HelperFile) :
      emptyTree.entries.lookup path ≠ some (.file file) := by
    intro found
    unfold emptyTree Entries.lookup Entries.lookup at found
    split at found <;> cases found
  constructor
  · rintro name path content _ ⟨executable, found⟩
    exact absurd found (noFile _ _)
  · intro name _ content executable _ found
    exact absurd found (noFile _ _)
  · rintro name _ existing content ⟨executable, found⟩
    exact absurd found (noFile _ _)
  · rintro name _ content ⟨executable, found⟩
    exact absurd found (noFile _ _)

def fullRun : HelperRun :=
  ⟨.helpers [], fun _ => "1.2".toList⟩

/-- A run that is cut off before the first `chmod`, and a complete one. -/
def interruptedInputs : List (Procedure.RunInput HelperRun Outcome) :=
  .start fullRun :: List.replicate 12 (.choose .succeeds) ++
    .cutOff :: .start fullRun :: List.replicate 281 (.choose .succeeds) ++
      [.finish]

def leavesUnfinished (state : HelperWorld × HelperStage) : Bool :=
  match state with
  | (world, .idle (some (run, .ok _))) =>
    decide (run.ensured = .helpers []) &&
      (match world.tree.content? (bareHost.helperPath coreName) with
      | some (.regular _ executable) => !executable
      | _ => false)
  | _ => false

/-- A helper that is not executable is neither irregular nor complete. -/
theorem not_isStaged_of_leavesUnfinished {state : HelperWorld × HelperStage}
    (leaves : leavesUnfinished state = true) :
    IsComplete state.2 ∧
      ¬ IsIrregular state.1.tree (bareHost.helperPath coreName) ∧
        ¬ bareHost.IsStaged state.1.tree coreName := by
  obtain ⟨world, stage⟩ := state
  unfold leavesUnfinished at leaves
  split at leaves
  · next current run written same =>
      cases same
      rw [Bool.and_eq_true] at leaves
      obtain ⟨isHelpers, unfinished⟩ := leaves
      refine ⟨⟨run, written, rfl, of_decide_eq_true isHelpers⟩, ?_⟩
      unfold FileTree.content? at unfinished
      unfold IsIrregular IsStaged
      dsimp only
      cases found :
          world.tree.entries.lookup (bareHost.helperPath coreName) with
      | none =>
        rw [found] at unfinished
        cases unfinished
      | some node =>
        rw [found] at unfinished
        cases node with
        | folder => cases unfinished
        | file file =>
          cases file with
          | special => cases unfinished
          | regular content executable =>
            cases executable with
            | true => cases unfinished
            | false =>
              refine ⟨by simp, ?_⟩
              rintro ⟨content, _, same⟩
              cases same
  · cases leaves

end HelperHost

end DeveloperDashboard.Helpers
