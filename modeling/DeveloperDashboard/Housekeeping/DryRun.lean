import DeveloperDashboard.Housekeeping.LogPreview
import DeveloperDashboard.Housekeeping.StaleRoots

namespace DeveloperDashboard.Housekeeping

open Library Perl Config Session Collector Skills

/-!
# Dry runs

A dry run foresees a real one when there is nothing to make sure of, when
everything stale may be removed, when no removal takes away what a later step
looks at, and when no log is rotated for two collectors.
-/

def Provision.Made (files : Files) : Provision → Prop
  | dir path => ∀ other, other <+: path → files other ≠ none
  | file path content => files path = some (.file content)
  | touch path => files path ≠ none

/-- Provisions that agree on what each file that they write holds. -/
def Consistent (provisions : List Provision) : Prop :=
  ∀ path content other,
    Provision.file path content ∈ provisions →
      Provision.file path other ∈ provisions → content = other

variable {files : Files}

theorem Provision.apply_of_made
    {provision : Provision} (made : provision.Made files) :
    provision.apply files = files := by
  funext other
  cases provision with
  | dir path =>
    simp only [apply, Files.ensureDir]
    split
    · next isPrefix =>
        cases found : files other with
        | none =>
          exact absurd found
            (made other (List.isPrefixOf_iff_prefix.mp isPrefix))
        | some node => rfl
    · rfl
  | file path content =>
    simp only [apply]
    split
    · next same => rw [same, made]
    · rfl
  | touch path =>
    simp only [apply]
    split
    · next same =>
        cases found : files other with
        | none => exact absurd found (same ▸ made)
        | some node => rfl
    · rfl

variable {path : Path}

theorem Provision.apply_ne_none (provision : Provision)
    (there : files path ≠ none) :
    provision.apply files path ≠ none := by
  cases provision <;> simp only [apply, Files.ensureDir] <;> split <;>
    simp_all

variable {provisions : List Provision}

theorem provide_ne_none (there : files path ≠ none) :
    provide files provisions path ≠ none := by
  induction provisions generalizing files with
  | nil => exact there
  | cons first rest ih =>
    exact ih (first.apply_ne_none there)

/-- A file that is written is as it is written last. -/
theorem provide_file {content : Text}
    (only : ∀ other,
      Provision.file path other ∈ provisions → content = other)
    (there : files path = some (.file content)) :
    provide files provisions path = some (.file content) := by
  induction provisions generalizing files with
  | nil => exact there
  | cons first rest ih =>
    refine ih
      (fun other member => only other (List.mem_cons_of_mem _ member)) ?_
    cases first with
    | dir other =>
      simp only [Provision.apply, Files.ensureDir, there]
      split <;> rfl
    | file other text =>
      simp only [Provision.apply]
      split
      · next same =>
          rw [only text (same ▸ List.mem_cons_self)]
      · exact there
    | touch other =>
      simp only [Provision.apply, there]
      split <;> rfl

/-- Nothing changes just when everything is there already. -/
theorem provide_eq_iff (consistent : Consistent provisions) :
    provide files provisions = files ↔
      ∀ provision ∈ provisions, provision.Made files := by
  constructor
  · intro same
    suffices later :
        ∀ provision ∈ provisions, provision.Made (provide files provisions) by
      rwa [same] at later
    clear same
    induction provisions generalizing files with
    | nil => exact fun _ member => absurd member List.not_mem_nil
    | cons first rest ih =>
      have tail :
          ∀ provision ∈ rest,
            provision.Made (provide (first.apply files) rest) :=
        ih
          fun path content other isIn isInToo =>
            consistent path content other (List.mem_cons_of_mem _ isIn)
              (List.mem_cons_of_mem _ isInToo)
      refine List.forall_mem_cons.mpr ⟨?_, tail⟩
      change first.Made (provide (first.apply files) rest)
      cases first with
      | dir path =>
        intro other isPrefix
        refine provide_ne_none ?_
        simp [Provision.apply, Files.ensureDir,
          List.isPrefixOf_iff_prefix.mpr isPrefix]
      | file path content =>
        refine provide_file (fun other member =>
          consistent path content other List.mem_cons_self
            (List.mem_cons_of_mem _ member)) ?_
        simp [Provision.apply]
      | touch path =>
        refine provide_ne_none ?_
        simp [Provision.apply]
  · intro made
    induction provisions with
    | nil => rfl
    | cons first rest ih =>
      obtain ⟨here, later⟩ := List.forall_mem_cons.mp made
      unfold provide
      rw [List.foldl_cons, Provision.apply_of_made here]
      exact ih
        (fun path content other isIn isInToo =>
          consistent path content other (List.mem_cons_of_mem _ isIn)
            (List.mem_cons_of_mem _ isInToo))
        later

def Removed.stateRoot? : Removed → Option Path
  | stateRoot path => some path
  | _ => none

def Removed.tempFile? : Removed → Option (TempFileKind × Path)
  | tempFile kind path => some (kind, path)
  | _ => none

def Removed.rotation? : Removed → Option (List Text × RotationReport)
  | rotation collector report => some (collector, report)
  | _ => none

namespace Housekeeper

variable (keeper : Housekeeper)

def IsExpiredFile (entry : Text × SessionFile) : Prop :=
  ∃ record epoch,
    parseableRecord entry.1 entry.2 = some record ∧
      iso8601ToEpoch keeper.thisYear .zero (recordText record "expires_at") =
        .ok epoch ∧
      epoch ≤ keeper.now

variable {keeper}

theorem sweepSessions_dry
    {removable : Text → Bool} {sessions left : SessionRoot} {count : Nat}
    (swept : keeper.sweepSessions true removable sessions = .ok (count, left)) :
    left = sessions := by
  induction sessions generalizing count left with
  | nil => exact (Prod.mk.inj (Except.ok.inj swept)).2.symm
  | cons entry rest ih =>
    obtain ⟨name, file⟩ := entry
    cases tail : keeper.sweepSessions true removable rest with
    | error error =>
      simp only [sweepSessions, tail, Except.map] at swept
      split at swept
      · cases swept
      · split at swept
        · cases swept
        · split at swept <;> cases swept
    | ok result =>
      have same := ih (tail.trans rfl)
      simp only [sweepSessions, tail, Except.map, if_true] at swept
      split at swept
      · cases swept; exact congrArg _ same
      · split at swept
        · cases swept
        · split at swept <;> (cases swept; exact congrArg _ same)

theorem sweepSessions_real
    {removable : Text → Bool} {sessions left : SessionRoot} {count : Nat}
    (swept : keeper.sweepSessions true removable sessions = .ok (count, left)) :
    ∃ fewer after,
      keeper.sweepSessions false removable sessions = .ok (fewer, after) ∧
        fewer ≤ count ∧
        (fewer = count ↔
          ∀ entry ∈ sessions, keeper.IsExpiredFile entry →
            removable entry.1 = true) := by
  induction sessions generalizing count left with
  | nil =>
    obtain ⟨rfl, -⟩ := Prod.mk.inj (Except.ok.inj swept)
    exact ⟨0, [], rfl, le_rfl, by simp⟩
  | cons entry rest ih =>
    obtain ⟨name, file⟩ := entry
    cases tail : keeper.sweepSessions true removable rest with
    | error error =>
      simp only [sweepSessions, tail, Except.map] at swept
      split at swept
      · cases swept
      · split at swept
        · cases swept
        · split at swept <;> cases swept
    | ok result =>
      obtain ⟨fewer, after, real, less, all⟩ :=
        ih (tail.trans rfl)
      rw [List.forall_mem_cons, ← all]
      simp only [sweepSessions, tail, real, Except.map, if_true,
        Bool.false_eq_true, if_false] at swept ⊢
      cases parsed : parseableRecord name file with
      | none =>
        have fresh : ¬keeper.IsExpiredFile (name, file) := by
          rintro ⟨record, epoch, found, -⟩
          rw [parsed] at found
          cases found
        simp only [parsed, Except.ok.injEq, Prod.mk.injEq] at swept
        obtain ⟨rfl, -⟩ := swept
        exact ⟨fewer, _, rfl, less, by simp [fresh]⟩
      | some record =>
        simp only [parsed] at swept ⊢
        cases time : iso8601ToEpoch keeper.thisYear .zero
            (recordText record "expires_at") with
        | error error => simp [time] at swept
        | ok epoch =>
          simp only [time] at swept ⊢
          by_cases valid : (keeper.now : Int) < epoch
          · have fresh : ¬keeper.IsExpiredFile (name, file) := by
              rintro ⟨other, when', found, read, past⟩
              obtain rfl : record = other :=
                Option.some.inj (parsed.symm.trans found)
              obtain rfl : epoch = when' :=
                Except.ok.inj (time.symm.trans read)
              omega
            rw [if_pos valid] at swept ⊢
            obtain ⟨rfl, -⟩ := Prod.mk.inj (Except.ok.inj swept)
            exact ⟨fewer, _, rfl, less, by simp [fresh]⟩
          · have expired : keeper.IsExpiredFile (name, file) :=
              ⟨record, epoch, parsed, time, by omega⟩
            rw [if_neg valid] at swept ⊢
            obtain ⟨rfl, -⟩ := Prod.mk.inj (Except.ok.inj swept)
            cases may : removable name with
            | true =>
              exact ⟨fewer + 1, _, rfl, by omega, by simp [expired]⟩
            | false =>
              refine ⟨fewer, _, rfl, by omega, ?_⟩
              simp only [expired, true_implies,
                Bool.false_eq_true, false_and, iff_false]
              omega

theorem insertionSort_filter (names : List Text) (keep : Text → Bool) :
    (names.filter keep).insertionSort (· ≤ ·) =
      (names.insertionSort (· ≤ ·)).filter keep :=
  List.Perm.eq_of_pairwise'
    (List.pairwise_insertionSort (· ≤ ·) _)
    ((List.pairwise_insertionSort (· ≤ ·) names).sublist
      List.filter_sublist)
    ((List.perm_insertionSort _ _).trans
      ((List.perm_insertionSort _ names).symm.filter keep))

theorem tempFiles_eq (files : Files) :
    keeper.tempFiles files =
      if isDir files keeper.tmpdir then
        ((keeper.order keeper.tmpdir).insertionSort (· ≤ ·)).filterMap
          fun entry =>
            if (fileText files (keeper.tmpdir ++ [entry])).isSome then
              (tempFileKind entry).map fun kind =>
                (kind, keeper.tmpdir ++ [entry])
            else none
      else [] := by
  unfold tempFiles tempFileCandidates
  split
  · rw [insertionSort_filter, List.filterMap_filter]
    refine List.filterMap_congr fun entry _ => ?_
    unfold fileText
    cases files (keeper.tmpdir ++ [entry]) with
    | none => simp
    | some node => cases tempFileKind entry <;> simp
  · rfl

theorem fileText_without (files : Files) (roots : List Path) (path : Path) :
    fileText (without files roots) path =
      if roots.any (fun root => root.isPrefixOf path) then none
      else fileText files path := by
  unfold fileText without
  cases roots.any fun root => root.isPrefixOf path <;> rfl

/-- The temp files that are left are those below no root that is removed. -/
theorem tempFiles_without (files : Files) (roots : List Path) :
    keeper.tempFiles (without files roots) =
      (keeper.tempFiles files).filter fun file =>
        !roots.any fun root => root.isPrefixOf file.2 := by
  rw [tempFiles_eq, tempFiles_eq]
  cases directory : isDir files keeper.tmpdir with
  | false =>
    have lost : ¬isDir (without files roots) keeper.tmpdir = true :=
      fun there => Bool.false_ne_true
        (directory.symm.trans (isDir_without_iff.mp there).1)
    rw [if_neg lost]
    rfl
  | true =>
  by_cases below : ∃ root ∈ roots, root <+: keeper.tmpdir
  · obtain ⟨root, member, isPrefix⟩ := below
    have lost : ¬isDir (without files roots) keeper.tmpdir = true :=
      fun there => (isDir_without_iff.mp there).2 root member isPrefix
    rw [if_neg lost, if_pos rfl, eq_comm, List.filter_eq_nil_iff]
    intro file isIn
    obtain ⟨entry, -, found⟩ := List.mem_filterMap.mp isIn
    split at found
    · obtain ⟨kind, -, rfl⟩ := Option.map_eq_some_iff.mp found
      simp only [Bool.not_eq_true', Bool.not_eq_false]
      exact List.any_eq_true.mpr ⟨root, member,
        List.isPrefixOf_iff_prefix.mpr
          (isPrefix.trans (List.prefix_append _ _))⟩
    · cases found
  · have kept : isDir (without files roots) keeper.tmpdir = true :=
      isDir_without_iff.mpr
        ⟨directory, fun root member isPrefix =>
          below ⟨root, member, isPrefix⟩⟩
    rw [if_pos kept, if_pos rfl, List.filter_filterMap]
    refine List.filterMap_congr fun entry _ => ?_
    rw [fileText_without]
    cases removed : roots.any fun root =>
        root.isPrefixOf (keeper.tmpdir ++ [entry]) <;>
      cases fileText files (keeper.tmpdir ++ [entry]) <;>
        cases tempFileKind entry <;>
          simp [Option.filter, removed]

theorem cleanupFiles_dry (files : Files) (temp : List (TempFileKind × Path)) :
    keeper.cleanupFiles true files temp =
      .ok (temp.filter fun file => keeper.isOldEnough files file.2) := by
  induction temp with
  | nil => rfl
  | cons file rest ih =>
    obtain ⟨kind, path⟩ := file
    rw [cleanupFiles, ih, List.filter_cons]
    cases keeper.isOldEnough files path <;> rfl

theorem cleanupFiles_real_iff {temp removed : List (TempFileKind × Path)} :
    keeper.cleanupFiles false files temp = .ok removed ↔
      removed = temp.filter (fun file => keeper.isOldEnough files file.2) ∧
        ∀ file ∈ temp, keeper.isOldEnough files file.2 = true →
          keeper.removable file.2 = true := by
  induction temp generalizing removed with
  | nil =>
    simp only [cleanupFiles, Except.ok.injEq, List.filter_nil,
      List.not_mem_nil, false_implies, implies_true, and_true]
    exact eq_comm
  | cons file rest ih =>
    obtain ⟨kind, path⟩ := file
    rw [cleanupFiles, List.filter_cons, List.forall_mem_cons]
    cases keeper.isOldEnough files path with
    | false => simpa using ih
    | true =>
    cases keeper.removable path with
    | false => simp
    | true =>
      cases later : keeper.cleanupFiles false files rest with
      | error error =>
        have none := fun tail => (@ih tail)
        simp only [later, reduceCtorEq, false_iff] at none
        simp only [Bool.not_true, Bool.false_eq_true, if_false,
          Bool.not_false, Bool.and_false, Except.map, reduceCtorEq,
          if_true, true_implies, true_and, false_iff]
        exact fun holds => none _ ⟨rfl, holds.2⟩
      | ok tail =>
        obtain ⟨rfl, all⟩ := ih.mp later
        simp only [Bool.not_true, Bool.false_eq_true, if_false,
          Bool.not_false, Bool.and_false, Except.map, if_true,
          Except.ok.injEq, true_implies, true_and]
        exact ⟨fun same => ⟨same.symm, all⟩, fun same => same.1.symm⟩

structure RunSteps (keeper : Housekeeper) (dryRun : Bool) (disk : Disk) where
  stateRoots : Nat
  roots : List Path
  files : Files
  removed : List (TempFileKind × Path)
  reports : List (List Text × RotationReport)
  rotated : Disk
  expired : Nat
  left : SessionRoot
  cleaned :
    keeper.cleanupStateRoots dryRun disk.files =
      .ok (stateRoots, roots, files)
  unlinked :
    keeper.cleanupFiles dryRun files (keeper.tempFiles files) = .ok removed
  logs :
    keeper.rotateLogs dryRun
        { disk with files := unlinkFiles dryRun files removed }
        keeper.rotatedJobs =
      .ok (reports, rotated)
  swept :
    keeper.sweepSessions dryRun
        (fun name => keeper.removable (keeper.sessionsRoot ++ [name]))
        disk.sessions =
      .ok (expired, left)

namespace RunSteps

variable {dryRun : Bool} {disk : Disk}

def summary (steps : RunSteps keeper dryRun disk) : Summary where
  stateRoots := steps.stateRoots
  ajaxTempFiles :=
    (keeper.tempFiles steps.files).countP fun file => file.1 = .ajax
  resultTempFiles :=
    (keeper.tempFiles steps.files).countP fun file => file.1 = .result
  collectorLogs := keeper.rotatedJobs.length
  expiredSessions := steps.expired
  removed :=
    steps.roots.map .stateRoot ++
      steps.removed.map (fun file => .tempFile file.1 file.2) ++
      steps.reports.map fun report => .rotation report.1 report.2

def after (steps : RunSteps keeper dryRun disk) : Disk :=
  { steps.rotated with
    files := provide steps.rotated.files keeper.sessionProvisions
    sessions := steps.left }

theorem run_eq (steps : RunSteps keeper dryRun disk) :
    keeper.run dryRun disk = .ok (steps.summary, steps.after) := by
  have sessions := rotateLogs_sessions steps.logs
  unfold run runAfterRoots
  rw [steps.cleaned]
  simp only [Except.bind, steps.unlinked, steps.logs]
  rw [sessions, steps.swept]
  rfl

theorem exists_of_run {result : Summary × Disk}
    (returned : keeper.run dryRun disk = .ok result) :
    ∃ steps : RunSteps keeper dryRun disk,
      result = (steps.summary, steps.after) := by
  have whole := returned
  unfold run runAfterRoots at returned
  cases cleaned : keeper.cleanupStateRoots dryRun disk.files with
  | error error => rw [cleaned] at returned; cases returned
  | ok roots =>
  obtain ⟨count, roots, files⟩ := roots
  simp only [cleaned, Except.bind] at returned
  cases unlinked :
      keeper.cleanupFiles dryRun files (keeper.tempFiles files) with
  | error error => rw [unlinked] at returned; cases returned
  | ok removed =>
  simp only [unlinked] at returned
  cases logs : keeper.rotateLogs dryRun
      { disk with files := unlinkFiles dryRun files removed }
      keeper.rotatedJobs with
  | error error => rw [logs] at returned; cases returned
  | ok rotated =>
  obtain ⟨reports, rotated⟩ := rotated
  have sessions := rotateLogs_sessions logs
  simp only [logs, sessions] at returned
  cases swept : keeper.sweepSessions dryRun
      (fun name => keeper.removable (keeper.sessionsRoot ++ [name]))
      disk.sessions with
  | error error => rw [swept] at returned; cases returned
  | ok result =>
  obtain ⟨expired, left⟩ := result
  let steps : RunSteps keeper dryRun disk :=
    ⟨count, roots, files, removed, reports, rotated, expired, left, cleaned,
      unlinked, logs, swept⟩
  exact ⟨steps, Except.ok.inj (whole.symm.trans steps.run_eq)⟩

end RunSteps

theorem removed_inj {roots others : List Path}
    {files filesToo : List (TempFileKind × Path)}
    {reports reportsToo : List (List Text × RotationReport)}
    (same :
      roots.map Removed.stateRoot ++
          files.map (fun file => Removed.tempFile file.1 file.2) ++
          reports.map (fun report => Removed.rotation report.1 report.2) =
        others.map Removed.stateRoot ++
          filesToo.map (fun file => Removed.tempFile file.1 file.2) ++
          reportsToo.map
            fun report => Removed.rotation report.1 report.2) :
    roots = others ∧ files = filesToo ∧ reports = reportsToo := by
  refine ⟨?_, ?_, ?_⟩
  · have kept := congrArg (List.filterMap Removed.stateRoot?) same
    simpa [List.filterMap_append, List.filterMap_map, Function.comp_def,
      Removed.stateRoot?] using kept
  · have kept := congrArg (List.filterMap Removed.tempFile?) same
    simpa [List.filterMap_append, List.filterMap_map, Function.comp_def,
      Removed.tempFile?] using kept
  · have kept := congrArg (List.filterMap Removed.rotation?) same
    simpa [List.filterMap_append, List.filterMap_map, Function.comp_def,
      Removed.rotation?] using kept

theorem RunSteps.unmarked_removed {dryRun : Bool} {disk : Disk}
    (steps : RunSteps keeper dryRun disk) :
    steps.summary.unmarked.removed =
      steps.roots.map Removed.stateRoot ++
        steps.removed.map (fun file => Removed.tempFile file.1 file.2) ++
        (steps.reports.map unmarkedReport).map
          fun report => Removed.rotation report.1 report.2 := by
  simp [RunSteps.summary, Summary.unmarked, Removed.unmarked,
    unmarkedReport, Function.comp_def]

/-- Two runs tell the same just when their passes do. -/
theorem RunSteps.unmarked_eq_iff {disk : Disk}
    (dry : RunSteps keeper true disk) (real : RunSteps keeper false disk) :
    real.summary.unmarked = dry.summary.unmarked ↔
      (real.stateRoots = dry.stateRoots ∧ real.roots = dry.roots) ∧
        ((keeper.tempFiles real.files).countP (fun file => file.1 = .ajax) =
            (keeper.tempFiles dry.files).countP (fun file => file.1 = .ajax) ∧
          (keeper.tempFiles real.files).countP
              (fun file => file.1 = .result) =
            (keeper.tempFiles dry.files).countP
              (fun file => file.1 = .result)) ∧
        real.removed = dry.removed ∧
        real.reports.map unmarkedReport = dry.reports.map unmarkedReport ∧
        real.expired = dry.expired := by
  constructor
  · intro same
    have removed := congrArg Summary.removed same
    rw [unmarked_removed, unmarked_removed] at removed
    obtain ⟨roots, files, reports⟩ := removed_inj removed
    exact ⟨⟨congrArg Summary.stateRoots same, roots⟩,
      ⟨congrArg Summary.ajaxTempFiles same,
        congrArg Summary.resultTempFiles same⟩,
      files, reports, congrArg Summary.expiredSessions same⟩
  · rintro ⟨⟨count, roots⟩, ⟨ajax, result⟩, files, reports, expired⟩
    have removed :
        real.summary.unmarked.removed = dry.summary.unmarked.removed := by
      rw [unmarked_removed, unmarked_removed, roots, files, reports]
    have fields (summary : Summary) :
        summary =
          ⟨summary.stateRoots, summary.ajaxTempFiles,
            summary.resultTempFiles, summary.collectorLogs,
            summary.expiredSessions, summary.removed⟩ := rfl
    rw [fields real.summary.unmarked, fields dry.summary.unmarked, removed]
    simp only [Summary.unmarked, RunSteps.summary, count, ajax, result,
      expired]

end Housekeeper

end DeveloperDashboard.Housekeeping
