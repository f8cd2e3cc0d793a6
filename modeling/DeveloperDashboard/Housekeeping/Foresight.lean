import DeveloperDashboard.Housekeeping.DryRun

namespace DeveloperDashboard.Housekeeping

open Library Perl Config Session Collector Skills

/-!
# What a dry run foresees

A dry run that returns changes nothing and tells what a real run does just when
there is nothing to make sure of, when everything that is stale may be removed,
when no removal takes away what a later step looks at, and when no log that is
rotated is rotated again for another collector.
-/

variable {path : Path} {content : Text}

namespace Housekeeper

variable (keeper : Housekeeper)

/-- Everything that a run makes sure of. -/
def provisions (disk : Disk) : List Provision :=
  keeper.rootProvisions disk.files ++
    keeper.rotatedJobs.flatMap (keeper.logProvisions disk) ++
    keeper.sessionProvisions

/-- The names below the base that a run goes through. -/
def rootEntries (files : Files) : List Text :=
  if isDir files keeper.base then keeper.order keeper.base else []

/-- The files when the state roots are made sure of. -/
def providedFiles (disk : Disk) : Files :=
  provide disk.files (keeper.rootProvisions disk.files)

def staleAtFirst (disk : Disk) : List Path :=
  keeper.staleRoots (keeper.providedFiles disk)
    (keeper.rootEntries (keeper.providedFiles disk))

/-- A session file whose time of expiry can be read, when there is one. -/
def IsReadableFile (entry : Text × SessionFile) : Prop :=
  ∀ record, parseableRecord entry.1 entry.2 = some record →
    ∃ epoch,
      iso8601ToEpoch keeper.thisYear .zero (recordText record "expires_at") =
        .ok epoch

/-- The rules, the logs and the sessions can be read. -/
structure Readable (disk : Disk) : Prop where
  logs :
    ∀ job ∈ keeper.rotatedJobs, ∃ change,
      keeper.visitLog job (disk.logs (keeper.collectorParts job.name)) =
        .ok change
  sessions : ∀ entry ∈ disk.sessions, keeper.IsReadableFile entry

/-- What must hold of a disk for a dry run to foresee a real one. -/
structure Foreseen (disk : Disk) : Prop where
  provided :
    ∀ provision ∈ keeper.provisions disk, provision.Made disk.files
  rootsRemovable :
    ∀ dir ∈ keeper.staleAtFirst disk, keeper.removable dir = true
  rootsApart :
    keeper.RootsApart (keeper.providedFiles disk)
      (keeper.rootEntries (keeper.providedFiles disk))
  filesApart :
    ∀ file ∈ keeper.tempFiles (keeper.providedFiles disk),
      ∀ root ∈ keeper.staleAtFirst disk, ¬root <+: file.2
  filesRemovable :
    ∀ file ∈ keeper.tempFiles (keeper.providedFiles disk),
      keeper.isOldEnough (keeper.providedFiles disk) file.2 = true →
        keeper.removable file.2 = true
  logsApart : keeper.logPass.Undisturbed disk.logs keeper.rotatedJobs
  sessionsRemovable :
    ∀ entry ∈ disk.sessions, keeper.IsExpiredFile entry →
      keeper.removable (keeper.sessionsRoot ++ [entry.1]) = true

/--
A dry run that returns leaves the disk as it is and returns what a real run
does, but for the marks.
-/
def PreviewsRun (disk : Disk) : Prop :=
  ∀ summary after,
    keeper.run true disk = .ok (summary, after) →
      after = disk ∧
        ∃ real left,
          keeper.run false disk = .ok (real, left) ∧
            real.unmarked = summary.unmarked

variable {keeper} {disk : Disk}

theorem file_mem_layerProvisions {layer : Path}
    (member : Provision.file path content ∈ keeper.layerProvisions layer) :
    path = keeper.stateRoot layer ++ ["runtime.json".toList] ∧
      content = keeper.metadataText layer := by
  simpa [layerProvisions] using member

theorem file_mem_currentProvisions
    (member : Provision.file path content ∈ keeper.currentProvisions) :
    ∃ layer ∈ keeper.layers,
      Provision.file path content ∈ keeper.layerProvisions layer := by
  unfold currentProvisions at member
  cases last : keeper.layers.getLast? with
  | none => simp [last] at member
  | some layer =>
    rw [last] at member
    exact ⟨layer, List.mem_of_getLast? last, member⟩

theorem file_mem_provisions
    (member : Provision.file path content ∈ keeper.provisions disk) :
    ∃ layer ∈ keeper.layers,
      path = keeper.stateRoot layer ++ ["runtime.json".toList] ∧
        content = keeper.metadataText layer := by
  suffices ofLayer :
      ∃ layer ∈ keeper.layers,
        Provision.file path content ∈ keeper.layerProvisions layer by
    obtain ⟨layer, isLayer, isIn⟩ := ofLayer
    exact ⟨layer, isLayer, file_mem_layerProvisions isIn⟩
  unfold provisions at member
  rcases List.mem_append.mp member with early | late
  · rcases List.mem_append.mp early with roots | logs
    · unfold rootProvisions at roots
      split at roots
      · rcases List.mem_cons.mp roots with same | ofLayers
        · cases same
        · exact List.mem_flatMap.mp ofLayers
      · simp at roots
    · obtain ⟨job, -, isIn⟩ := List.mem_flatMap.mp logs
      unfold logProvisions at isIn
      dsimp only at isIn
      split at isIn
      · rcases List.mem_append.mp isIn with current | more
        · exact file_mem_currentProvisions current
        · rcases List.mem_cons.mp more with same | lock
          · cases same
          · split at lock
            · simp at lock
            · simp at lock
      · simp at isIn
  · rcases List.mem_append.mp late with current | more
    · exact file_mem_currentProvisions current
    · simp at more

theorem consistent_provisions : Consistent (keeper.provisions disk) := by
  intro path content other isIn isInToo
  obtain ⟨layer, isLayer, place, rfl⟩ := file_mem_provisions isIn
  obtain ⟨second, isLayerToo, placeToo, rfl⟩ := file_mem_provisions isInToo
  have keys : keeper.stateKey layer = keeper.stateKey second := by
    simpa [stateRoot] using place.symm.trans placeToo
  rw [List.inj_on_of_nodup_map keeper.keys_nodup isLayer isLayerToo keys]

theorem cleanupStateRoots_eq (dryRun : Bool) :
    keeper.cleanupStateRoots dryRun disk.files =
      keeper.cleanupRoots dryRun (keeper.providedFiles disk)
        (keeper.rootEntries (keeper.providedFiles disk)) := by
  change (if !isDir (keeper.providedFiles disk) keeper.base then _ else _) = _
  unfold rootEntries
  cases isDir (keeper.providedFiles disk) keeper.base <;> rfl

theorem unlinkFiles_dry (files : Files)
    (removed : List (TempFileKind × Path)) :
    unlinkFiles true files removed = files :=
  rfl

theorem exists_sweepSessions_iff
    {removable : Text → Bool} {sessions : SessionRoot} :
    (∃ swept, keeper.sweepSessions true removable sessions = .ok swept) ↔
      ∀ entry ∈ sessions, keeper.IsReadableFile entry := by
  induction sessions with
  | nil => simp [sweepSessions]
  | cons entry rest ih =>
    obtain ⟨name, file⟩ := entry
    rw [List.forall_mem_cons, ← ih, sweepSessions, IsReadableFile]
    cases parseableRecord name file with
    | none =>
      cases keeper.sweepSessions true removable rest <;> simp [Except.map]
    | some record =>
      cases time : iso8601ToEpoch keeper.thisYear .zero
          (recordText record "expires_at") with
      | error message => simp [time]
      | ok epoch =>
        cases keeper.sweepSessions true removable rest <;>
          by_cases valid : (keeper.now : Int) < epoch <;>
            simp [time, Except.map, valid]

theorem exists_rotateLogs_iff :
    (∃ rotated,
        keeper.rotateLogs true disk keeper.rotatedJobs = .ok rotated) ↔
      ∀ job ∈ keeper.rotatedJobs, ∃ change,
        keeper.visitLog job (disk.logs (keeper.collectorParts job.name)) =
          .ok change := by
  have previews :=
    @CellPass.exists_preview_iff _ _ _ _ _ keeper.logPass disk.logs
      keeper.rotatedJobs
  rw [← rotateLogs_dry] at previews
  refine Iff.trans ?_ previews
  cases keeper.rotateLogs true disk keeper.rotatedJobs <;> simp [Except.map]

theorem exists_drySteps (readable : keeper.Readable disk) :
    Nonempty (RunSteps keeper true disk) := by
  have rotates :
      ∃ rotated,
        keeper.rotateLogs true
            { disk with files := keeper.providedFiles disk }
            keeper.rotatedJobs =
          .ok rotated :=
    exists_rotateLogs_iff.mpr readable.logs
  obtain ⟨⟨reports, rotated⟩, logs⟩ := rotates
  obtain ⟨⟨expired, left⟩, swept⟩ :=
    exists_sweepSessions_iff.mpr readable.sessions
  exact ⟨⟨_, _, _, _, reports, rotated, expired, left,
    (cleanupStateRoots_eq true).trans (cleanupRoots_dry _),
    cleanupFiles_dry _ _, logs, swept⟩⟩

namespace RunSteps

section

variable (dry : RunSteps keeper true disk)

include dry

theorem dry_cleaned :
    dry.stateRoots =
        keeper.countRoots (keeper.providedFiles disk)
          (keeper.rootEntries (keeper.providedFiles disk)) ∧
      dry.roots = keeper.staleAtFirst disk ∧
      dry.files = keeper.providedFiles disk := by
  have cleaned := dry.cleaned
  rw [cleanupStateRoots_eq, cleanupRoots_dry] at cleaned
  obtain ⟨count, told⟩ := Prod.mk.inj (Except.ok.inj cleaned)
  obtain ⟨roots, files⟩ := Prod.mk.inj told
  exact ⟨count.symm, roots.symm, files.symm⟩

theorem dry_removed :
    dry.removed =
      (keeper.tempFiles (keeper.providedFiles disk)).filter fun file =>
        keeper.isOldEnough (keeper.providedFiles disk) file.2 := by
  have unlinked := dry.unlinked
  rw [cleanupFiles_dry, dry.dry_cleaned.2.2] at unlinked
  exact (Except.ok.inj unlinked).symm

theorem readable :
    keeper.Readable disk := by
  have logs := exists_rotateLogs_iff.mp ⟨_, dry.logs⟩
  have sessions := exists_sweepSessions_iff.mp ⟨_, dry.swept⟩
  exact ⟨logs, sessions⟩

theorem dry_after :
    dry.after =
      { disk with files := provide disk.files (keeper.provisions disk) } := by
  have rotated := rotateLogs_dry_disk dry.logs
  have left := sweepSessions_dry dry.swept
  unfold after
  rw [rotated, left, unlinkFiles_dry, dry.dry_cleaned.2.2]
  simp only [providedFiles, provisions, provide, List.foldl_append]
  rfl

theorem dry_after_iff :
    dry.after = disk ↔
      ∀ provision ∈ keeper.provisions disk, provision.Made disk.files := by
  rw [dry.dry_after, ← provide_eq_iff consistent_provisions]
  exact ⟨fun same => congrArg Disk.files same,
    fun same => congrArg (fun files => { disk with files := files }) same⟩

end

end RunSteps

theorem rootEntries_nodup (files : Files) :
    (keeper.rootEntries files).Nodup := by
  unfold rootEntries
  split
  · exact keeper.order_nodup _
  · exact List.nodup_nil

theorem toldStateRoots_iff :
    toldRoots (keeper.cleanupStateRoots false disk.files) =
        some
          (keeper.countRoots (keeper.providedFiles disk)
              (keeper.rootEntries (keeper.providedFiles disk)),
            keeper.staleAtFirst disk) ↔
      (∀ dir ∈ keeper.staleAtFirst disk, keeper.removable dir = true) ∧
        keeper.RootsApart (keeper.providedFiles disk)
          (keeper.rootEntries (keeper.providedFiles disk)) := by
  have told :=
    @toldRoots_iff keeper (keeper.providedFiles disk)
      (keeper.rootEntries (keeper.providedFiles disk)) []
      (rootEntries_nodup _) (by simp [AreRootsOf])
  rw [without_nil] at told
  rw [cleanupStateRoots_eq, staleAtFirst, told]
  refine and_congr_right fun _ => and_iff_right ?_
  simp [KeptApart]

theorem files_of_cleanupStateRoots {count : Nat} {files : Files}
    (cleaned :
      keeper.cleanupStateRoots false disk.files =
        .ok (count, keeper.staleAtFirst disk, files)) :
    files =
      without (keeper.providedFiles disk)
        (keeper.staleAtFirst disk).reverse := by
  rw [cleanupStateRoots_eq] at cleaned
  have left :=
    @cleanupRoots_files keeper (keeper.providedFiles disk) _ [] _ _ _ cleaned
  rwa [List.append_nil] at left

theorem length_eq_counts (files : List (TempFileKind × Path)) :
    files.length =
      files.countP (fun file => file.1 = .ajax) +
        files.countP fun file => file.1 = .result := by
  rw [List.length_eq_countP_add_countP fun file => file.1 = .ajax]
  congr 1
  refine List.countP_congr fun file _ => ?_
  cases file.1 <;> simp

theorem counts_eq_iff (files : List (TempFileKind × Path))
    (keep : TempFileKind × Path → Bool) :
    ((files.filter keep).countP (fun file => file.1 = .ajax) =
          files.countP (fun file => file.1 = .ajax) ∧
        (files.filter keep).countP (fun file => file.1 = .result) =
          files.countP fun file => file.1 = .result) ↔
      ∀ file ∈ files, keep file = true := by
  constructor
  · rintro ⟨ajax, result⟩
    refine List.length_filter_eq_length_iff.mp ?_
    rw [length_eq_counts (files.filter keep), ajax, result,
      ← length_eq_counts]
  · intro all
    rw [List.filter_eq_self.mpr all]
    exact ⟨rfl, rfl⟩

theorem isApart_iff {roots : List Path} :
    (!roots.reverse.any fun root => root.isPrefixOf path) = true ↔
      ∀ root ∈ roots, ¬root <+: path := by
  simp [List.any_reverse, List.isPrefixOf_iff_prefix]

theorem isOldEnough_without {files : Files} {roots : List Path}
    (apart : ∀ root ∈ roots, ¬root <+: path) :
    keeper.isOldEnough (without files roots.reverse) path =
      keeper.isOldEnough files path :=
  isOldEnough_congr
    (without_of_forall fun root member =>
      apart root (List.mem_reverse.mp member))

theorem map_unmarkedReport
    {logs : List Text → Option Text} {jobs : List CollectorJob}
    {reports : List (List Text × RotationReport)}
    (returned : keeper.logPass.committed logs jobs = .ok reports) :
    reports.map unmarkedReport = reports := by
  refine (List.map_congr_left fun report member => ?_).trans (List.map_id _)
  obtain ⟨job, log, after, visited⟩ :=
    CellPass.exists_visit_of_mem_committed returned member
  obtain ⟨-, rotated⟩ := keeper.visitLog_changed visited
  obtain ⟨-, -, -, -, -, unmarked, -⟩ := rotateLog_changed rotated
  obtain ⟨cell, told⟩ := report
  cases told
  simp only at unmarked
  rw [unmarked]
  rfl

theorem reports_eq_iff
    {dry real : List (List Text × RotationReport)} {dryDisk realDisk : Disk}
    {dryFiles realFiles : Files}
    (dryLogs :
      keeper.rotateLogs true { disk with files := dryFiles }
          keeper.rotatedJobs =
        .ok (dry, dryDisk))
    (realLogs :
      keeper.rotateLogs false { disk with files := realFiles }
          keeper.rotatedJobs =
        .ok (real, realDisk)) :
    real.map unmarkedReport = dry.map unmarkedReport ↔
      keeper.logPass.Undisturbed disk.logs keeper.rotatedJobs := by
  have preview := @rotateLogs_dry keeper { disk with files := dryFiles }
    keeper.rotatedJobs
  have committed := @rotateLogs_real keeper { disk with files := realFiles }
    keeper.rotatedJobs
  rw [dryLogs] at preview
  rw [realLogs] at committed
  rw [map_unmarkedReport committed.symm,
    ← CellPass.committed_eq_preview_iff preview.symm, ← committed]
  exact (Except.ok.injEq _ _).symm ▸ Iff.rfl

/-- Two runs that tell the same had what they need. -/
theorem foreseen_of_unmarked_eq
    (dry : RunSteps keeper true disk) (real : RunSteps keeper false disk)
    (unchanged : dry.after = disk)
    (same : real.summary.unmarked = dry.summary.unmarked) :
    keeper.Foreseen disk := by
  obtain ⟨count, roots, files⟩ := dry.dry_cleaned
  obtain ⟨⟨sameCount, sameRoots⟩, counts, removed, reports, expired⟩ :=
    (RunSteps.unmarked_eq_iff dry real).mp same
  have told : toldRoots (keeper.cleanupStateRoots false disk.files) =
      some (dry.stateRoots, dry.roots) := by
    rw [real.cleaned, sameCount, sameRoots]
    rfl
  rw [count, roots, toldStateRoots_iff] at told
  have left : real.files = without (keeper.providedFiles disk)
      (keeper.staleAtFirst disk).reverse :=
    files_of_cleanupStateRoots (by rw [real.cleaned, sameRoots, roots])
  rw [files, left, tempFiles_without, counts_eq_iff] at counts
  have apart :
      ∀ file ∈ keeper.tempFiles (keeper.providedFiles disk),
        ∀ root ∈ keeper.staleAtFirst disk, ¬root <+: file.2 :=
    fun file member => isApart_iff.mp (counts file member)
  have unlinked := real.unlinked
  rw [left, tempFiles_without, List.filter_eq_self.mpr counts,
    cleanupFiles_real_iff] at unlinked
  obtain ⟨fewer, after, swept, -, all⟩ := sweepSessions_real dry.swept
  have sameSweep := Except.ok.inj (real.swept.symm.trans swept)
  exact
    { provided := dry.dry_after_iff.mp unchanged
      rootsRemovable := told.1
      rootsApart := told.2
      filesApart := apart
      filesRemovable := fun file member old =>
        unlinked.2 file member
          ((isOldEnough_without (apart file member)).trans old)
      logsApart := (reports_eq_iff dry.logs real.logs).mp reports
      sessionsRemovable :=
        all.mp ((congrArg Prod.fst sameSweep).symm.trans expired) }

/-- With what it needs, a real run tells what the dry run tells. -/
theorem exists_realSteps
    (dry : RunSteps keeper true disk) (foreseen : keeper.Foreseen disk) :
    ∃ real : RunSteps keeper false disk,
      real.summary.unmarked = dry.summary.unmarked := by
  obtain ⟨count, roots, files⟩ := dry.dry_cleaned
  have told := toldStateRoots_iff.mpr
    ⟨foreseen.rootsRemovable, foreseen.rootsApart⟩
  cases cleaned : keeper.cleanupStateRoots false disk.files with
  | error error => rw [cleaned] at told; cases told
  | ok result =>
  obtain ⟨realCount, realRoots, realFiles⟩ := result
  rw [cleaned] at told
  obtain ⟨rfl, rfl⟩ := Prod.mk.inj (Option.some.inj told)
  have left := files_of_cleanupStateRoots cleaned
  have apart := foreseen.filesApart
  have kept : keeper.tempFiles realFiles =
      keeper.tempFiles (keeper.providedFiles disk) := by
    rw [left, tempFiles_without, List.filter_eq_self]
    exact fun file member => isApart_iff.mpr (apart file member)
  have sameAge : ∀ file ∈ keeper.tempFiles (keeper.providedFiles disk),
      keeper.isOldEnough realFiles file.2 =
        keeper.isOldEnough (keeper.providedFiles disk) file.2 := by
    intro file member
    rw [left]
    exact isOldEnough_without (apart file member)
  have unlinked : keeper.cleanupFiles false realFiles
      (keeper.tempFiles realFiles) = .ok dry.removed := by
    rw [cleanupFiles_real_iff, dry.dry_removed, kept]
    refine ⟨(List.filter_congr sameAge).symm, fun file member old => ?_⟩
    exact foreseen.filesRemovable file member
      ((sameAge file member).symm.trans old)
  have preview := @rotateLogs_dry keeper
    { disk with files := unlinkFiles true dry.files dry.removed }
    keeper.rotatedJobs
  rw [dry.logs] at preview
  have committed :=
    (CellPass.committed_eq_preview_iff preview.symm).mpr foreseen.logsApart
  have rotates := @rotateLogs_real keeper
    { disk with files := unlinkFiles false realFiles dry.removed }
    keeper.rotatedJobs
  rw [committed] at rotates
  cases logs : keeper.rotateLogs false
      { disk with files := unlinkFiles false realFiles dry.removed }
      keeper.rotatedJobs with
  | error error => rw [logs] at rotates; cases rotates
  | ok result =>
  obtain ⟨reports, rotated⟩ := result
  obtain ⟨fewer, after, swept, -, all⟩ := sweepSessions_real dry.swept
  let real : RunSteps keeper false disk :=
    ⟨_, _, realFiles, dry.removed, reports, rotated, fewer, after, cleaned,
      unlinked, logs, swept⟩
  refine ⟨real, (RunSteps.unmarked_eq_iff dry real).mpr
    ⟨⟨count.symm, roots.symm⟩, ?_, rfl,
      (reports_eq_iff dry.logs logs).mpr foreseen.logsApart,
      all.mpr foreseen.sessionsRemovable⟩⟩
  rw [show real.files = realFiles from rfl, kept, files]
  exact ⟨rfl, rfl⟩

/--
A dry run that returns changes nothing and tells what a real run does just when
the disk is such that it can.
-/
theorem previewsRun_iff :
    keeper.PreviewsRun disk ↔
      (keeper.Readable disk → keeper.Foreseen disk) := by
  constructor
  · intro previews readable
    obtain ⟨dry⟩ := exists_drySteps readable
    obtain ⟨unchanged, summary, left, returned, same⟩ :=
      previews _ _ dry.run_eq
    obtain ⟨real, told⟩ := RunSteps.exists_of_run returned
    obtain ⟨rfl, rfl⟩ := Prod.mk.inj told
    exact foreseen_of_unmarked_eq dry real unchanged same
  · intro foreseen summary after returned
    obtain ⟨dry, told⟩ := RunSteps.exists_of_run returned
    obtain ⟨rfl, rfl⟩ := Prod.mk.inj told
    have holds := foreseen dry.readable
    obtain ⟨real, same⟩ := exists_realSteps dry holds
    exact ⟨dry.dry_after_iff.mpr holds.provided, _, _, real.run_eq, same⟩

/-- A housekeeper of one layer that nothing may be removed for. -/
def loneKeeper : Housekeeper where
  base := ["state".toList]
  tmpdir := ["tmp".toList]
  layers := [["home".toList]]
  stateKey _ := "key".toList
  keys_nodup := List.nodup_singleton _
  metadataText _ := "home".toList
  readMetadata _ := none
  order dir :=
    if dir = ["tmp".toList] then ["dashboard-result-1".toList] else []
  order_nodup dir := by split <;> simp
  mtime _ := 0
  machine := ⟨[], 1, 1, none, none, none⟩
  collectors := []
  collectorParts name := [name]
  removable _ := false
  thisYear := 2026
  now := 7200
  nowEpoch := none
  minAgeSeconds := 3600

def emptyDisk : Disk where
  files _ := none
  logs _ := none
  sessions := []

/-- An old temp file is on disk, which belongs to another user. -/
def foreignFile : Files := fun path =>
  if path = ["tmp".toList, "dashboard-result-1".toList] then some (.file [])
  else if path = ["tmp".toList] then some .folder
  else none

/--
A dry run over an empty disk makes a state root, and one over the temp file of
another user tells that it would remove it, where a real run dies.
-/
theorem dryRun_misleads :
    ¬loneKeeper.PreviewsRun emptyDisk ∧
      ¬loneKeeper.PreviewsRun { emptyDisk with files := foreignFile } := by
  constructor
  · intro previews
    have unchanged := (previews _ _ rfl).1
    have made :=
      congrArg (fun disk : Disk => isDir disk.files ["state".toList]) unchanged
    exact absurd made (by decide)
  · intro previews
    obtain ⟨-, real, left, returned, -⟩ := previews _ _ rfl
    have dies :
        (loneKeeper.run false { emptyDisk with files := foreignFile }).isOk =
          false := by decide +kernel
    rw [returned] at dies
    cases dies

end Housekeeper

end DeveloperDashboard.Housekeeping
