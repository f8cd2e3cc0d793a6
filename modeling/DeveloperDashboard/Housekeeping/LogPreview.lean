import DeveloperDashboard.Collector.RotatedLog
import DeveloperDashboard.Housekeeping.Housekeeper
import DeveloperDashboard.Library.CellPass
import DeveloperDashboard.Library.Joined

namespace DeveloperDashboard.Housekeeping

open Library Perl Config Collector Skills

/-!
# Previews of log rotations

Rotating logs is a pass over shared cells: several collectors can have one
directory, and a rotation that changes a log leaves less of it.
-/

variable {thisYear : Nat} {name : Text}

/-- Entries are dropped, none is added. -/
theorem keepFrom_sublist {cutoff : Int} {entries kept : List Text}
    (returned : keepFrom thisYear name cutoff entries = .ok kept) :
    kept.Sublist entries := by
  induction entries generalizing kept with
  | nil =>
    obtain rfl : [] = kept := Except.ok.inj returned
    exact List.Sublist.refl _
  | cons entry rest ih =>
    rw [keepFrom] at returned
    cases time : entryTimestampEpoch thisYear name entry with
    | error error => rw [time] at returned; cases returned
    | ok epoch =>
      rw [time] at returned
      cases later : keepFrom thisYear name cutoff rest with
      | error error => simp [later, Except.bind, Except.map] at returned
      | ok others =>
        simp only [later, Except.bind, Except.map,
          Except.ok.injEq] at returned
        have tail := ih later
        subst returned
        split
        · exact tail.cons_cons entry
        · exact tail.cons entry

theorem flatten_splitLogEntries (text : Text) :
    (splitLogEntries text).flatten = text := by
  unfold splitLogEntries Framed.frames
  rw [← List.flatten_flatten, List.flatten_splitBy, flatten_splitLineStarts]

variable {now : Int}

theorem trimLogByAge_sublist {text trimmed : Text} {retention : Nat}
    (returned : trimLogByAge thisYear name text retention now = .ok trimmed) :
    trimmed.Sublist text := by
  unfold trimLogByAge at returned
  split at returned
  · obtain rfl := Except.ok.inj returned
    exact List.Sublist.refl _
  · cases kept :
        keepFrom thisYear name (now - retention) (splitLogEntries text) with
    | error error => rw [kept] at returned; cases returned
    | ok entries =>
      rw [kept] at returned
      obtain rfl := Except.ok.inj returned
      have whole := (keepFrom_sublist kept).flatten
      rwa [flatten_splitLogEntries] at whole

theorem realignToEntryBoundary_sublist (original trimmed : Text) :
    (realignToEntryBoundary original trimmed).Sublist trimmed := by
  unfold realignToEntryBoundary
  split
  · exact List.Sublist.refl _
  · split
    · exact List.Sublist.refl _
    · have tail := (List.tail_sublist (splitLogEntries trimmed)).flatten
      rwa [flatten_splitLogEntries] at tail

theorem joinLines_drop_suffix (text : Text) (count : Nat) :
    joinLines ((text.splitOn '\n').drop count) <:+ text := by
  have suffix :=
    Joined.intercalate_drop_suffix ['\n'] (text.splitOn '\n') count
  rwa [List.intercalate_splitOn] at suffix

theorem trimLogByLines_sublist (text : Text) (lines : Nat) :
    (trimLogByLines text lines).Sublist text := by
  unfold trimLogByLines
  by_cases empty : text = []
  · rw [if_pos empty]
  by_cases ends : text.getLast? = some '\n'
  · obtain ⟨front, rfl⟩ := List.getLast?_eq_some_iff.mp ends
    simp only [if_neg empty, if_pos ends, List.splitOn_append_cons_self,
      List.splitOn_nil, List.dropLast_concat]
    split
    · exact List.Sublist.refl _
    · refine (realignToEntryBoundary_sublist _ _).trans ?_
      exact (joinLines_drop_suffix front _).sublist.append_right _
  · simp only [if_neg empty, if_neg ends, List.append_nil]
    split
    · exact List.Sublist.refl _
    · refine (realignToEntryBoundary_sublist _ _).trans ?_
      exact (joinLines_drop_suffix text _).sublist

theorem applyLogRotation_sublist
    {text rotated : Text} {rules : RotationRules}
    (returned :
      applyLogRotation thisYear name text rules now = .ok rotated) :
    rotated.Sublist text := by
  unfold applyLogRotation at returned
  cases aged : applyAgeRule thisYear name text rules now with
  | error error => rw [aged] at returned; cases returned
  | ok trimmed =>
    rw [aged] at returned
    obtain rfl := Except.ok.inj returned
    have byLines : (applyLineRule rules trimmed).Sublist trimmed := by
      unfold applyLineRule
      split
      · exact List.Sublist.refl _
      · exact trimLogByLines_sublist _ _
    refine byLines.trans ?_
    unfold applyAgeRule at aged
    split at aged
    · obtain rfl := Except.ok.inj aged
      exact List.Sublist.refl _
    · exact trimLogByAge_sublist aged

theorem rotateLog_dry
    (thisYear : Nat) (name : Text) (rotation : Option JsonValue) (now : Int)
    (log : Option Text) :
    rotateLog thisYear name rotation now true log =
      (rotateLog thisYear name rotation now false log).map fun rotated =>
        (rotated.1.map fun report => { report with dryRun := true }, log) := by
  unfold rotateLog
  split
  · rfl
  · cases normalizeRotation name rotation with
    | error error => rfl
    | ok rules =>
      simp only [Except.bind]
      split
      · rfl
      · split
        · rfl
        · cases log with
          | none => rfl
          | some original =>
            dsimp only
            cases applyLogRotation thisYear name original rules now with
            | error error => rfl
            | ok rotated =>
              simp only [Except.map]
              split <;> rfl

/-- A report tells the size before, and what is left is less. -/
theorem rotateLog_changed {rotation : Option JsonValue}
    {log after : Option Text} {report : RotationReport}
    (changed :
      rotateLog thisYear name rotation now false log =
        .ok (some report, after)) :
    ∃ original rotated,
      log = some original ∧ after = some rotated ∧
        report.beforeBytes = original.length ∧
        report.dryRun = false ∧ rotated.length < original.length := by
  unfold rotateLog at changed
  split at changed
  · cases changed
  · cases normal : normalizeRotation name rotation with
    | error error => rw [normal] at changed; cases changed
    | ok rules =>
      simp only [normal, Except.bind] at changed
      split at changed
      · cases changed
      · split at changed
        · cases changed
        · cases log with
          | none => cases changed
          | some original =>
            dsimp only at changed
            cases applied :
                applyLogRotation thisYear name original rules now with
            | error error => rw [applied] at changed; cases changed
            | ok rotated =>
              simp only [applied, Except.map, Except.ok.injEq] at changed
              split at changed
              · cases changed
              · next different =>
                  obtain ⟨told, rfl⟩ := Prod.mk.inj changed
                  obtain rfl := Option.some.inj told
                  have part := applyLogRotation_sublist applied
                  refine ⟨original, rotated, rfl, rfl, rfl, rfl, ?_⟩
                  exact Nat.lt_of_le_of_ne part.length_le fun same =>
                    different (part.eq_of_length same)

namespace Housekeeper

variable (keeper : Housekeeper)

def visitLog (job : CollectorJob) (log : Option Text) :
    Except HousekeeperError
      (Option ((List Text × RotationReport) × Option Text)) :=
  match keeper.rotateJob false job log with
  | .error message => .error (.rotation message)
  | .ok (none, _) => .ok none
  | .ok (some report, after) =>
    .ok (some ((keeper.collectorParts job.name, report), after))

theorem visitLog_changed {job : CollectorJob} {log after : Option Text}
    {report : List Text × RotationReport}
    (changed : keeper.visitLog job log = .ok (some (report, after))) :
    report.1 = keeper.collectorParts job.name ∧
      keeper.rotateJob false job log = .ok (some report.2, after) := by
  unfold visitLog at changed
  split at changed
  · cases changed
  · cases changed
  · next found rotated =>
      obtain ⟨told, rfl⟩ :=
        Prod.mk.inj (Option.some.inj (Except.ok.inj changed))
      subst told
      exact ⟨rfl, rotated⟩

def logPass :
    CellPass CollectorJob (List Text) (Option Text) HousekeeperError
      (List Text × RotationReport) where
  cell job := keeper.collectorParts job.name
  visit := keeper.visitLog
  size log := (log.map List.length).getD 0
  reportCell report := report.1
  reportSize report := report.2.beforeBytes
  told job log report after changed := by
    obtain ⟨cell, rotated⟩ := keeper.visitLog_changed changed
    obtain ⟨original, left, rfl, rfl, size, -, -⟩ := rotateLog_changed rotated
    exact ⟨cell, size⟩
  shrinks job log report after changed := by
    obtain ⟨-, rotated⟩ := keeper.visitLog_changed changed
    obtain ⟨original, left, rfl, rfl, -, -, less⟩ := rotateLog_changed rotated
    exact less

def unmarkedReport (report : List Text × RotationReport) :
    List Text × RotationReport :=
  (report.1, { report.2 with dryRun := false })

theorem rotateJob_dry (job : CollectorJob) (log : Option Text) :
    keeper.rotateJob true job log =
      (keeper.rotateJob false job log).map fun rotated =>
        (rotated.1.map fun report => { report with dryRun := true }, log) :=
  rotateLog_dry _ _ _ _ _

variable {keeper}

theorem unmarkedReport_mark
    {job : CollectorJob} {log after : Option Text} {report : RotationReport}
    (rotated : keeper.rotateJob false job log = .ok (some report, after)) :
    unmarkedReport
        (keeper.collectorParts job.name, { report with dryRun := true }) =
      (keeper.collectorParts job.name, report) := by
  obtain ⟨-, -, -, -, -, unmarked, -⟩ := rotateLog_changed rotated
  cases report
  simp only at unmarked
  rw [unmarked]
  rfl

theorem rotateLogs_dry (disk : Disk) (jobs : List CollectorJob) :
    ((keeper.rotateLogs true disk jobs).map fun rotated =>
        rotated.1.map unmarkedReport) =
      keeper.logPass.preview disk.logs jobs := by
  induction jobs generalizing disk with
  | nil => rfl
  | cons job rest ih =>
    have visit : keeper.logPass.visit job
        (disk.logs (keeper.logPass.cell job)) =
      keeper.visitLog job (disk.logs (keeper.collectorParts job.name)) :=
      rfl
    rw [rotateLogs, CellPass.preview, visit]
    rw [rotateJob_dry]
    cases rotated : keeper.rotateJob false job
        (disk.logs (keeper.collectorParts job.name)) with
    | error message => simp [visitLog, rotated, Except.map]
    | ok result =>
      obtain ⟨report, after⟩ := result
      cases report with
      | none =>
        simp only [visitLog, rotated, Except.map, Option.map_none]
        exact ih _
      | some report =>
        have same := unmarkedReport_mark rotated
        simp only [visitLog, rotated, Except.map, Option.map_some,
          Function.update_eq_self]
        rw [← ih
          { disk with
                files := provide disk.files (keeper.logProvisions disk job) }]
        cases keeper.rotateLogs true
            { disk with
                  files := provide disk.files (keeper.logProvisions disk job) } rest with
        | error error => rfl
        | ok later => simp [Except.map, same]

theorem rotateLogs_real (disk : Disk) (jobs : List CollectorJob) :
    (keeper.rotateLogs false disk jobs).map Prod.fst =
      keeper.logPass.committed disk.logs jobs := by
  induction jobs generalizing disk with
  | nil => rfl
  | cons job rest ih =>
    have visit : keeper.logPass.visit job
        (disk.logs (keeper.logPass.cell job)) =
      keeper.visitLog job (disk.logs (keeper.collectorParts job.name)) :=
      rfl
    rw [rotateLogs]
    cases rotated : keeper.rotateJob false job
        (disk.logs (keeper.collectorParts job.name)) with
    | error message =>
      have visited : keeper.logPass.visit job
          (disk.logs (keeper.logPass.cell job)) =
            .error (.rotation message) :=
        visit.trans (by simp only [visitLog, rotated])
      rw [CellPass.committed_error visited]
      rfl
    | ok result =>
      obtain ⟨report, after⟩ := result
      cases report with
      | none =>
        rw [CellPass.committed_none
          (visit.trans (by simp only [visitLog, rotated]))]
        exact ih _
      | some report =>
        rw [CellPass.committed_some
          (visit.trans (by simp only [visitLog, rotated]; rfl))]
        have later :=
          ih
            { disk with
              files := provide disk.files (keeper.logProvisions disk job)
              logs := Function.update disk.logs
                (keeper.collectorParts job.name) after }
        rw [show keeper.logPass.cell job =
          keeper.collectorParts job.name from rfl, ← later]
        dsimp only
        cases keeper.rotateLogs false
            { disk with
              files := provide disk.files (keeper.logProvisions disk job)
              logs := Function.update disk.logs
                (keeper.collectorParts job.name) after } rest with
        | error error => rfl
        | ok told => rfl

/-- A dry run leaves the logs, and makes sure of what the jobs need. -/
theorem rotateLogs_dry_disk {disk after : Disk} {jobs : List CollectorJob}
    {reports : List (List Text × RotationReport)}
    (returned : keeper.rotateLogs true disk jobs = .ok (reports, after)) :
    after =
      { disk with
        files :=
          provide disk.files (jobs.flatMap (keeper.logProvisions disk)) } := by
  induction jobs generalizing disk reports with
  | nil =>
    obtain ⟨-, rfl⟩ := Prod.mk.inj (Except.ok.inj returned)
    rfl
  | cons job rest ih =>
    rw [rotateLogs] at returned
    rw [rotateJob_dry] at returned
    have files :
        provide (provide disk.files (keeper.logProvisions disk job))
            (rest.flatMap (keeper.logProvisions disk)) =
          provide disk.files
            ((job :: rest).flatMap (keeper.logProvisions disk)) := by
      rw [List.flatMap_cons, provide, provide, provide, List.foldl_append]
    cases rotated : keeper.rotateJob false job
        (disk.logs (keeper.collectorParts job.name)) with
    | error message => simp [rotated, Except.map] at returned
    | ok result =>
      obtain ⟨report, log⟩ := result
      cases report with
      | none =>
        simp only [rotated, Except.map, Option.map_none] at returned
        rw [ih returned]
        exact congrArg (fun files => { disk with files := files }) files
      | some report =>
        simp only [rotated, Except.map, Option.map_some,
          Function.update_eq_self] at returned
        cases later : keeper.rotateLogs true
            { disk with
                  files := provide disk.files (keeper.logProvisions disk job) } rest with
        | error error => simp [later] at returned
        | ok told =>
          simp only [later, Except.ok.injEq, Prod.mk.injEq] at returned
          obtain ⟨-, rfl⟩ := returned
          rw [ih later]
          exact congrArg (fun files => { disk with files := files })
            files

theorem rotateLogs_sessions
    {dryRun : Bool} {disk after : Disk} {jobs : List CollectorJob}
    {reports : List (List Text × RotationReport)}
    (returned : keeper.rotateLogs dryRun disk jobs = .ok (reports, after)) :
    after.sessions = disk.sessions := by
  induction jobs generalizing disk reports with
  | nil =>
    obtain ⟨-, rfl⟩ := Prod.mk.inj (Except.ok.inj returned)
    rfl
  | cons job rest ih =>
    rw [rotateLogs] at returned
    split at returned
    · cases returned
    · have kept := ih returned
      exact kept
    · next report log rotated =>
        cases later : keeper.rotateLogs dryRun
            { disk with
              files := provide disk.files (keeper.logProvisions disk job)
              logs := Function.update disk.logs
                (keeper.collectorParts job.name) log } rest with
        | error error => rw [later] at returned; cases returned
        | ok told =>
          rw [later] at returned
          obtain ⟨-, rfl⟩ := Prod.mk.inj (Except.ok.inj returned)
          have kept := ih later
          exact kept

end Housekeeper

end DeveloperDashboard.Housekeeping
