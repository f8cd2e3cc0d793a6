import DeveloperDashboard.Collector.LogRotation
import DeveloperDashboard.Collector.ProcessTable
import DeveloperDashboard.Session.SessionExpiry
import DeveloperDashboard.Skills.SkillInstall

namespace DeveloperDashboard.Housekeeping

open Library Perl Config Session Collector Skills

/-!
# The housekeeper

`run` goes through the state roots, the temp files, the collector logs and the
sessions, and removes what is stale.  A dry run takes the same way and only
tells what it would remove.  On its way each of them makes sure that the
directories of the current runtime layers are there.
-/

/-- A collector, as far as it says how its log is rotated. -/
structure CollectorJob where
  name : Text
  rotation : Option JsonValue
  rotations : Option JsonValue

def hashEntries : Option JsonValue → ConfigHash
  | some (.hash entries) => entries
  | _ => []

/-- `_collector_rotation`. -/
def collectorRotation (job : CollectorJob) : ConfigHash :=
  (hashEntries job.rotations).foldl
    (fun rotation entry => rotation.store entry.1 entry.2)
    (hashEntries job.rotation)

/-- The kinds of `_temp_file_kind`. -/
inductive TempFileKind where
  | ajax
  | result
deriving DecidableEq

/-- `_temp_file_kind`. -/
def tempFileKind (entry : Text) : Option TempFileKind :=
  if "developer-dashboard-ajax-".toList.isPrefixOf entry then some .ajax
  else if "dashboard-result-".toList.isPrefixOf entry then some .result
  else none

inductive Removed where
  | stateRoot (path : Path)
  | tempFile (kind : TempFileKind) (path : Path)
  | rotation (collector : List Text) (report : RotationReport)
deriving DecidableEq

/-- The summary without the mark that a dry run leaves on its rotations. -/
def Removed.unmarked : Removed → Removed
  | rotation collector report =>
    rotation collector { report with dryRun := false }
  | other => other

inductive HousekeeperError where
  /-- `Unable to remove stale`. -/
  | unremovable (path : Path)
  | rotation (message : Text)
  | session (message : Text)
deriving DecidableEq

inductive Provision where
  | dir (path : Path)
  | file (path : Path) (content : Text)
  | touch (path : Path)
deriving DecidableEq

/--
What is on disk.  The logs and the sessions of the current runtime layer are
kept apart from the other files; a log is found by the directory of its
collector.
-/
structure Disk where
  files : Files
  logs : List Text → Option Text
  sessions : SessionRoot

/-- A run: its options, and what it finds around it. -/
structure Housekeeper where
  /-- `state_base_root`. -/
  base : Path
  tmpdir : Path
  /-- `runtime_layers`, of which the last is the current one. -/
  layers : List Path
  /-- `_state_root_key`. -/
  stateKey : Path → Text
  keys_nodup : (layers.map stateKey).Nodup
  /-- What `runtime.json` says of a layer. -/
  metadataText : Path → Text
  /-- The runtime root of a `runtime.json` that is read back. -/
  readMetadata : Text → Option (Option Path)
  order : Path → List Text
  order_nodup : ∀ dir, (order dir).Nodup
  mtime : Path → Int
  machine : Machine
  collectors : List CollectorJob
  /-- The directory of a collector below `collectors`. -/
  collectorParts : Text → List Text
  removable : Path → Bool
  thisYear : Nat
  now : Nat
  nowEpoch : Option Int
  minAgeSeconds : Nat

structure Summary where
  stateRoots : Nat
  ajaxTempFiles : Nat
  resultTempFiles : Nat
  collectorLogs : Nat
  expiredSessions : Nat
  removed : List Removed
deriving DecidableEq

def Summary.unmarked (summary : Summary) : Summary :=
  { summary with removed := summary.removed.map Removed.unmarked }

def Provision.apply (files : Files) : Provision → Files
  | dir path => files.ensureDir path
  | file path content =>
    fun other => if other = path then some (.file content) else files other
  | touch path =>
    fun other =>
      if other = path then (files other).or (some (.file []))
      else files other

/-- Make sure of one thing after the other. -/
def provide (files : Files) (provisions : List Provision) : Files :=
  provisions.foldl Provision.apply files

namespace Housekeeper

variable (keeper : Housekeeper)

def stateRoot (layer : Path) : Path :=
  keeper.base ++ [keeper.stateKey layer]

/-- `_state_root_for_layer`. -/
def layerProvisions (layer : Path) : List Provision :=
  [.dir (keeper.stateRoot layer),
    .file (keeper.stateRoot layer ++ ["runtime.json".toList])
      (keeper.metadataText layer)]

/-- `state_root`, of the current layer. -/
def currentProvisions : List Provision :=
  (keeper.layers.getLast?.map keeper.layerProvisions).getD []

def currentRoot : Path :=
  (keeper.layers.getLast?.map keeper.stateRoot).getD keeper.base

def isDir (files : Files) (path : Path) : Bool :=
  match files path with
  | some .folder => true
  | _ => false

def fileText (files : Files) (path : Path) : Option Text :=
  match files path with
  | some (.file content) => some content
  | _ => none

/-- `_path_is_old_enough`. -/
def isOldEnough (files : Files) (path : Path) : Bool :=
  (files path).isSome &&
    decide ((keeper.minAgeSeconds : Int) ≤ keeper.now - keeper.mtime path)

/-- The collector of a pid file, when `.` matches its name. -/
def pidFileCollector (entry : Text) : Option Text :=
  if ".pid".toList.isSuffixOf entry then
    let name := entry.take (entry.length - 4)
    if '\n' ∈ name then none else some name
  else none

def isLivePidFile (files : Files) (collectorsRoot : Path) (entry : Text) :
    Bool :=
  match pidFileCollector entry, fileText files (collectorsRoot ++ [entry]) with
  | some name, some content =>
    let pid := content.takeWhile (· ≠ '\n')
    decide (pid ≠ []) && pid.all isDigit && decide (name ≠ []) &&
      keeper.machine.isManagedLoop pid name
  | _, _ => false

/-- `_state_root_has_live_collectors`. -/
def hasLiveCollectors (files : Files) (dir : Path) : Bool :=
  let collectorsRoot := dir ++ ["collectors".toList]
  isDir files collectorsRoot &&
    (keeper.order collectorsRoot).any
      (keeper.isLivePidFile files collectorsRoot)

/-- The runtime root that `runtime.json` of a state root tells. -/
def runtimeRootOf (files : Files) (dir : Path) : Option Path :=
  ((fileText files (dir ++ ["runtime.json".toList])).bind
    keeper.readMetadata).join

/-- `_state_root_is_stale`. -/
def isStale (files : Files) (dir : Path) : Bool :=
  keeper.isOldEnough files dir && !keeper.hasLiveCollectors files dir &&
    !(keeper.runtimeRootOf files dir).any (isDir files)

/-- `$active_roots{$dir}`. -/
def isActive (dir : Path) : Bool :=
  keeper.layers.any fun layer => decide (keeper.stateRoot layer = dir)

/-- `_remove_tree`. -/
def removeRoot (dryRun : Bool) (files : Files) (dir : Path) :
    Except HousekeeperError Files :=
  if dryRun then .ok files
  else if keeper.removable dir then .ok (files.removeTree dir .complete)
  else .error (.unremovable dir)

/-- The loop of `_cleanup_state_roots`: how many, which, and what is left. -/
def cleanupRoots (dryRun : Bool) :
    Files → List Text →
    Except HousekeeperError (Nat × List Path × Files)
  | files, [] => .ok (0, [], files)
  | files, entry :: rest =>
    let dir := keeper.base ++ [entry]
    if !isDir files dir then cleanupRoots dryRun files rest
    else if keeper.isActive dir || !keeper.isStale files dir then
      (cleanupRoots dryRun files rest).map fun after =>
        (after.1 + 1, after.2)
    else
      match keeper.removeRoot dryRun files dir with
      | .error error => .error error
      | .ok files =>
        (cleanupRoots dryRun files rest).map fun after =>
          (after.1 + 1, dir :: after.2.1, after.2.2)

/-- What `_cleanup_state_roots` makes sure of. -/
def rootProvisions (files : Files) : List Provision :=
  if isDir (files.ensureDir keeper.base) keeper.base then
    .dir keeper.base :: keeper.layers.flatMap keeper.layerProvisions
  else [.dir keeper.base]

/-- `_cleanup_state_roots`. -/
def cleanupStateRoots (dryRun : Bool) (files : Files) :
    Except HousekeeperError (Nat × List Path × Files) :=
  let files := provide files (keeper.rootProvisions files)
  if !isDir files keeper.base then .ok (0, [], files)
  else keeper.cleanupRoots dryRun files (keeper.order keeper.base)

/-- `_temp_file_candidates`: the sorted names that have a kind. -/
def tempFileCandidates (files : Files) : List Text :=
  if isDir files keeper.tmpdir then
    ((keeper.order keeper.tmpdir).filter fun entry =>
        (files (keeper.tmpdir ++ [entry])).isSome &&
          (tempFileKind entry).isSome).insertionSort (· ≤ ·)
  else []

def tempFiles (files : Files) : List (TempFileKind × Path) :=
  (keeper.tempFileCandidates files).filterMap fun entry =>
    if (fileText files (keeper.tmpdir ++ [entry])).isSome then
      (tempFileKind entry).map fun kind => (kind, keeper.tmpdir ++ [entry])
    else none

/-- The loop of `_cleanup_temp_files` over the files. -/
def cleanupFiles (dryRun : Bool) (files : Files) :
    List (TempFileKind × Path) →
    Except HousekeeperError (List (TempFileKind × Path))
  | [] => .ok []
  | (kind, path) :: rest =>
    if !keeper.isOldEnough files path then cleanupFiles dryRun files rest
    else if !dryRun && !keeper.removable path then
      .error (.unremovable path)
    else
      (cleanupFiles dryRun files rest).map (List.cons (kind, path))

def unlinkFiles (dryRun : Bool) (files : Files)
    (removed : List (TempFileKind × Path)) : Files :=
  fun path =>
    if !dryRun && removed.any fun file => decide (file.2 = path) then none
    else files path

/-- What `rotate_log` makes sure of. -/
def logProvisions (disk : Disk) (job : CollectorJob) : List Provision :=
  let parts := keeper.collectorParts job.name
  let dir := keeper.currentRoot ++ "collectors".toList :: parts
  match normalizeRotation job.name (some (.hash (collectorRotation job))) with
  | .ok (_ :: _) =>
    keeper.currentProvisions ++ .dir dir ::
      if (disk.logs parts).isSome then
        [.touch (dir ++ [".log.lock".toList])]
      else []
  | _ => []

/-- The jobs that `_rotate_collector_logs` counts. -/
def rotatedJobs : List CollectorJob :=
  keeper.collectors.filter fun job =>
    isTrue job.name && decide (collectorRotation job ≠ [])

/-- `rotate_log` of a job, on the log as it is. -/
def rotateJob (dryRun : Bool) (job : CollectorJob) (log : Option Text) :
    Except Text (Option RotationReport × Option Text) :=
  rotateLog keeper.thisYear job.name
    (some (.hash (collectorRotation job)))
    (keeper.nowEpoch.getD keeper.now) dryRun log

/-- The loop of `_rotate_collector_logs`. -/
def rotateLogs (dryRun : Bool) :
    Disk → List CollectorJob →
    Except HousekeeperError
      (List (List Text × RotationReport) × Disk)
  | disk, [] => .ok ([], disk)
  | disk, job :: rest =>
    let parts := keeper.collectorParts job.name
    let files := provide disk.files (keeper.logProvisions disk job)
    match keeper.rotateJob dryRun job (disk.logs parts) with
    | .error message => .error (.rotation message)
    | .ok (none, _) => rotateLogs dryRun { disk with files := files } rest
    | .ok (some report, log) =>
      (rotateLogs dryRun
        { disk with
          files := files
          logs := Function.update disk.logs parts log } rest).map
        fun after => ((parts, report) :: after.1, after.2)

/-- `_sweep_expired_sessions`: how many, and the sessions that are left. -/
def sweepSessions (dryRun : Bool) (removable : Text → Bool) :
    SessionRoot → Except HousekeeperError (Nat × SessionRoot)
  | [] => .ok (0, [])
  | (name, file) :: rest =>
    let keep :=
      (sweepSessions dryRun removable rest).map fun swept =>
        (swept.1, (name, file) :: swept.2)
    match parseableRecord name file with
    | none => keep
    | some record =>
      match iso8601ToEpoch keeper.thisYear .zero
          (recordText record "expires_at") with
      | .error message => .error (.session message)
      | .ok epoch =>
        if (keeper.now : Int) < epoch then keep
        else if dryRun then
          (sweepSessions dryRun removable rest).map fun swept =>
            (swept.1 + 1, (name, file) :: swept.2)
        else if removable name then
          (sweepSessions dryRun removable rest).map fun swept =>
            (swept.1 + 1, swept.2)
        else keep

/-- `sessions_root`. -/
def sessionsRoot : Path :=
  keeper.currentRoot ++ ["sessions".toList]

def sessionProvisions : List Provision :=
  keeper.currentProvisions ++ [.dir keeper.sessionsRoot]

def runAfterRoots (dryRun : Bool) (disk : Disk)
    (stateRoots : Nat) (roots : List Path) :
    Except HousekeeperError (Summary × Disk) :=
  let temp := keeper.tempFiles disk.files
  (keeper.cleanupFiles dryRun disk.files temp).bind fun removed =>
    (keeper.rotateLogs dryRun
        { disk with files := unlinkFiles dryRun disk.files removed }
        keeper.rotatedJobs).bind fun rotated =>
      (keeper.sweepSessions dryRun
          (fun name => keeper.removable (keeper.sessionsRoot ++ [name]))
          rotated.2.sessions).map fun swept =>
        ({ stateRoots := stateRoots
           ajaxTempFiles := temp.countP fun file => file.1 = .ajax
           resultTempFiles := temp.countP fun file => file.1 = .result
           collectorLogs := keeper.rotatedJobs.length
           expiredSessions := swept.1
           removed :=
             roots.map .stateRoot ++
               removed.map (fun file => .tempFile file.1 file.2) ++
               rotated.1.map fun report => .rotation report.1 report.2 },
          { rotated.2 with
            files := provide rotated.2.files keeper.sessionProvisions
            sessions := swept.2 })

/-- `run`. -/
def run (dryRun : Bool) (disk : Disk) :
    Except HousekeeperError (Summary × Disk) :=
  (keeper.cleanupStateRoots dryRun disk.files).bind fun cleaned =>
    keeper.runAfterRoots dryRun { disk with files := cleaned.2.2 }
      cleaned.1 cleaned.2.1

end Housekeeper

end DeveloperDashboard.Housekeeping
