import DeveloperDashboard.Config.JsonValue
import Mathlib.Data.List.Sort
import DeveloperDashboard.Collector.CronExpression
import DeveloperDashboard.Library.Transition

namespace DeveloperDashboard.Collector

open Library Perl Config

/-!
# The state file of a collector loop

`_write_loop_state` reads the file, puts fields over what it read, and replaces
the file.  A loop and its workers all write so, without a lock.
-/

def jsonNumber (number : Nat) : JsonValue :=
  .number (toString number)

def overlayFields (record fields : ConfigHash) : ConfigHash :=
  fields.foldl (fun record field => record.store field.1 field.2) record

/-- What `_write_loop_state` makes of what it has read. -/
def mergeLoopState (name : String) (existing fields : ConfigHash) :
    ConfigHash :=
  (overlayFields existing fields).store "name" (.string name)

structure LoopSettings where
  pid : Nat
  name : String
  title : String
  command : JsonValue
  cwd : JsonValue
  interval : JsonValue
  /-- the `interval` of the job -/
  jobInterval : JsonValue
  /-- the interval of the job or its default, where the loop takes another -/
  configuredInterval : Option JsonValue
  schedule : String
  mode : String
  multiple : Nat

def workerFields (pids : List Nat) : ConfigHash :=
  [("active_runs", jsonNumber pids.length),
    ("active_worker_pids", .array (pids.map jsonNumber))]

def runningFields (settings : LoopSettings) (status : String)
    (pids : List Nat) (heartbeat : String) :
    ConfigHash :=
  [("pid", jsonNumber settings.pid), ("name", .string settings.name),
    ("process_name", .string settings.title),
    ("command", settings.command),
    ("cwd", settings.cwd),
    ("interval", settings.interval)] ++
  (match settings.configuredInterval with
    | some interval => [("configured_interval", interval)]
    | none => []) ++
  [("schedule", .string settings.schedule), ("status", .string status),
    ("mode", .string settings.mode),
    ("multiple", jsonNumber settings.multiple)] ++
  workerFields pids ++
  [("heartbeat_at", .string heartbeat)]

def failedStartFields (settings : LoopSettings) (pids : List Nat)
    (error heartbeat : String) :
    ConfigHash :=
  runningFields settings "error" pids heartbeat ++
    [("error", .string error)]

def workerErrorFields (settings : LoopSettings) (error heartbeat : String) :
    ConfigHash :=
  [("pid", jsonNumber settings.pid), ("name", .string settings.name),
    ("process_name", .string settings.title),
    ("command", settings.command),
    ("cwd", settings.cwd),
    ("interval", settings.jobInterval),
    ("schedule", .string settings.schedule),
    ("status", .string "error"),
    ("error", .string error),
    ("heartbeat_at", .string heartbeat)]

/-- What `_cron_due` writes. -/
def slotFields (slot : Text) : ConfigHash :=
  [("last_cron_slot", .string (String.ofList slot))]

/-- `$state->{last_cron_slot} || ''`. -/
def lastCronSlot (record : ConfigHash) : Text :=
  match recordText record "last_cron_slot" with
  | some slot => if isTrue slot then slot else []
  | none => []

theorem lookup_overlayFields {fields : ConfigHash} {key : String}
    (absent : key ∉ fields.map Prod.fst) (record : ConfigHash) :
    (overlayFields record fields).lookup key = record.lookup key := by
  unfold overlayFields
  induction fields generalizing record with
  | nil => rfl
  | cons field rest ih =>
    rw [List.map_cons, List.mem_cons, not_or] at absent
    rw [List.foldl_cons, ih absent.2]
    exact Entries.lookup_store_of_ne record (Ne.symm absent.1) field.2

theorem lastCronSlot_mergeLoopState {fields : ConfigHash}
    (absent : "last_cron_slot" ∉ fields.map Prod.fst)
    (name : String) (existing : ConfigHash) :
    lastCronSlot (mergeLoopState name existing fields) =
      lastCronSlot existing := by
  have same :
      (mergeLoopState name existing fields).lookup "last_cron_slot" =
        existing.lookup "last_cron_slot" := by
    rw [mergeLoopState, Entries.lookup_store_of_ne _ (by decide),
      lookup_overlayFields absent]
  unfold lastCronSlot recordText
  rw [same]

theorem lastCronSlot_mergeLoopState_slot
    {slot : Text} (true_ : Perl.isTrue slot = true)
    (name : String) (existing : ConfigHash) :
    lastCronSlot (mergeLoopState name existing (slotFields slot)) =
      slot := by
  have written :
      (mergeLoopState name existing (slotFields slot)).lookup
          "last_cron_slot" =
        some (.string (String.ofList slot)) := by
    rw [mergeLoopState, Entries.lookup_store_of_ne _ (by decide)]
    exact Entries.lookup_store_self _ _ _
  unfold lastCronSlot recordText
  rw [written, Option.bind_some, scalarText, String.toList_ofList]
  exact if_pos true_

theorem slot_notMem_runningFields
    (settings : LoopSettings) (status : String) (pids : List Nat)
    (heartbeat : String) :
    "last_cron_slot" ∉
      (runningFields settings status pids heartbeat).map Prod.fst := by
  unfold runningFields workerFields
  cases settings.configuredInterval with
  | none => simp
  | some interval => simp

theorem slot_notMem_failedStartFields
    (settings : LoopSettings) (pids : List Nat) (error heartbeat : String) :
    "last_cron_slot" ∉
      (failedStartFields settings pids error heartbeat).map Prod.fst := by
  unfold failedStartFields
  rw [List.map_append, List.mem_append, not_or]
  exact ⟨slot_notMem_runningFields _ _ _ _, by simp⟩

/-!
# The loop of a cron collector

The steps of `_run_loop_child` and of its workers, cut at every read and every
rename of the state file.
-/

inductive AfterWrite where
  | decide
  | run (slot : Text)
  | sleep
  deriving DecidableEq

inductive LoopPhase where
  | sleeping
  | toWrite (fields : ConfigHash) (next : AfterWrite)
  | writing (existing fields : ConfigHash) (next : AfterWrite)
  | deciding
  /-- in a matching slot, about to read the last one -/
  | comparing (slot : Text)
  | due (slot : Text)

inductive CronWorkerPhase where
  | running
  | toReport (fields : ConfigHash)
  | reporting (existing fields : ConfigHash)
  | exited

/-- The state file, the loop and its workers by their pids. -/
structure CronLoop where
  file : Option ConfigHash
  phase : LoopPhase
  workers : Entries Nat CronWorkerPhase
  /-- the slots that the loop has written, the latest first -/
  marked : List Text

/-- A cron collector; `cron` is missing for a malformed expression. -/
structure CronCollector where
  settings : LoopSettings
  cron : Option CronFields

inductive CronAction where
  | tick (heartbeat : String)
  | read
  | rename
  | readClock (now : LocalTime)
  | compare
  | start (pid : Nat)
  | failStart (error heartbeat : String)
  | pass
  | reap (pid : Nat)
  | finish (pid : Nat)
  | fail (pid : Nat) (error heartbeat : String)
  | workerRead (pid : Nat)
  | workerRename (pid : Nat)

inductive CronEvent where
  | quiet
  | inSlot (slot : Text)
  | found (slot : Text)
  | skipped (slot : Text) (active : Nat)
  /-- a due tick finds no room for another worker -/
  | busy (slot : Text) (active : Nat)
  | started (slot : Text) (pid : Nat)
  | failed (slot : Text)
  | replaced (pid : Nat)
  deriving DecidableEq

/-- `loop_state`, or an empty record. -/
def CronLoop.state (loop : CronLoop) : ConfigHash :=
  loop.file.getD []

/-- The keys of `%active_workers`, in order. -/
def CronLoop.activePids (loop : CronLoop) : List Nat :=
  (loop.workers.map Prod.fst).insertionSort (· ≤ ·)

def CronWorkerPhase.isExited : CronWorkerPhase → Bool
  | .exited => true
  | _ => false

/-- `_reap_finished_loop_workers`. -/
def CronLoop.reapFinished (loop : CronLoop) : CronLoop :=
  { loop with workers := loop.workers.filter fun worker =>
      !worker.2.isExited }

def AfterWrite.phase : AfterWrite → LoopPhase
  | .decide => .deciding
  | .run slot => .due slot
  | .sleep => .sleeping

def AfterWrite.slots : AfterWrite → List Text
  | .run slot => [slot]
  | _ => []

section

variable (collector : CronCollector)

def nextCron (loop : CronLoop) : CronAction → Option (CronEvent × CronLoop)
  | .tick heartbeat =>
    match loop.phase with
    | .sleeping =>
      let reaped := loop.reapFinished
      let fields :=
        runningFields collector.settings "running" reaped.activePids
          heartbeat
      some (.quiet, { reaped with phase := .toWrite fields .decide })
    | _ => none
  | .read =>
    match loop.phase with
    | .toWrite fields next =>
      some (.quiet, { loop with phase := .writing loop.state fields next })
    | _ => none
  | .rename =>
    match loop.phase with
    | .writing existing fields next =>
      some (.quiet, { loop with
          file :=
            some
              (mergeLoopState collector.settings.name existing fields)
          phase := next.phase
          marked := next.slots ++ loop.marked })
    | _ => none
  | .readClock now =>
    match loop.phase with
    | .deciding =>
      if collector.cron.any (matchesMinute · now) then
        some (.inSlot (slotStamp now),
          { loop with phase := .comparing (slotStamp now) })
      else some (.quiet, { loop with phase := .sleeping })
    | _ => none
  | .compare =>
    match loop.phase with
    | .comparing slot =>
      if lastCronSlot loop.state = slot then
        some (.skipped slot loop.workers.length,
          { loop with phase := .sleeping })
      else
        some (.found slot, { loop with
            phase := .toWrite (slotFields slot) (.run slot) })
    | _ => none
  | .start pid =>
    match loop.phase with
    | .due slot =>
      if loop.workers.length < collector.settings.multiple ∧
          loop.workers.lookup pid = none then
        let started :=
          { loop with workers := loop.workers ++ [(pid, CronWorkerPhase.running)] }
        some (.started slot pid, { started with
            phase :=
              .toWrite (workerFields started.activePids) .sleep })
      else none
    | _ => none
  | .failStart error heartbeat =>
    match loop.phase with
    | .due slot =>
      if loop.workers.length < collector.settings.multiple then
        let fields :=
          failedStartFields collector.settings loop.activePids error
            heartbeat
        some (.failed slot, { loop with phase := .toWrite fields .sleep })
      else none
    | _ => none
  | .pass =>
    match loop.phase with
    | .due slot =>
      if loop.workers.length < collector.settings.multiple then none
      else
        some (.busy slot loop.workers.length,
          { loop with phase := .sleeping })
    | _ => none
  | .reap pid =>
    match loop.workers.lookup pid with
    | some .exited =>
      some (.quiet, { loop with workers := loop.workers.remove pid })
    | _ => none
  | .finish pid =>
    match loop.workers.lookup pid with
    | some .running =>
      some (.quiet, { loop with workers := loop.workers.store pid .exited })
    | _ => none
  | .fail pid error heartbeat =>
    match loop.workers.lookup pid with
    | some .running =>
      let fields :=
        workerErrorFields collector.settings error heartbeat
      some (.quiet, { loop with
          workers := loop.workers.store pid (.toReport fields) })
    | _ => none
  | .workerRead pid =>
    match loop.workers.lookup pid with
    | some (.toReport fields) =>
      some (.quiet, { loop with
          workers :=
            loop.workers.store pid (.reporting loop.state fields) })
    | _ => none
  | .workerRename pid =>
    match loop.workers.lookup pid with
    | some (.reporting existing fields) =>
      some (.replaced pid, { loop with
          file :=
            some
              (mergeLoopState collector.settings.name existing fields)
          workers := loop.workers.store pid .exited })
    | _ => none

def startedLoop (file : Option ConfigHash) : CronLoop where
  file := file
  phase := .sleeping
  workers := []
  marked :=
    if lastCronSlot (file.getD []) = [] then []
    else [lastCronSlot (file.getD [])]

def cronSystem (file : Option ConfigHash) :
    TransitionSystem CronLoop CronEvent :=
  .ofNext (· = startedLoop file) (nextCron collector)

end

end DeveloperDashboard.Collector
