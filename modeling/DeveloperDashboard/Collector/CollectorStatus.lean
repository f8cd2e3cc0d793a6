import DeveloperDashboard.Library.Transition
import DeveloperDashboard.Perl.Text

namespace DeveloperDashboard.Collector

open Library Perl

/-!
# The state files of a collector

A run of a collector ends in `write_result`, which replaces the output files
one by one and then edits `status.json` under the lock of `update_status`.
The runs of one collector are workers of their own, so their steps interleave.
-/

/-- What a run hands to `write_result`; its exit code is an integer. -/
structure RunResult where
  exitCode : Int
  stdout : Text
  stderr : Text
  startedAt : Option Text
  outputFormat : Option Text
  timedOut : Bool
  deriving DecidableEq

/-- The fields of `status.json`; a missing count is zero. -/
structure CollectorStatus where
  name : Text
  enabled : Bool
  running : Bool
  activeRuns : Nat
  schedule : Option Text
  lastStartedAt : Option Text
  lastRun : Option Text
  lastCompletedAt : Option Text
  lastExitCode : Option Int
  lastSuccess : Option Bool
  lastSuccessAt : Option Text
  lastFailureAt : Option Text
  outputFormat : Option Text
  timedOut : Bool
  stoppedAt : Option Text
  updatedAtEpoch : Nat
  deriving DecidableEq

def emptyStatus : CollectorStatus where
  name := []
  enabled := false
  running := false
  activeRuns := 0
  schedule := none
  lastStartedAt := none
  lastRun := none
  lastCompletedAt := none
  lastExitCode := none
  lastSuccess := none
  lastSuccessAt := none
  lastFailureAt := none
  outputFormat := none
  timedOut := false
  stoppedAt := none
  updatedAtEpoch := 0

/-- `update_status`: what replaces the status file. -/
def updateStatus (name : Text) (epoch : Nat)
    (callback : CollectorStatus → CollectorStatus)
    (status : Option CollectorStatus) :
    CollectorStatus :=
  { callback (status.getD emptyStatus) with
    name := name
    updatedAtEpoch := epoch }

def orElse (text other : Option Text) : Option Text :=
  if text.any isTrue then text else other

/-- The callback of `mark_run_started`, as `run_once` calls it. -/
def markRunStarted (startedAt schedule : Text) (existing : CollectorStatus) :
    CollectorStatus :=
  { existing with
    enabled := true
    schedule := some schedule
    running := true
    activeRuns := existing.activeRuns + 1
    lastStartedAt := orElse (some startedAt) existing.lastStartedAt }

/-- The `status_callback` of `mark_run_finished`: the count that is left. -/
def finishedRuns (previous : CollectorStatus) : Nat :=
  if 0 < previous.activeRuns then previous.activeRuns - 1
  else previous.activeRuns

/--
The callback of `write_result`.  Without a `status_callback` the count stays
and the collector counts as not running.
-/
def resultStatus (finishing : Bool) (timestamp : Text) (result : RunResult)
    (previous : CollectorStatus) :
    CollectorStatus :=
  let activeRuns :=
    if finishing then finishedRuns previous else previous.activeRuns
  { previous with
    enabled := true
    running := finishing && decide (0 < activeRuns)
    activeRuns := activeRuns
    lastRun := some timestamp
    lastCompletedAt := some timestamp
    lastExitCode := some result.exitCode
    lastSuccess := some (decide (result.exitCode = 0))
    lastSuccessAt :=
      if result.exitCode = 0 then some timestamp
      else orElse previous.lastSuccessAt none
    lastFailureAt :=
      if result.exitCode = 0 then orElse previous.lastFailureAt none
      else some timestamp
    lastStartedAt := orElse result.startedAt previous.lastStartedAt
    outputFormat := result.outputFormat
    timedOut := result.timedOut }

/-- The callback of `mark_stopped`. -/
def markStopped (stoppedAt : Text) (existing : CollectorStatus) :
    CollectorStatus :=
  { existing with
    running := false
    activeRuns := 0
    stoppedAt := some stoppedAt }

inductive RunPhase where
  | ready
  | started
  | wroteStdout
  | wroteStderr
  | wroteCombined
  | wroteLastRun (timestamp : Text)
  | returned
  deriving DecidableEq

/-- The steps of a run, with what they read from the clock. -/
inductive RunAction where
  | start (startedAt schedule : Text) (epoch : Nat)
  | replaceStdout
  | replaceStderr
  | replaceCombined
  | replaceLastRun (timestamp : Text)
  | update (epoch : Nat)
  deriving DecidableEq

/-- A step of a run, or a call of `mark_stopped`. -/
inductive CollectorEvent (Run : Type) where
  | run (run : Run) (action : RunAction)
  | stop (stoppedAt : Text) (epoch : Nat)
  deriving DecidableEq

structure CollectorState (Run : Type) where
  stdout : Option Text
  stderr : Option Text
  combined : Option Text
  lastRun : Option Text
  status : Option CollectorStatus
  phase : Run → RunPhase

structure CollectorCalls (Run : Type) where
  name : Text
  result : Run → RunResult
  /-- whether the call comes from `mark_run_finished` -/
  finishing : Run → Bool

section

variable {Run : Type} [DecidableEq Run]

def CollectorState.enter (state : CollectorState Run) (run : Run)
    (phase : RunPhase) :
    CollectorState Run :=
  { state with phase := Function.update state.phase run phase }

@[simp] theorem CollectorState.phase_enter_self (state : CollectorState Run)
    (run : Run) (phase : RunPhase) :
    (state.enter run phase).phase run = phase := by
  simp [CollectorState.enter]

theorem CollectorState.phase_enter_of_ne (state : CollectorState Run)
    {run other : Run} (different : other ≠ run) (phase : RunPhase) :
    (state.enter run phase).phase other = state.phase other := by
  simp [CollectorState.enter, different]

/-- A run that calls `mark_run_finished` has been started before. -/
def mayWrite (calls : CollectorCalls Run) (run : Run) :
    RunPhase → Bool
  | .ready => !calls.finishing run
  | .started => calls.finishing run
  | _ => false

def next? (calls : CollectorCalls Run) (state : CollectorState Run) :
    CollectorEvent Run →
    Option (CollectorEvent Run × CollectorState Run)
  | .stop stoppedAt epoch =>
    some (.stop stoppedAt epoch, { state with
        status :=
          if state.status.isSome then
            some (updateStatus calls.name epoch (markStopped stoppedAt)
              state.status)
          else none })
  | .run run action =>
    let result := calls.result run
    match action, state.phase run with
    | .start startedAt schedule epoch, .ready =>
      if calls.finishing run then
        some (.run run action, { state.enter run .started with
            status :=
              some (updateStatus calls.name epoch
                (markRunStarted startedAt schedule) state.status) })
      else none
    | .replaceStdout, phase =>
      if mayWrite calls run phase then
        some (.run run action, { state.enter run .wroteStdout with
            stdout := some result.stdout })
      else none
    | .replaceStderr, .wroteStdout =>
      some (.run run action, { state.enter run .wroteStderr with
          stderr := some result.stderr })
    | .replaceCombined, .wroteStderr =>
      some (.run run action, { state.enter run .wroteCombined with
          combined := some (result.stdout ++ result.stderr) })
    | .replaceLastRun timestamp, .wroteCombined =>
      some (.run run action, { state.enter run (.wroteLastRun timestamp) with
          lastRun := some (timestamp ++ ['\n']) })
    | .update epoch, .wroteLastRun timestamp =>
      some (.run run action, { state.enter run .returned with
          status :=
            some (updateStatus calls.name epoch
              (resultStatus (calls.finishing run) timestamp result)
              state.status) })
    | _, _ => none

def collectorSystem (calls : CollectorCalls Run)
    (status : Option CollectorStatus) :
    TransitionSystem (CollectorState Run) (CollectorEvent Run) :=
  TransitionSystem.ofNext
    (fun state => state.status = status ∧ ∀ run, state.phase run = .ready)
    (next? calls)

theorem next?_cases {calls : CollectorCalls Run}
    {state next : CollectorState Run} {input event : CollectorEvent Run}
    (taken : next? calls state input = some (event, next)) :
    event = input ∧
      ((∃ stoppedAt epoch, input = .stop stoppedAt epoch ∧
          next =
            { state with
              status :=
                if state.status.isSome then
                  some (updateStatus calls.name epoch
                    (markStopped stoppedAt) state.status)
                else none }) ∨
        (∃ run startedAt schedule epoch,
          input = .run run (.start startedAt schedule epoch) ∧
          state.phase run = .ready ∧ calls.finishing run = true ∧
          next =
            { state.enter run .started with
              status :=
                some (updateStatus calls.name epoch
                  (markRunStarted startedAt schedule) state.status) }) ∨
        (∃ run, input = .run run .replaceStdout ∧
          mayWrite calls run (state.phase run) = true ∧
          next =
            { state.enter run .wroteStdout with
              stdout := some (calls.result run).stdout }) ∨
        (∃ run, input = .run run .replaceStderr ∧
          state.phase run = .wroteStdout ∧
          next =
            { state.enter run .wroteStderr with
              stderr := some (calls.result run).stderr }) ∨
        (∃ run, input = .run run .replaceCombined ∧
          state.phase run = .wroteStderr ∧
          next =
            { state.enter run .wroteCombined with
              combined :=
                some ((calls.result run).stdout ++
                  (calls.result run).stderr) }) ∨
        (∃ run timestamp, input = .run run (.replaceLastRun timestamp) ∧
          state.phase run = .wroteCombined ∧
          next =
            { state.enter run (.wroteLastRun timestamp) with
              lastRun := some (timestamp ++ ['\n']) }) ∨
        (∃ run epoch timestamp, input = .run run (.update epoch) ∧
          state.phase run = .wroteLastRun timestamp ∧
          next =
            { state.enter run .returned with
              status :=
                some (updateStatus calls.name epoch
                  (resultStatus (calls.finishing run) timestamp
                    (calls.result run)) state.status) })) := by
  unfold next? at taken
  split at taken
  · next stoppedAt epoch =>
      obtain ⟨rfl, rfl⟩ := by simpa using taken
      exact ⟨rfl, .inl ⟨stoppedAt, epoch, rfl, rfl⟩⟩
  · next run action =>
      dsimp only at taken
      split at taken
      · next startedAt schedule epoch isReady =>
          split at taken
          · next isFinishing =>
              obtain ⟨rfl, rfl⟩ := by simpa using taken
              exact ⟨rfl, .inr (.inl ⟨run, startedAt, schedule, epoch, rfl,
                isReady, isFinishing, rfl⟩)⟩
          · cases taken
      · split at taken
        · next may =>
            obtain ⟨rfl, rfl⟩ := by simpa using taken
            exact ⟨rfl, .inr (.inr (.inl ⟨run, rfl, may, rfl⟩))⟩
        · cases taken
      · next isAt =>
          obtain ⟨rfl, rfl⟩ := by simpa using taken
          exact ⟨rfl, .inr (.inr (.inr (.inl ⟨run, rfl, isAt, rfl⟩)))⟩
      · next isAt =>
          obtain ⟨rfl, rfl⟩ := by simpa using taken
          exact
            ⟨rfl, .inr (.inr (.inr (.inr (.inl ⟨run, rfl, isAt, rfl⟩))))⟩
      · next timestamp isAt =>
          obtain ⟨rfl, rfl⟩ := by simpa using taken
          exact ⟨rfl, .inr (.inr (.inr (.inr (.inr (.inl
            ⟨run, timestamp, rfl, isAt, rfl⟩)))))⟩
      · next epoch timestamp isAt =>
          obtain ⟨rfl, rfl⟩ := by simpa using taken
          exact ⟨rfl, .inr (.inr (.inr (.inr (.inr (.inr
            ⟨run, epoch, timestamp, rfl, isAt, rfl⟩)))))⟩
      · cases taken

end

end DeveloperDashboard.Collector
