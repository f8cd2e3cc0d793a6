import DeveloperDashboard.Collector.CollectorStatus

namespace DeveloperDashboard.Collector

open Library Perl

/-!
# Counting the active runs

`active_runs` counts runs without naming them, and `mark_stopped` sets it back
to zero while the runs go on.  A run that finishes later is subtracted from
the runs of the restarted loop.
-/

section

variable {Run : Type} [DecidableEq Run]

def liveAfter (live : List Run) : CollectorEvent Run → List Run
  | .stop _ _ => []
  | .run run (.start _ _ _) => live ++ [run]
  | .run run (.update _) => live.erase run
  | .run _ _ => live

/-- The runs started after the latest stop that have not finished. -/
def liveRuns (trace : List (CollectorEvent Run)) : List Run :=
  trace.foldl liveAfter []

def recordedRuns (state : CollectorState Run) : Nat :=
  (state.status.getD emptyStatus).activeRuns

def recordedRunning (state : CollectorState Run) : Bool :=
  (state.status.getD emptyStatus).running

/-- The status tells how many runs are live, and whether one is. -/
structure Accounted
    (trace : List (CollectorEvent Run))
    (state : CollectorState Run) : Prop where
  count : recordedRuns state = (liveRuns trace).length
  running : recordedRunning state = true ↔ 0 < (liveRuns trace).length

/-- A run started before the latest stop finishes only when none is live. -/
def StragglersIdle (trace : List (CollectorEvent Run)) : Prop :=
  ∀ earlier run epoch later,
    trace = earlier ++ .run run (.update epoch) :: later →
    run ∉ liveRuns earlier →
    liveRuns earlier = []

/-- The calls of workers, which all come from `mark_run_finished`. -/
def workerCalls (name : Text) (result : Run → RunResult) :
    CollectorCalls Run where
  name := name
  result := result
  finishing := fun _ => true

@[simp] theorem liveRuns_concat (trace : List (CollectorEvent Run))
    (event : CollectorEvent Run) :
    liveRuns (trace ++ [event]) = liveAfter (liveRuns trace) event := by
  rw [liveRuns, List.foldl_append]
  rfl

variable {calls : CollectorCalls Run}
variable {trace : List (CollectorEvent Run)}
variable {state next : CollectorState Run} {event : CollectorEvent Run}

theorem finishedRuns_eq (previous : CollectorStatus) :
    finishedRuns previous = previous.activeRuns - 1 := by
  unfold finishedRuns
  split
  · rfl
  · omega

variable (state) in
theorem recorded_update (finishing : calls.finishing run = true)
    (epoch : Nat) (timestamp : Text) (phase : RunPhase) :
    let next : CollectorState Run :=
      { state.enter run phase with
        status :=
          some (updateStatus calls.name epoch
            (resultStatus (calls.finishing run) timestamp
              (calls.result run)) state.status) }
    recordedRuns next = recordedRuns state - 1 ∧
      recordedRunning next = decide (0 < recordedRuns state - 1) := by
  simp only [recordedRuns, recordedRunning, updateStatus, resultStatus,
    Option.getD_some, finishing, if_true, finishedRuns_eq, Bool.true_and]
  exact ⟨trivial, rfl⟩

/-- A step keeps the account unless it is a straggler's among live runs. -/
theorem Accounted.step {status : Option CollectorStatus}
    (accounted : Accounted trace state)
    (finishing : ∀ run, calls.finishing run = true)
    (step : (collectorSystem calls status).step state event next)
    (idle : ∀ run epoch, event = .run run (.update epoch) →
      run ∉ liveRuns trace → liveRuns trace = []) :
    Accounted (trace ++ [event]) next := by
  obtain ⟨input, taken⟩ := step
  obtain ⟨rfl, cases⟩ := next?_cases taken
  have count := accounted.count
  rcases cases with
    ⟨stoppedAt, epoch, rfl, rfl⟩ |
    ⟨run, startedAt, schedule, epoch, rfl, -, -, rfl⟩ |
    ⟨run, rfl, -, rfl⟩ | ⟨run, rfl, -, rfl⟩ | ⟨run, rfl, -, rfl⟩ |
    ⟨run, timestamp, rfl, -, rfl⟩ | ⟨run, epoch, timestamp, rfl, -, rfl⟩
  · have stopped :
        liveRuns (trace ++ [CollectorEvent.stop stoppedAt epoch]) =
          ([] : List Run) :=
      liveRuns_concat _ _
    constructor
    · rw [stopped, recordedRuns]
      cases state.status with
      | none => rfl
      | some status => rfl
    · rw [stopped, recordedRunning]
      cases state.status with
      | none => exact iff_of_false Bool.noConfusion (Nat.lt_irrefl 0)
      | some status => exact iff_of_false Bool.noConfusion (Nat.lt_irrefl 0)
  · constructor
    · rw [liveRuns_concat, liveAfter, List.length_append, ← count]
      rfl
    · rw [liveRuns_concat, liveAfter, List.length_append]
      exact iff_of_true rfl (Nat.succ_pos _)
  · exact ⟨by rw [liveRuns_concat]; exact accounted.count,
      by rw [liveRuns_concat]; exact accounted.running⟩
  · exact ⟨by rw [liveRuns_concat]; exact accounted.count,
      by rw [liveRuns_concat]; exact accounted.running⟩
  · exact ⟨by rw [liveRuns_concat]; exact accounted.count,
      by rw [liveRuns_concat]; exact accounted.running⟩
  · exact ⟨by rw [liveRuns_concat]; exact accounted.count,
      by rw [liveRuns_concat]; exact accounted.running⟩
  · obtain ⟨runs, running⟩ :=
      recorded_update state (finishing run) epoch timestamp .returned
    have left :
        ((liveRuns trace).erase run).length =
          (liveRuns trace).length - 1 := by
      by_cases isLive : run ∈ liveRuns trace
      · exact List.length_erase_of_mem isLive
      · rw [idle run epoch rfl isLive]
        rfl
    constructor
    · rw [liveRuns_concat, liveAfter, left, ← count]
      exact runs
    · rw [liveRuns_concat, liveAfter, left, ← count, running,
        decide_eq_true_eq]

theorem idle_of_accounted
    {status : Option CollectorStatus} {run : Run} {epoch : Nat}
    (before : Accounted trace state)
    (finishing : ∀ run, calls.finishing run = true)
    (step :
      (collectorSystem calls status).step state
        (.run run (.update epoch)) next)
    (after : Accounted (trace ++ [.run run (.update epoch)]) next)
    (straggler : run ∉ liveRuns trace) :
    liveRuns trace = [] := by
  obtain ⟨input, taken⟩ := step
  obtain ⟨rfl, cases⟩ := next?_cases taken
  rcases cases with
    ⟨_, _, isOther, -⟩ | ⟨_, _, _, _, isOther, -⟩ |
    ⟨_, isOther, -⟩ | ⟨_, isOther, -⟩ | ⟨_, isOther, -⟩ |
    ⟨_, _, isOther, -⟩ | ⟨other, at', timestamp, same, -, rfl⟩
  · cases isOther
  · cases isOther
  · cases isOther
  · cases isOther
  · cases isOther
  · cases isOther
  · obtain ⟨rfl, sameAction⟩ := CollectorEvent.run.inj same
    obtain rfl := RunAction.update.inj sameAction
    have runs :=
      (recorded_update state (finishing run) epoch timestamp
        .returned).1
    have count := after.count
    rw [liveRuns_concat, liveAfter, List.erase_of_not_mem straggler] at count
    have left :
        recordedRuns state - 1 = (liveRuns trace).length :=
      runs.symm.trans count
    rw [before.count] at left
    exact List.eq_nil_of_length_eq_zero (by omega)

theorem StragglersIdle.of_append {later : List (CollectorEvent Run)}
    (idle : StragglersIdle (trace ++ later)) :
    StragglersIdle trace := by
  intro earlier run epoch rest whole straggler
  refine idle earlier run epoch (rest ++ later) ?_ straggler
  rw [whole, List.append_assoc, List.cons_append]

theorem accounted_of_stragglersIdle {name : Text} {result : Run → RunResult}
    (execution :
      (collectorSystem (workerCalls name result) none).Execution trace
        state)
    (idle : StragglersIdle trace) :
    Accounted trace state := by
  induction execution with
  | @start state isInitial =>
    have missing : state.status = none := isInitial.1
    constructor
    · rw [recordedRuns, missing]
      rfl
    · rw [recordedRunning, missing]
      exact iff_of_false Bool.noConfusion (Nat.lt_irrefl 0)
  | @extend trace state next event earlier step ih =>
    refine (ih idle.of_append).step (fun _ => rfl) step
      ?_
    rintro run epoch rfl straggler
    exact idle trace run epoch [] rfl straggler

/--
The recorded runs are the live ones in every state of an execution if and only
if no run that was started before the latest stop finishes while runs started
after it are live.
-/
theorem active_runs_exact_iff {name : Text} {result : Run → RunResult}
    {trace : List (CollectorEvent Run)} {state : CollectorState Run}
    (execution :
      (collectorSystem (workerCalls name result) none).Execution trace
        state) :
    (∀ earlier later middle, trace = earlier ++ later →
        (collectorSystem (workerCalls name result) none).Execution earlier
          middle →
        Accounted earlier middle) ↔
      StragglersIdle trace := by
  constructor
  · intro accounted earlier run epoch later whole straggler
    rw [whole] at execution
    obtain ⟨before, after, reached, step, -⟩ := execution.split_cons
    refine idle_of_accounted
      (accounted earlier (.run run (.update epoch) :: later) before whole
        reached)
      (fun _ => rfl) step ?_ straggler
    refine accounted _ later after ?_ (reached.extend step)
    rw [whole, List.append_assoc, List.singleton_append]
  · intro idle earlier later middle whole reached
    rw [whole] at idle
    exact accounted_of_stragglersIdle reached idle.of_append

end

def quietResult : RunResult where
  exitCode := 0
  stdout := []
  stderr := []
  startedAt := none
  outputFormat := none
  timedOut := false

def wholeRun (run : Nat) : List (CollectorEvent Nat) :=
  [.run run .replaceStdout, .run run .replaceStderr,
    .run run .replaceCombined, .run run (.replaceLastRun []),
    .run run (.update 0)]

def startOf (run : Nat) : CollectorEvent Nat :=
  .run run (.start [] [] 0)

def freshCollector : CollectorState Nat where
  stdout := none
  stderr := none
  combined := none
  lastRun := none
  status := none
  phase := fun _ => .ready

theorem active_runs_exact_iff_single_run :
    ∃ state,
      (collectorSystem (workerCalls [] fun _ => quietResult) none).Execution
          (startOf 0 :: wholeRun 0) state ∧
        ((∀ earlier later middle,
            startOf 0 :: wholeRun 0 = earlier ++ later →
            (collectorSystem (workerCalls [] fun _ => quietResult)
              none).Execution earlier middle →
            Accounted earlier middle) ↔
          StragglersIdle (startOf 0 :: wholeRun 0)) := by
  obtain ⟨trace, state, execution, same⟩ :=
    TransitionSystem.Execution.of_runInputs
      (fun state : CollectorState Nat =>
        state.status = none ∧ ∀ run, state.phase run = .ready)
      (next? (workerCalls [] fun _ => quietResult)) freshCollector
      (startOf 0 :: wholeRun 0)
      (fun trace _ => decide (trace = startOf 0 :: wholeRun 0))
      ⟨rfl, fun _ => rfl⟩ (by decide)
  obtain rfl := of_decide_eq_true same
  exact ⟨state, execution, active_runs_exact_iff execution⟩

/--
A run is started, the collector is stopped and restarted, and the first run
finishes: the second one is live and the status shows none.
-/
theorem active_runs_lose_live_run :
    ∃ state,
      (collectorSystem (workerCalls [] fun _ => quietResult) none).Execution
          (startOf 0 :: .stop [] 0 :: startOf 1 :: wholeRun 0) state ∧
        liveRuns (startOf 0 :: .stop [] 0 :: startOf 1 :: wholeRun 0) =
          [1] ∧
        recordedRuns state = 0 ∧
        recordedRunning state = false := by
  obtain ⟨trace, state, execution, same⟩ :=
    TransitionSystem.Execution.of_runInputs
      (fun state : CollectorState Nat =>
        state.status = none ∧ ∀ run, state.phase run = .ready)
      (next? (workerCalls [] fun _ => quietResult)) freshCollector
      (startOf 0 :: .stop [] 0 :: startOf 1 :: wholeRun 0)
      (fun trace state =>
        decide (trace = startOf 0 :: .stop [] 0 :: startOf 1 :: wholeRun 0) &&
          decide (recordedRuns state = 0) && !recordedRunning state)
      ⟨rfl, fun _ => rfl⟩ (by decide)
  simp only [Bool.and_eq_true, decide_eq_true_eq, Bool.not_eq_true'] at same
  obtain ⟨⟨rfl, runs⟩, running⟩ := same
  exact ⟨state, execution, by decide, runs, running⟩

end DeveloperDashboard.Collector
