import DeveloperDashboard.Collector.CollectorStatus

namespace DeveloperDashboard.Collector

open Library Perl

/-!
# What the files of a collector show

`write_result` replaces four files without a lock and edits the status under
one.  Each file is that of the call which came to it last, and so is the
status; calls that overlap may come last to different ones.
-/

section

variable {Run : Type} [DecidableEq Run]

/-- The call that took a step of some kind last. -/
def lastBy (kind : RunAction → Bool) (trace : List (CollectorEvent Run)) :
    Option Run :=
  trace.foldl
    (fun last event =>
      match event with
      | .run run action => if kind action then some run else last
      | .stop _ _ => last)
    none

/-- A step that replaces `last_run`. -/
def isReplaceLastRun : RunAction → Bool
  | .replaceLastRun _ => true
  | _ => false

def isUpdate : RunAction → Bool
  | .update _ => true
  | _ => false

omit [DecidableEq Run] in
@[simp] theorem lastBy_concat_run (kind : RunAction → Bool)
    (trace : List (CollectorEvent Run)) (run : Run) (action : RunAction) :
    lastBy kind (trace ++ [.run run action]) =
      if kind action then some run else lastBy kind trace := by
  rw [lastBy, List.foldl_append]
  rfl

omit [DecidableEq Run] in
@[simp] theorem lastBy_concat_stop (kind : RunAction → Bool)
    (trace : List (CollectorEvent Run)) (stoppedAt : Text) (epoch : Nat) :
    lastBy kind (trace ++ [.stop stoppedAt epoch]) = lastBy kind trace := by
  rw [lastBy, List.foldl_append]
  rfl

structure ShowsResult
    (result : RunResult) (timestamp : Text)
    (status : CollectorStatus) : Prop where
  lastRun : status.lastRun = some timestamp
  lastExitCode : status.lastExitCode = some result.exitCode
  timedOut : status.timedOut = result.timedOut

structure EachFromLast
    (calls : CollectorCalls Run) (trace : List (CollectorEvent Run))
    (state : CollectorState Run) : Prop where
  stdout : ∀ run, lastBy (· = .replaceStdout) trace = some run →
    state.stdout = some (calls.result run).stdout
  stderr : ∀ run, lastBy (· = .replaceStderr) trace = some run →
    state.stderr = some (calls.result run).stderr
  combined : ∀ run, lastBy (· = .replaceCombined) trace = some run →
    state.combined =
      some ((calls.result run).stdout ++ (calls.result run).stderr)
  lastRun : ∀ run, lastBy isReplaceLastRun trace = some run →
    ∃ timestamp, .run run (.replaceLastRun timestamp) ∈ trace ∧
      state.lastRun = some (timestamp ++ ['\n'])
  status : ∀ run, lastBy isUpdate trace = some run →
    ∃ timestamp status, .run run (.replaceLastRun timestamp) ∈ trace ∧
      state.status = some status ∧
        ShowsResult (calls.result run) timestamp status

structure FromCall
    (calls : CollectorCalls Run) (run : Run)
    (state : CollectorState Run) : Prop where
  stdout : state.stdout = some (calls.result run).stdout
  stderr : state.stderr = some (calls.result run).stderr
  combined :
    state.combined =
      some ((calls.result run).stdout ++ (calls.result run).stderr)
  lastRun :
    ∃ timestamp status, state.lastRun = some (timestamp ++ ['\n']) ∧
      state.status = some status ∧
        ShowsResult (calls.result run) timestamp status

variable {calls : CollectorCalls Run}
variable {trace : List (CollectorEvent Run)}
variable {state next : CollectorState Run} {event : CollectorEvent Run}
variable {status : Option CollectorStatus}

theorem ShowsResult.keep {result : RunResult} {timestamp : Text}
    {before after : CollectorStatus}
    (shows' : ShowsResult result timestamp before)
    (lastRun : after.lastRun = before.lastRun)
    (lastExitCode : after.lastExitCode = before.lastExitCode)
    (timedOut : after.timedOut = before.timedOut) :
    ShowsResult result timestamp after :=
  ⟨lastRun.trans shows'.lastRun, lastExitCode.trans shows'.lastExitCode,
    timedOut.trans shows'.timedOut⟩

theorem ShowsResult.stop
    {result : RunResult} {timestamp : Text} {before : CollectorStatus}
    (shows' : ShowsResult result timestamp before)
    (name stoppedAt : Text) (epoch : Nat) :
    ShowsResult result timestamp
      (updateStatus name epoch (markStopped stoppedAt) (some before)) :=
  shows'.keep rfl rfl rfl

theorem ShowsResult.start
    {result : RunResult} {timestamp : Text} {before : CollectorStatus}
    (shows' : ShowsResult result timestamp before)
    (name startedAt schedule : Text) (epoch : Nat) :
    ShowsResult result timestamp
      (updateStatus name epoch (markRunStarted startedAt schedule)
        (some before)) :=
  shows'.keep rfl rfl rfl

theorem showsResult_update
    (name : Text) (epoch : Nat) (finishing : Bool) (timestamp : Text)
    (result : RunResult) (before : Option CollectorStatus) :
    ShowsResult result timestamp
      (updateStatus name epoch (resultStatus finishing timestamp result)
        before) :=
  ⟨rfl, rfl, rfl⟩

/-- A call about to update the status has replaced `last_run`. -/
def TimestampsTaken (trace : List (CollectorEvent Run))
    (state : CollectorState Run) : Prop :=
  ∀ run timestamp, state.phase run = .wroteLastRun timestamp →
    .run run (.replaceLastRun timestamp) ∈ trace

theorem TimestampsTaken.step (taken : TimestampsTaken trace state)
    (step : (collectorSystem calls status).step state event next) :
    TimestampsTaken (trace ++ [event]) next := by
  obtain ⟨input, advance⟩ := step
  obtain ⟨rfl, cases⟩ := next?_cases advance
  intro other timestamp isAt
  have old (same : next.phase other = state.phase other) :
      .run other (.replaceLastRun timestamp) ∈ trace ++ [event] := by
    rw [same] at isAt
    exact List.mem_append_left _ (taken other timestamp isAt)
  have moved {run : Run} {phase : RunPhase}
      (entered : next.phase = (state.enter run phase).phase)
      (apart : phase ≠ .wroteLastRun timestamp) :
      .run other (.replaceLastRun timestamp) ∈ trace ++ [event] := by
    by_cases same : other = run
    · subst same
      rw [entered, CollectorState.phase_enter_self] at isAt
      exact absurd isAt apart
    · refine old ?_
      rw [entered, CollectorState.phase_enter_of_ne state same]
  rcases cases with
    ⟨stoppedAt, epoch, rfl, rfl⟩ |
    ⟨run, startedAt, schedule, epoch, rfl, -, -, rfl⟩ |
    ⟨run, rfl, -, rfl⟩ | ⟨run, rfl, -, rfl⟩ | ⟨run, rfl, -, rfl⟩ |
    ⟨run, newest, rfl, -, rfl⟩ | ⟨run, epoch, newest, rfl, -, rfl⟩
  · exact old rfl
  · exact moved rfl (by rintro ⟨⟩)
  · exact moved rfl (by rintro ⟨⟩)
  · exact moved rfl (by rintro ⟨⟩)
  · exact moved rfl (by rintro ⟨⟩)
  · by_cases same : newest = timestamp
    · subst same
      by_cases isRun : other = run
      · subst isRun
        exact List.mem_append_right _ List.mem_cons_self
      · exact old (CollectorState.phase_enter_of_ne state isRun _)
    · refine moved rfl ?_
      rintro ⟨⟩
      exact same rfl
  · exact moved rfl (by rintro ⟨⟩)

structure FileEffects
    (calls : CollectorCalls Run) (event : CollectorEvent Run)
    (state next : CollectorState Run) : Prop where
  stdout : next.stdout =
    match event with
    | .run run .replaceStdout => some (calls.result run).stdout
    | _ => state.stdout
  stderr : next.stderr =
    match event with
    | .run run .replaceStderr => some (calls.result run).stderr
    | _ => state.stderr
  combined : next.combined =
    match event with
    | .run run .replaceCombined =>
      some ((calls.result run).stdout ++ (calls.result run).stderr)
    | _ => state.combined
  lastRun : next.lastRun =
    match event with
    | .run _ (.replaceLastRun timestamp) => some (timestamp ++ ['\n'])
    | _ => state.lastRun
  status :
    match event with
    | .run run (.update _) =>
      ∃ timestamp status,
        state.phase run = .wroteLastRun timestamp ∧
          next.status = some status ∧
            ShowsResult (calls.result run) timestamp status
    | _ =>
      ∀ result timestamp status,
        state.status = some status →
        ShowsResult result timestamp status →
        ∃ status, next.status = some status ∧
          ShowsResult result timestamp status

theorem fileEffects_of_step
    (step : (collectorSystem calls status).step state event next) :
    FileEffects calls event state next := by
  obtain ⟨input, advance⟩ := step
  obtain ⟨rfl, cases⟩ := next?_cases advance
  rcases cases with
    ⟨stoppedAt, epoch, rfl, rfl⟩ |
    ⟨run, startedAt, schedule, epoch, rfl, -, -, rfl⟩ |
    ⟨run, rfl, -, rfl⟩ | ⟨run, rfl, -, rfl⟩ | ⟨run, rfl, -, rfl⟩ |
    ⟨run, timestamp, rfl, -, rfl⟩ |
    ⟨run, epoch, timestamp, rfl, isAt, rfl⟩
  · refine ⟨rfl, rfl, rfl, rfl, fun result timestamp before file shown => ?_⟩
    rw [file]
    exact ⟨_, rfl, shown.stop calls.name stoppedAt epoch⟩
  · refine ⟨rfl, rfl, rfl, rfl, fun result timestamp before file shown => ?_⟩
    rw [file]
    exact ⟨_, rfl, shown.start calls.name startedAt schedule epoch⟩
  · exact ⟨rfl, rfl, rfl, rfl, fun _ _ status file shown =>
      ⟨status, file, shown⟩⟩
  · exact ⟨rfl, rfl, rfl, rfl, fun _ _ status file shown =>
      ⟨status, file, shown⟩⟩
  · exact ⟨rfl, rfl, rfl, rfl, fun _ _ status file shown =>
      ⟨status, file, shown⟩⟩
  · exact ⟨rfl, rfl, rfl, rfl, fun _ _ status file shown =>
      ⟨status, file, shown⟩⟩
  · exact ⟨rfl, rfl, rfl, rfl, timestamp, _, isAt, rfl,
      showsResult_update _ _ _ _ _ _⟩

omit [DecidableEq Run] in
theorem lastBy_of_other
    {kind : RunAction → Bool} {run other : Run} {action : RunAction}
    (isOther : kind action = false)
    (last : lastBy kind (trace ++ [.run other action]) = some run) :
    lastBy kind trace = some run := by
  rw [lastBy_concat_run, isOther] at last
  exact last

omit [DecidableEq Run] in
theorem lastBy_of_same
    {kind : RunAction → Bool} {run other : Run} {action : RunAction}
    (isSame : kind action = true)
    (last : lastBy kind (trace ++ [.run other action]) = some run) :
    other = run := by
  rw [lastBy_concat_run, isSame] at last
  exact Option.some.inj last

/-- Each step leaves each file to the call that came to it last. -/
theorem EachFromLast.step (each : EachFromLast calls trace state)
    (taken : TimestampsTaken trace state)
    (step : (collectorSystem calls status).step state event next) :
    EachFromLast calls (trace ++ [event]) next := by
  have effects := fileEffects_of_step step
  cases event with
  | stop stoppedAt epoch =>
    have before (kind : RunAction → Bool) :=
      lastBy_concat_stop kind trace stoppedAt epoch
    refine ⟨fun run last => ?_, fun run last => ?_, fun run last => ?_,
      fun run last => ?_, fun run last => ?_⟩
    · rw [effects.stdout]
      exact each.stdout run (before _ ▸ last)
    · rw [effects.stderr]
      exact each.stderr run (before _ ▸ last)
    · rw [effects.combined]
      exact each.combined run (before _ ▸ last)
    · obtain ⟨timestamp, isIn, file⟩ :=
        each.lastRun run (before _ ▸ last)
      rw [effects.lastRun]
      exact ⟨timestamp, List.mem_append_left _ isIn, file⟩
    · obtain ⟨timestamp, status, isIn, file, shown⟩ :=
        each.status run (before _ ▸ last)
      obtain ⟨kept, isKept, keptShown⟩ :=
        effects.status _ _ status file shown
      exact ⟨timestamp, kept, List.mem_append_left _ isIn, isKept, keptShown⟩
  | run writer action =>
    constructor
    · intro run last
      rw [effects.stdout]
      cases action with
      | replaceStdout =>
        obtain rfl := lastBy_of_same rfl last
        rfl
      | _ => exact each.stdout run (lastBy_of_other rfl last)
    · intro run last
      rw [effects.stderr]
      cases action with
      | replaceStderr =>
        obtain rfl := lastBy_of_same rfl last
        rfl
      | _ => exact each.stderr run (lastBy_of_other rfl last)
    · intro run last
      rw [effects.combined]
      cases action with
      | replaceCombined =>
        obtain rfl := lastBy_of_same rfl last
        rfl
      | _ => exact each.combined run (lastBy_of_other rfl last)
    · intro run last
      rw [effects.lastRun]
      cases action with
      | replaceLastRun timestamp =>
        obtain rfl := lastBy_of_same rfl last
        exact ⟨timestamp, List.mem_append_right _ List.mem_cons_self, rfl⟩
      | _ =>
        obtain ⟨timestamp, isIn, file⟩ :=
          each.lastRun run (lastBy_of_other rfl last)
        exact ⟨timestamp, List.mem_append_left _ isIn, file⟩
    · intro run last
      have statusEffect := effects.status
      cases action with
      | update epoch =>
        obtain rfl := lastBy_of_same rfl last
        obtain ⟨timestamp, status, isAt, file, shown⟩ := statusEffect
        exact ⟨timestamp, status,
          List.mem_append_left _ (taken writer timestamp isAt), file,
          shown⟩
      | _ =>
        obtain ⟨timestamp, status, isIn, file, shown⟩ :=
          each.status run (lastBy_of_other rfl last)
        obtain ⟨kept, isKept, keptShown⟩ :=
          statusEffect _ _ status file shown
        exact ⟨timestamp, kept, List.mem_append_left _ isIn, isKept,
          keptShown⟩

theorem eachFromLast_of_execution
    (execution : (collectorSystem calls status).Execution trace state) :
    EachFromLast calls trace state := by
  refine (execution.invariant
    (fun trace state =>
      EachFromLast calls trace state ∧ TimestampsTaken trace state)
    ?_ ?_).1
  · rintro state ⟨-, ready⟩
    refine ⟨⟨?_, ?_, ?_, ?_, ?_⟩, ?_⟩
    · exact fun _ last => absurd last (Option.some_ne_none _).symm
    · exact fun _ last => absurd last (Option.some_ne_none _).symm
    · exact fun _ last => absurd last (Option.some_ne_none _).symm
    · exact fun _ last => absurd last (Option.some_ne_none _).symm
    · exact fun _ last => absurd last (Option.some_ne_none _).symm
    · intro run timestamp isAt
      rw [ready run] at isAt
      cases isAt
  · rintro trace state event next ⟨each, taken⟩ step
    exact ⟨each.step taken step, taken.step step⟩

def Written (calls : CollectorCalls Run) (run : Run)
    (state : CollectorState Run) : RunPhase → Prop
  | .ready => False
  | .started => False
  | .wroteStdout => state.stdout = some (calls.result run).stdout
  | .wroteStderr =>
    state.stdout = some (calls.result run).stdout ∧
      state.stderr = some (calls.result run).stderr
  | .wroteCombined =>
    state.stdout = some (calls.result run).stdout ∧
      state.stderr = some (calls.result run).stderr ∧
      state.combined =
        some ((calls.result run).stdout ++ (calls.result run).stderr)
  | .wroteLastRun timestamp =>
    state.stdout = some (calls.result run).stdout ∧
      state.stderr = some (calls.result run).stderr ∧
      state.combined =
        some ((calls.result run).stdout ++ (calls.result run).stderr) ∧
      state.lastRun = some (timestamp ++ ['\n'])
  | .returned => FromCall calls run state

def QuietBut (run : Run) : CollectorEvent Run → Prop
  | .stop _ _ => True
  | .run _ (.start _ _ _) => True
  | .run other _ => other = run

omit [DecidableEq Run] in
/-- Files that stay are still those of the call. -/
theorem Written.keep {run : Run} {phase : RunPhase}
    (written : Written calls run state phase)
    (stdout : next.stdout = state.stdout)
    (stderr : next.stderr = state.stderr)
    (combined : next.combined = state.combined)
    (lastRun : next.lastRun = state.lastRun)
    (sameStatus : ∀ result timestamp status,
      state.status = some status → ShowsResult result timestamp status →
      ∃ status, next.status = some status ∧
        ShowsResult result timestamp status) :
    Written calls run next phase := by
  cases phase with
  | ready => exact written
  | started => exact written
  | wroteStdout => exact stdout.trans written
  | wroteStderr => exact ⟨stdout.trans written.1, stderr.trans written.2⟩
  | wroteCombined =>
    obtain ⟨first, second, third⟩ := written
    exact ⟨stdout.trans first, stderr.trans second, combined.trans third⟩
  | wroteLastRun timestamp =>
    obtain ⟨first, second, third, fourth⟩ := written
    exact ⟨stdout.trans first, stderr.trans second, combined.trans third,
      lastRun.trans fourth⟩
  | returned =>
    obtain ⟨timestamp, status, file, before, shown⟩ := written.lastRun
    obtain ⟨kept, isKept, keptShown⟩ :=
      sameStatus _ _ status before shown
    exact ⟨stdout.trans written.stdout, stderr.trans written.stderr,
      combined.trans written.combined, timestamp, kept,
      lastRun.trans file, isKept, keptShown⟩

theorem Written.step {run : Run}
    (written : Written calls run state (state.phase run))
    (step : (collectorSystem calls status).step state event next)
    (quiet : QuietBut run event) :
    Written calls run next (next.phase run) := by
  obtain ⟨input, advance⟩ := step
  obtain ⟨rfl, cases⟩ := next?_cases advance
  rcases cases with
    ⟨stoppedAt, epoch, rfl, rfl⟩ |
    ⟨other, startedAt, schedule, epoch, rfl, isReady, -, rfl⟩ |
    ⟨other, rfl, may, rfl⟩ | ⟨other, rfl, isAt, rfl⟩ |
    ⟨other, rfl, isAt, rfl⟩ | ⟨other, timestamp, rfl, isAt, rfl⟩ |
    ⟨other, epoch, timestamp, rfl, isAt, rfl⟩
  · refine written.keep rfl rfl rfl rfl
      fun result timestamp before file shown => ?_
    rw [file]
    exact ⟨_, rfl, shown.stop calls.name stoppedAt epoch⟩
  · have different : run ≠ other := by
      rintro rfl
      rw [isReady] at written
      exact written
    have samePhase :
        (state.enter other .started).phase run = state.phase run :=
      CollectorState.phase_enter_of_ne state different .started
    dsimp only
    rw [samePhase]
    refine written.keep rfl rfl rfl rfl
      fun result timestamp before file shown => ?_
    rw [file]
    exact ⟨_, rfl, shown.start calls.name startedAt schedule epoch⟩
  · obtain rfl : other = run := quiet
    cases isAt : state.phase other with
    | ready =>
      rw [isAt] at written
      exact written.elim
    | started =>
      rw [isAt] at written
      exact written.elim
    | _ =>
      rw [isAt] at may
      cases may
  · obtain rfl : other = run := quiet
    rw [isAt] at written
    dsimp only
    rw [CollectorState.phase_enter_self]
    exact ⟨written, rfl⟩
  · obtain rfl : other = run := quiet
    rw [isAt] at written
    dsimp only
    rw [CollectorState.phase_enter_self]
    exact ⟨written.1, written.2, rfl⟩
  · obtain rfl : other = run := quiet
    rw [isAt] at written
    dsimp only
    rw [CollectorState.phase_enter_self]
    exact ⟨written.1, written.2.1, written.2.2, rfl⟩
  · obtain rfl : other = run := quiet
    rw [isAt] at written
    dsimp only
    rw [CollectorState.phase_enter_self]
    obtain ⟨stdout, stderr, combined, lastRun⟩ := written
    exact ⟨stdout, stderr, combined, timestamp, _, lastRun, rfl,
      showsResult_update _ _ _ _ _ _⟩

/-- A call that writes alone from its first file on leaves its result. -/
theorem written_of_quiet
    {earlier later : List (CollectorEvent Run)} {run : Run}
    (execution :
      (collectorSystem calls status).Execution
        (earlier ++ .run run .replaceStdout :: later) state)
    (quiet : ∀ event ∈ later, QuietBut run event) :
    Written calls run state (state.phase run) := by
  obtain ⟨before, first, -, step, rest⟩ := execution.split_cons
  have start : Written calls run first (first.phase run) := by
    obtain ⟨input, advance⟩ := step
    obtain ⟨rfl, cases⟩ := next?_cases advance
    rcases cases with
      ⟨_, _, isOther, -⟩ | ⟨_, _, _, _, isOther, -⟩ |
      ⟨other, same, -, rfl⟩ | ⟨_, isOther, -⟩ | ⟨_, isOther, -⟩ |
      ⟨_, _, isOther, -⟩ | ⟨_, _, _, isOther, -⟩
    · cases isOther
    · cases isOther
    · cases same
      dsimp only
      rw [CollectorState.phase_enter_self]
      rfl
    · cases isOther
    · cases isOther
    · cases isOther
    · cases isOther
  clear execution step
  induction rest with
  | refl => exact start
  | extend _ step ih =>
    refine (ih ?_).step step ?_
    · exact fun event isIn => quiet event (List.mem_append_left _ isIn)
    · exact quiet _ (List.mem_append_right _ List.mem_cons_self)

/--
Each file, and the status, is that of the call that came to it last; and all
are those of one call when no other call writes after its first file.
-/
theorem published_result
    {calls : CollectorCalls Run} {status : Option CollectorStatus}
    {trace : List (CollectorEvent Run)} {state : CollectorState Run}
    (execution : (collectorSystem calls status).Execution trace state) :
    EachFromLast calls trace state ∧
      ∀ earlier later run,
        trace = earlier ++ .run run .replaceStdout :: later →
        (∀ event ∈ later, QuietBut run event) →
        state.phase run = .returned →
        FromCall calls run state := by
  refine ⟨eachFromLast_of_execution execution, ?_⟩
  rintro earlier later run rfl quiet returned
  have written := written_of_quiet execution quiet
  rw [returned] at written
  exact written

end

def goodResult : RunResult where
  exitCode := 0
  stdout := ['a']
  stderr := []
  startedAt := none
  outputFormat := none
  timedOut := false

def failedResult : RunResult where
  exitCode := 1
  stdout := ['b']
  stderr := ['!']
  startedAt := none
  outputFormat := none
  timedOut := false

/-- Two direct calls of `write_result`. -/
def twoCalls : CollectorCalls Bool where
  name := ['c']
  result := fun second => if second then failedResult else goodResult
  finishing := fun _ => false

def noFiles : CollectorState Bool where
  stdout := none
  stderr := none
  combined := none
  lastRun := none
  status := none
  phase := fun _ => .ready

/-- The rest of a call after its first file. -/
def restOf (second : Bool) : List (CollectorEvent Bool) :=
  [.run second .replaceStderr, .run second .replaceCombined,
    .run second (.replaceLastRun (if second then ['2'] else ['1'])),
    .run second (.update 0)]

/-- The first call replaces one file, and the second one all. -/
def overlapping : List (CollectorEvent Bool) :=
  .run false .replaceStdout :: .run true .replaceStdout ::
    (restOf true ++ restOf false)

/-- The second call writes after the first one. -/
def oneByOne : List (CollectorEvent Bool) :=
  (.run false .replaceStdout :: restOf false) ++
    .run true .replaceStdout :: restOf true

/-- One after the other, the files are those of the second call. -/
theorem published_result_one_by_one :
    ∃ state,
      (collectorSystem twoCalls none).Execution oneByOne state ∧
        FromCall twoCalls true state := by
  obtain ⟨trace, state, execution, same⟩ :=
    TransitionSystem.Execution.of_runInputs
      (fun state : CollectorState Bool =>
        state.status = none ∧ ∀ run, state.phase run = .ready)
      (next? twoCalls) noFiles oneByOne
      (fun trace state =>
        decide (trace = oneByOne) && decide (state.phase true = .returned))
      ⟨rfl, fun _ => rfl⟩ (by decide)
  simp only [Bool.and_eq_true, decide_eq_true_eq] at same
  obtain ⟨rfl, returned⟩ := same
  refine ⟨state, execution, (published_result execution).2
    (.run false .replaceStdout :: restOf false) (restOf true) true rfl ?_
    returned⟩
  intro event isIn
  simp only [restOf, List.mem_cons, List.not_mem_nil, or_false] at isIn
  rcases isIn with rfl | rfl | rfl | rfl
  · rfl
  · rfl
  · rfl
  · rfl

/--
Both calls have returned; the output is that of the second call, and the
other files and the status are those of the first one.
-/
theorem published_result_mixes_calls :
    ∃ state,
      (collectorSystem twoCalls none).Execution overlapping state ∧
        (∀ run, state.phase run = .returned) ∧
        state.stdout = some ['b'] ∧
        state.stderr = some [] ∧
        state.combined = some ['a'] ∧
        state.status.bind CollectorStatus.lastExitCode = some 0 ∧
        ¬ ∃ run, FromCall twoCalls run state := by
  obtain ⟨trace, state, execution, same⟩ :=
    TransitionSystem.Execution.of_runInputs
      (fun state : CollectorState Bool =>
        state.status = none ∧ ∀ run, state.phase run = .ready)
      (next? twoCalls) noFiles overlapping
      (fun trace state =>
        decide (trace = overlapping) &&
          decide (∀ run, state.phase run = .returned) &&
          decide (state.stdout = some ['b']) &&
          decide (state.stderr = some []) &&
          decide (state.combined = some ['a']) &&
          decide
            (state.status.bind CollectorStatus.lastExitCode = some 0))
      ⟨rfl, fun _ => rfl⟩ (by decide)
  simp only [Bool.and_eq_true, decide_eq_true_eq] at same
  obtain ⟨⟨⟨⟨⟨rfl, returned⟩, stdout⟩, stderr⟩, combined⟩, exitCode⟩ := same
  refine ⟨state, execution, returned, stdout, stderr, combined, exitCode, ?_⟩
  rintro ⟨run, fromCall⟩
  have firstOutput := fromCall.stdout
  have both := fromCall.combined
  rw [stdout] at firstOutput
  rw [combined] at both
  cases run with
  | false => exact absurd firstOutput (by decide)
  | true => exact absurd both (by decide)

end DeveloperDashboard.Collector
