import DeveloperDashboard.GoRoutine.Control

namespace DeveloperDashboard.GoRoutine

open Library

/-!
# The lifecycle of a routine

A routine leaves `RUNNING` once and at most one request to cancel it is
accepted, in every execution.  That its last status names the accepted
request, and that a superseded deadline is never enforced, needs two further
conditions: the worker takes any error whose text contains the cancellation
sentinel for a cancellation, and a watcher asks for the cancellation in a
later critical section than the one in which it compared its generation.
-/

def RoutineEvent.accepts : RoutineEvent → Bool
  | .kill accepted => accepted
  | .watcherRequest _ accepted => accepted
  | _ => false

/-- The step set the final state. -/
def RoutineEvent.finishes : RoutineEvent → Bool
  | .worker (.finished _) => true
  | _ => false

/-- The step completed the update of a `timeout()` call. -/
def RoutineEvent.updates : RoutineEvent → Bool
  | .timeout _ _ => true
  | _ => false

/-- An accepted deadline belongs to the last completed update. -/
def AcceptsCurrent (trace : List RoutineEvent) : Prop :=
  ∀ {earlier later : List RoutineEvent} {call : Nat},
    trace = earlier ++ .watcherRequest call true :: later →
    ∀ {before after : List RoutineEvent} {seconds : Double},
      earlier = before ++ .timeout call seconds :: after →
      ∀ other otherSeconds, .timeout other otherSeconds ∉ after

/-- What an execution of a routine promises to its owner. -/
structure Lifecycle
    (trace : List RoutineEvent) (routine : RoutineState) : Prop where
  leavesOnce :
    trace.countP RoutineEvent.finishes =
      if routine.control.state = .running then 0 else 1
  settles :
    ∀ {earlier later : List RoutineEvent} {middle : RoutineState},
      trace = earlier ++ later →
      routineSystem.Execution earlier middle →
      routineSystem.Run middle later routine →
      middle.control.state ≠ .running →
      routine.control.state = middle.control.state
  acceptsOnce :
    trace.countP RoutineEvent.accepts ≤ 1
  killedByKill :
    routine.control.state = .killed →
      .kill true ∈ trace
  timedOutByTimeout :
    routine.control.state = .timedOut →
      ∃ call, .watcherRequest call true ∈ trace
  acceptedCurrent :
    AcceptsCurrent trace

/-! What a step leaves alone. -/

/-- The parts of a control block that only a cancellation or the end sets. -/
structure GoControl.SameVerdict (ctl next : GoControl) : Prop where
  state_eq : next.state = ctl.state
  reason_eq : next.cancelReason = ctl.cancelReason
  requested_eq : next.cancelRequested = ctl.cancelRequested

/-- A worker that still runs the callback or holds its result. -/
def WorkerState.Executing : WorkerState → Prop
  | .classified _ => False
  | .finished _ => False
  | _ => True

theorem WorkerState.Executing.not_finishes {after : WorkerState}
    (executing : after.Executing) :
    (RoutineEvent.worker after).finishes = false := by
  cases after with
  | finished final => exact executing.elim
  | _ => rfl

inductive WorkerEffect (ctl : GoControl) :
    WorkerState → GoControl → WorkerState → Prop where
  | execute
      {before after : WorkerState}
      {next : GoControl}
      (started : before.Executing)
      (stays : after.Executing)
      (same : ctl.SameVerdict next)
      (sameGeneration :
        next.timeoutGeneration = ctl.timeoutGeneration) :
      WorkerEffect ctl before next after
  | classify
      (error : Option String) :
      WorkerEffect ctl (.unwound error) ctl
        (.classified (goWorkerFinalState ctl error))
  | finish
      (final : GoState) :
      WorkerEffect ctl (.classified final)
        (goControlFinish ctl final) (.finished final)

theorem goRunops_sameVerdict (ctl : GoControl) (isExit : Bool)
    (location : String) :
    ctl.SameVerdict (goRunops ctl isExit location).1 ∧
      (goRunops ctl isExit location).1.timeoutGeneration =
        ctl.timeoutGeneration := by
  unfold goRunops goControlRequestExit
  split_ifs <;> exact ⟨⟨rfl, rfl, rfl⟩, rfl⟩

variable {ctl : GoControl}

theorem workerStep?_effect {next : GoControl} {before after : WorkerState}
    {input : WorkerInput}
    (advance : workerStep? ctl before input = some (next, after)) :
    WorkerEffect ctl before next after := by
  have quiet : ctl.SameVerdict ctl := ⟨rfl, rfl, rfl⟩
  unfold workerStep? at advance
  split at advance <;>
    simp only [Option.some.injEq, Prod.mk.injEq, reduceCtorEq]
      at advance
  · obtain ⟨rfl, rfl⟩ := advance
    next isExit location =>
      obtain ⟨same, sameGeneration⟩ :=
        goRunops_sameVerdict ctl isExit location
      refine .execute trivial ?_ same sameGeneration
      split <;> trivial
  · obtain ⟨rfl, rfl⟩ := advance
    exact .execute trivial trivial quiet rfl
  · obtain ⟨rfl, rfl⟩ := advance
    exact .execute trivial trivial quiet rfl
  · obtain ⟨rfl, rfl⟩ := advance
    exact .execute trivial trivial quiet rfl
  · obtain ⟨rfl, rfl⟩ := advance
    exact .execute trivial trivial quiet rfl
  · obtain ⟨rfl, rfl⟩ := advance
    exact .classify _
  · obtain ⟨rfl, rfl⟩ := advance
    exact .finish _

theorem WorkerEffect.generation_eq {next : GoControl}
    {before after : WorkerState}
    (effect : WorkerEffect ctl before next after) :
    next.timeoutGeneration = ctl.timeoutGeneration := by
  cases effect with
  | execute started stays same sameGeneration => exact sameGeneration
  | classify error => rfl
  | finish final => rfl

@[simp] theorem goControlRequestCancel_state (ctl : GoControl)
    (reason : GoCancelReason) :
    (goControlRequestCancel ctl reason).1.state = ctl.state := by
  unfold goControlRequestCancel
  split <;> rfl

@[simp] theorem goControlRequestCancel_timeoutGeneration (ctl : GoControl)
    (reason : GoCancelReason) :
    (goControlRequestCancel ctl reason).1.timeoutGeneration =
      ctl.timeoutGeneration := by
  unfold goControlRequestCancel
  split <;> rfl

theorem routineTimeout_sameVerdict (ctl : GoControl) (seconds : Double) :
    ctl.SameVerdict (routineTimeout ctl seconds).1 := by
  unfold routineTimeout
  dsimp only
  split <;> exact ⟨rfl, rfl, rfl⟩

theorem routineTimeout_timeoutGeneration (ctl : GoControl)
    (seconds : Double) :
    (routineTimeout ctl seconds).1.timeoutGeneration =
      (ctl.timeoutGeneration + 1) % unsignedLongSize := by
  unfold routineTimeout
  dsimp only
  split <;> rfl

/-! The worker and the state of the routine. -/

/-- The state is `RUNNING` until the worker is over, and then its verdict. -/
structure RoutineState.Tracked (routine : RoutineState) : Prop where
  whileWorking :
    (∀ final, routine.worker ≠ .finished final) →
      routine.control.state = .running
  afterwards :
    ∀ {final},
      routine.worker = .finished final →
      routine.control.state = final
  verdict :
    ∀ {final},
      routine.worker = .classified final ∨
        routine.worker = .finished final →
      final ≠ .running

theorem goWorkerFinalState_ne_running (ctl : GoControl)
    (error : Option String) :
    goWorkerFinalState ctl error ≠ .running := by
  unfold goWorkerFinalState
  split
  · simp
  · split_ifs <;> simp

variable {next routine : RoutineState}

theorem RoutineState.Tracked.congr (tracked : routine.Tracked)
    (sameWorker : next.worker = routine.worker)
    (sameState : next.control.state = routine.control.state) :
    next.Tracked where
  whileWorking := by
    rw [sameWorker, sameState]
    exact tracked.whileWorking
  afterwards := by
    rw [sameWorker, sameState]
    exact tracked.afterwards
  verdict := by
    rw [sameWorker]
    exact tracked.verdict

variable {event : RoutineEvent}

/-- Every step keeps worker and state together. -/
theorem RoutineEffect.tracked (effect : RoutineEffect routine event next)
    (tracked : routine.Tracked) :
    next.Tracked := by
  cases effect with
  | launched =>
    exact tracked.congr rfl rfl
  | kill =>
    exact tracked.congr rfl (by simp)
  | timeout seconds uncalled =>
    exact tracked.congr rfl
      (routineTimeout_sameVerdict routine.control seconds).state_eq
  | watcher before goesTo =>
    exact tracked.congr rfl rfl
  | watcherRequest decided =>
    exact tracked.congr rfl (by simp)
  | worker advance =>
    obtain ⟨control, worker, timeouts⟩ := routine
    cases workerStep?_effect advance with
    | execute started stays same sameGeneration =>
      refine ⟨fun _ => ?_, ?_, ?_⟩
      · refine same.state_eq.trans (tracked.whileWorking ?_)
        rintro final rfl
        exact started
      · rintro final rfl
        exact stays.elim
      · rintro final (rfl | rfl) <;> exact stays.elim
    | classify error =>
      refine ⟨fun _ => tracked.whileWorking (by simp), by simp, ?_⟩
      rintro final (same | same)
      · cases same
        exact goWorkerFinalState_ne_running _ error
      · cases same
    | finish final =>
      refine ⟨fun absurd => (absurd final rfl).elim, ?_, ?_⟩
      · rintro other same
        cases same
        rfl
      · rintro other (same | same)
        · cases same
        · cases same
          exact tracked.verdict (Or.inl rfl)

/-- A step of a settled routine changes its state no more. -/
theorem RoutineEffect.settled (effect : RoutineEffect routine event next)
    (tracked : routine.Tracked)
    (settled : routine.control.state ≠ .running) :
    event.finishes = false ∧
      next.control.state = routine.control.state := by
  cases effect with
  | launched => exact ⟨rfl, rfl⟩
  | kill => exact ⟨rfl, by simp⟩
  | timeout seconds uncalled =>
    exact ⟨rfl,
      (routineTimeout_sameVerdict routine.control seconds).state_eq⟩
  | watcher before goesTo => exact ⟨rfl, rfl⟩
  | watcherRequest decided => exact ⟨rfl, by simp⟩
  | worker advance =>
    have ended : ∃ final, routine.worker = .finished final := by
      by_contra working
      push Not at working
      exact settled (tracked.whileWorking working)
    obtain ⟨final, finished⟩ := ended
    rw [finished] at advance
    simp [workerStep?] at advance

theorem RoutineEffect.finishes_iff
    (effect : RoutineEffect routine event next) (tracked : routine.Tracked)
    (running : routine.control.state = .running) :
    event.finishes = true ↔ next.control.state ≠ .running := by
  cases effect with
  | launched => simp [RoutineEvent.finishes, running]
  | kill => simp [RoutineEvent.finishes, running]
  | timeout seconds uncalled =>
    have same :=
      (routineTimeout_sameVerdict routine.control seconds).state_eq
    simp [RoutineEvent.finishes, same, running]
  | watcher before goesTo =>
    simp [RoutineEvent.finishes, RoutineState.withTimeout, running]
  | watcherRequest decided =>
    simp [RoutineEvent.finishes, running]
  | worker advance =>
    obtain ⟨control, worker, timeouts⟩ := routine
    change control.state = .running at running
    cases workerStep?_effect advance with
    | execute started stays same sameGeneration =>
      have unsettled := same.state_eq.trans running
      simp [stays.not_finishes, unsettled]
    | classify error =>
      simp [RoutineEvent.finishes, running]
    | finish final =>
      simpa [RoutineEvent.finishes, goControlFinish] using
        tracked.verdict (Or.inl rfl)

/-! The accepted request and the reason it left. -/

theorem goControlRequestCancel_cases (ctl : GoControl)
    (reason : GoCancelReason) :
    (ctl.Cancellable ∧
      goControlRequestCancel ctl reason =
        ({ ctl with cancelRequested := true, cancelReason := reason },
          true)) ∨
    (¬ ctl.Cancellable ∧
      goControlRequestCancel ctl reason = (ctl, false)) := by
  unfold goControlRequestCancel
  split
  · next accepted => exact Or.inl ⟨accepted, rfl⟩
  · next refused => exact Or.inr ⟨refused, rfl⟩

/-- The reason for a cancellation is that of the one accepted request. -/
structure Accounted
    (trace : List RoutineEvent) (ctl : GoControl) : Prop where
  requested_iff :
    ctl.cancelRequested = true ↔ ctl.cancelReason ≠ .none
  acceptCount :
    trace.countP RoutineEvent.accepts =
      if ctl.cancelRequested then 1 else 0
  killReason :
    ctl.cancelReason = .kill → .kill true ∈ trace
  timeoutReason :
    ctl.cancelReason = .timeout →
      ∃ call, .watcherRequest call true ∈ trace

variable {trace : List RoutineEvent}

/-- A step that accepts nothing keeps the account. -/
theorem Accounted.quiet {next : GoControl} (accounted : Accounted trace ctl)
    (accepts : event.accepts = false)
    (sameReason : next.cancelReason = ctl.cancelReason)
    (sameRequest : next.cancelRequested = ctl.cancelRequested) :
    Accounted (trace ++ [event]) next where
  requested_iff := by
    rw [sameReason, sameRequest]
    exact accounted.requested_iff
  acceptCount := by
    rw [sameRequest]
    simpa [accepts] using accounted.acceptCount
  killReason := by
    rw [sameReason]
    intro killed
    exact List.mem_append_left _ (accounted.killReason killed)
  timeoutReason := by
    rw [sameReason]
    intro timedOut
    obtain ⟨call, member⟩ := accounted.timeoutReason timedOut
    exact ⟨call, List.mem_append_left _ member⟩

theorem Accounted.none_before (accounted : Accounted trace ctl)
    (cancellable : ctl.Cancellable) :
    trace.countP RoutineEvent.accepts = 0 := by
  simpa [cancellable.2] using accounted.acceptCount

/-- Every step keeps the account of the accepted request. -/
theorem RoutineEffect.accounted (effect : RoutineEffect routine event next)
    (accounted : Accounted trace routine.control) :
    Accounted (trace ++ [event]) next.control := by
  cases effect with
  | launched =>
    exact accounted.quiet rfl rfl rfl
  | timeout seconds uncalled =>
    have same := routineTimeout_sameVerdict routine.control seconds
    exact accounted.quiet rfl same.reason_eq same.requested_eq
  | watcher before goesTo =>
    exact accounted.quiet rfl rfl rfl
  | worker advance =>
    obtain ⟨control, worker, timeouts⟩ := routine
    cases workerStep?_effect advance with
    | execute started stays same sameGeneration =>
      exact accounted.quiet rfl same.reason_eq same.requested_eq
    | classify error =>
      exact accounted.quiet rfl rfl rfl
    | finish final =>
      exact accounted.quiet rfl rfl rfl
  | kill =>
    rcases goControlRequestCancel_cases routine.control .kill with
      ⟨accepted, result⟩ | ⟨refused, result⟩
    · rw [result]
      have first := accounted.none_before accepted
      refine ⟨by simp, ?_, by simp, by simp⟩
      simp [first, RoutineEvent.accepts]
    · rw [result]
      exact accounted.quiet rfl rfl rfl
  | @watcherRequest call generation decided =>
    rcases goControlRequestCancel_cases routine.control .timeout with
      ⟨accepted, result⟩ | ⟨refused, result⟩
    · rw [result]
      have first := accounted.none_before accepted
      refine ⟨by simp, ?_, by simp, fun _ => ⟨call, by simp⟩⟩
      simp [first, RoutineEvent.accepts]
    · rw [result]
      exact accounted.quiet rfl rfl rfl

/-! The verdict of the worker and the reason. -/

/-- A worker that read a cancellation off its error found its reason. -/
structure RoutineState.Judged (routine : RoutineState) : Prop where
  killed :
    routine.worker = .classified .killed ∨
      routine.worker = .finished .killed →
    routine.control.cancelReason = .kill
  timedOut :
    routine.worker = .classified .timedOut ∨
      routine.worker = .finished .timedOut →
    routine.control.cancelReason = .timeout

theorem reason_of_final_timedOut {error : Option String}
    (final : goWorkerFinalState ctl error = .timedOut) :
    ctl.cancelReason = .timeout := by
  unfold goWorkerFinalState at final
  split at final
  · cases final
  · split_ifs at final with sentinel timeout
    exact timeout

theorem reason_of_final_killed {error : Option String}
    (final : goWorkerFinalState ctl error = .killed) :
    ctl.cancelReason ≠ .timeout ∧
      ∃ msg, error = some msg ∧ strstr msg goCancelException = true := by
  unfold goWorkerFinalState at final
  split at final
  · cases final
  · next msg =>
      split_ifs at final with sentinel timeout
      exact ⟨timeout, msg, rfl, sentinel⟩

theorem goControlRequestCancel_reason (accounted : Accounted trace ctl)
    (requested : ctl.cancelReason ≠ .none) (reason : GoCancelReason) :
    (goControlRequestCancel ctl reason).1.cancelReason =
      ctl.cancelReason := by
  rcases goControlRequestCancel_cases ctl reason with
    ⟨accepted, _⟩ | ⟨_, result⟩
  · have wasRequested := accounted.requested_iff.mpr requested
    rw [accepted.2] at wasRequested
    cases wasRequested
  · rw [result]

/-- The callback ended with an error whose text contains the sentinel. -/
def WorkerState.holdsSentinel : WorkerState → Bool
  | .unwound (some msg) => strstr msg goCancelException
  | _ => false

/--
The conditions under which the code keeps its promises: a sentinel in the
error of a callback comes from a cancellation, the generations of the timeouts
do not wrap around, and a watcher whose request would be accepted is still the
current one when it asks.
-/
def RoutineState.Undisturbed (routine : RoutineState) :
    RoutineEvent → Prop
  | .worker (.classified _) =>
    routine.worker.holdsSentinel = true →
    routine.control.cancelReason ≠ .none
  | .timeout _ _ =>
    routine.control.timeoutGeneration + 1 < unsignedLongSize
  | .watcherRequest call _ =>
    routine.control.Cancellable →
    routine.timeouts call =
      .decided routine.control.timeoutGeneration
  | _ => True

instance (routine : RoutineState) (event : RoutineEvent) :
    Decidable (routine.Undisturbed event) := by
  unfold RoutineState.Undisturbed
  split <;> infer_instance

theorem RoutineState.Judged.congr (judged : routine.Judged)
    (sameWorker : next.worker = routine.worker)
    (sameReason :
      routine.control.cancelReason ≠ .none →
      next.control.cancelReason = routine.control.cancelReason) :
    next.Judged where
  killed := by
    rw [sameWorker]
    intro verdict
    have reason := judged.killed verdict
    exact (sameReason (by simp [reason])).trans reason
  timedOut := by
    rw [sameWorker]
    intro verdict
    have reason := judged.timedOut verdict
    exact (sameReason (by simp [reason])).trans reason

/-- Every undisturbed step keeps the verdict. -/
theorem RoutineEffect.judged (effect : RoutineEffect routine event next)
    (undisturbed : routine.Undisturbed event)
    (accounted : Accounted trace routine.control) (judged : routine.Judged) :
    next.Judged := by
  cases effect with
  | launched =>
    exact judged.congr rfl fun _ => rfl
  | kill =>
    exact judged.congr rfl fun requested =>
      goControlRequestCancel_reason accounted requested .kill
  | timeout seconds uncalled =>
    exact judged.congr rfl fun _ =>
      (routineTimeout_sameVerdict routine.control seconds).reason_eq
  | watcher before goesTo =>
    exact judged.congr rfl fun _ => rfl
  | watcherRequest decided =>
    exact judged.congr rfl fun requested =>
      goControlRequestCancel_reason accounted requested .timeout
  | worker advance =>
    obtain ⟨control, worker, timeouts⟩ := routine
    cases workerStep?_effect advance with
    | execute started stays same sameGeneration =>
      refine ⟨?_, ?_⟩ <;>
        · rintro (rfl | rfl) <;> exact stays.elim
    | classify error =>
      refine ⟨?_, ?_⟩
      · rintro (same | same)
        · obtain ⟨notTimeout, msg, rfl, sentinel⟩ :=
            reason_of_final_killed (WorkerState.classified.inj same)
          have requested := undisturbed sentinel
          change control.cancelReason = .kill
          change control.cancelReason ≠ .none at requested
          change control.cancelReason ≠ .timeout at notTimeout
          cases reason : control.cancelReason <;> simp_all
        · cases same
      · rintro (same | same)
        · exact reason_of_final_timedOut
            (WorkerState.classified.inj same)
        · cases same
    | finish final =>
      refine ⟨?_, ?_⟩
      · rintro (same | same)
        · cases same
        · cases same
          exact judged.killed (Or.inl rfl)
      · rintro (same | same)
        · cases same
        · cases same
          exact judged.timedOut (Or.inl rfl)

/-! The generations of the timeout calls. -/

/-- The generation that a timeout call or its watcher still carries. -/
def TimeoutState.generation? : TimeoutState → Option Nat
  | .updated generation _ => some generation
  | .armed generation _ => some generation
  | .decided generation => some generation
  | _ => none

/-- The generations number the completed updates in the order of the trace. -/
structure Generations
    (trace : List RoutineEvent) (routine : RoutineState) : Prop where
  counted :
    routine.control.timeoutGeneration =
      trace.countP RoutineEvent.updates
  called :
    ∀ {call seconds},
      .timeout call seconds ∈ trace →
      routine.timeouts call ≠ .called
  numbered :
    ∀ {before after : List RoutineEvent} {call seconds},
      trace = before ++ .timeout call seconds :: after →
      ∀ {generation},
        (routine.timeouts call).generation? = some generation →
        generation = before.countP RoutineEvent.updates + 1

/-- A step that updates no timeout and only moves calls forward. -/
theorem Generations.quiet (generations : Generations trace routine)
    (updates : event.updates = false)
    (sameGeneration :
      next.control.timeoutGeneration =
        routine.control.timeoutGeneration)
    (stillCalled :
      ∀ {call},
        routine.timeouts call ≠ .called →
        next.timeouts call ≠ .called)
    (kept :
      ∀ {call generation},
        (next.timeouts call).generation? = some generation →
        (routine.timeouts call).generation? = some generation) :
    Generations (trace ++ [event]) next where
  counted := by
    rw [sameGeneration]
    simpa [updates] using generations.counted
  called := by
    intro call seconds member
    rcases List.mem_append.mp member with earlier | latest
    · exact stillCalled (generations.called earlier)
    · obtain rfl := List.mem_singleton.mp latest
      cases updates
  numbered := by
    intro before after call seconds whole generation carries
    rcases snoc_eq_append_cons whole with
      ⟨_, rfl, _⟩ | ⟨between, earlier, _⟩
    · cases updates
    · exact generations.numbered earlier (kept carries)

theorem Generations.update {call : Nat} {seconds : Double}
    (generations : Generations trace routine)
    (uncalled : routine.timeouts call = .called)
    (noWrap :
      routine.control.timeoutGeneration + 1 < unsignedLongSize) :
    Generations (trace ++ [.timeout call seconds])
      { routine.withTimeout call
          (routineTimeout routine.control seconds).2 with
        control := (routineTimeout routine.control seconds).1 } := by
  have nextGeneration :
      (routineTimeout routine.control seconds).1.timeoutGeneration =
        routine.control.timeoutGeneration + 1 := by
    rw [routineTimeout_timeoutGeneration, Nat.mod_eq_of_lt noWrap]
  have own :
      (routineTimeout routine.control seconds).2 = .retired ∨
        (routineTimeout routine.control seconds).2 =
          .updated (routine.control.timeoutGeneration + 1) seconds := by
    unfold routineTimeout
    rw [Nat.mod_eq_of_lt noWrap]
    dsimp only
    split <;> simp
  have notBefore (other : Double) :
      .timeout call other ∉ trace := by
    intro member
    exact generations.called member uncalled
  refine ⟨?_, ?_, ?_⟩
  · rw [nextGeneration, generations.counted]
    simp [RoutineEvent.updates]
  · intro other otherSeconds member
    by_cases same : other = call
    · subst same
      rcases own with retired | updated
      · simp [RoutineState.withTimeout, retired]
      · simp [RoutineState.withTimeout, updated]
    · rcases List.mem_append.mp member with earlier | latest
      · simpa [RoutineState.withTimeout, same] using
          generations.called earlier
      · obtain ⟨sameCall, _⟩ := by simpa using latest
        exact (same sameCall).elim
  · intro before after other otherSeconds whole generation carries
    rcases snoc_eq_append_cons whole with
      ⟨rfl, latest, _⟩ | ⟨between, earlier, _⟩
    · obtain ⟨rfl, _⟩ := by simpa using latest
      rw [← generations.counted]
      rcases own with retired | updated
      · simp [RoutineState.withTimeout, retired,
          TimeoutState.generation?] at carries
      · simpa [RoutineState.withTimeout, updated,
          TimeoutState.generation?, eq_comm] using carries
    · have different : other ≠ call := by
        rintro rfl
        exact notBefore otherSeconds (by rw [earlier]; simp)
      exact generations.numbered earlier
        (by simpa [RoutineState.withTimeout, different] using carries)

/-- Moving one call on, and not back to its start, moves no other. -/
theorem Generations.advance {call : Nat} {after : TimeoutState}
    (generations : Generations trace routine)
    (updates : event.updates = false)
    (sameGeneration :
      ctl.timeoutGeneration = routine.control.timeoutGeneration)
    (started : after ≠ .called)
    (kept :
      ∀ {generation},
        after.generation? = some generation →
        (routine.timeouts call).generation? = some generation) :
    Generations (trace ++ [event])
      { routine.withTimeout call after with control := ctl } := by
  refine generations.quiet updates sameGeneration ?_ ?_
  · intro other wasStarted
    by_cases same : other = call
    · subst same
      simpa [RoutineState.withTimeout] using started
    · simpa [RoutineState.withTimeout, same] using wasStarted
  · intro other generation carries
    by_cases same : other = call
    · subst same
      exact kept (by simpa [RoutineState.withTimeout] using carries)
    · simpa [RoutineState.withTimeout, same] using carries

/-- Every undisturbed step keeps the numbering of the updates. -/
theorem RoutineEffect.generations (effect : RoutineEffect routine event next)
    (undisturbed : routine.Undisturbed event)
    (generations : Generations trace routine) :
    Generations (trace ++ [event]) next := by
  cases effect with
  | launched =>
    exact generations.quiet rfl rfl id id
  | kill =>
    exact generations.quiet rfl (by simp) id id
  | timeout seconds uncalled =>
    exact generations.update uncalled undisturbed
  | worker advance =>
    have sameGeneration := (workerStep?_effect advance).generation_eq
    exact generations.quiet rfl sameGeneration id id
  | watcher before goesTo =>
    refine generations.advance rfl rfl ?_ ?_
    · rcases goesTo with rfl | rfl | rfl <;> simp
    · intro number carries
      rcases before with stands | stands <;>
        rcases goesTo with rfl | rfl | rfl <;>
        simp_all [TimeoutState.generation?]
  | watcherRequest decided =>
    refine generations.advance rfl (by simp) (by simp) ?_
    intro number carries
    cases carries

theorem RoutineEffect.acceptsCurrent
    (effect : RoutineEffect routine event next)
    (undisturbed : routine.Undisturbed event)
    (generations : Generations trace routine)
    (acceptsCurrent : AcceptsCurrent trace) :
    AcceptsCurrent (trace ++ [event]) := by
  intro earlier later call whole before after seconds split
  rcases snoc_eq_append_cons whole with
    ⟨rfl, rfl, _⟩ | ⟨between, sooner, _⟩
  · generalize accepted :
      RoutineEvent.watcherRequest call true = event at effect undisturbed
    cases effect with
    | watcherRequest decided =>
      obtain ⟨rfl, granted⟩ := by simpa using accepted
      rcases goControlRequestCancel_cases routine.control .timeout with
        ⟨cancellable, _⟩ | ⟨_, refused⟩
      · have current := undisturbed cancellable
        have carries :
            (routine.timeouts call).generation? =
              some routine.control.timeoutGeneration := by
          rw [current]
          rfl
        have number := generations.numbered split carries
        rw [generations.counted, split] at number
        simp only [List.countP_append, List.countP_cons,
          RoutineEvent.updates, if_true] at number
        have noUpdate :
            after.countP RoutineEvent.updates = 0 := by
          omega
        intro other otherSeconds member
        exact List.countP_eq_zero.mp noUpdate _ member rfl
      · rw [refused] at granted
        cases granted
    | _ => cases accepted
  · exact acceptsCurrent sooner split

/-! Executions. -/

structure RoutineInvariant
    (trace : List RoutineEvent) (routine : RoutineState) : Prop where
  tracked : routine.Tracked
  leavesOnce :
    trace.countP RoutineEvent.finishes =
      if routine.control.state = .running then 0 else 1
  accounted : Accounted trace routine.control

theorem RoutineEffect.invariant (effect : RoutineEffect routine event next)
    (invariant : RoutineInvariant trace routine) :
    RoutineInvariant (trace ++ [event]) next where
  tracked := effect.tracked invariant.tracked
  accounted := effect.accounted invariant.accounted
  leavesOnce := by
    rw [List.countP_append, invariant.leavesOnce]
    by_cases running : routine.control.state = .running
    · have finishes := effect.finishes_iff invariant.tracked running
      by_cases settled : next.control.state = .running
      · have unfinished : event.finishes = false := by
          simpa [settled] using finishes
        simp [running, settled, unfinished]
      · have finished : event.finishes = true := finishes.mpr settled
        simp [running, settled, finished]
    · obtain ⟨unfinished, same⟩ :=
        effect.settled invariant.tracked running
      simp [running, same, unfinished]

theorem RoutineInvariant.fresh :
    RoutineInvariant [] .fresh where
  tracked := ⟨fun _ => rfl, by simp [RoutineState.fresh],
    by simp [RoutineState.fresh]⟩
  leavesOnce := rfl
  accounted := ⟨by simp [RoutineState.fresh, goControlNew], rfl,
    by simp [RoutineState.fresh, goControlNew],
    by simp [RoutineState.fresh, goControlNew]⟩

theorem invariant_of_execution
    (execution : routineSystem.Execution trace routine) :
    RoutineInvariant trace routine :=
  execution.invariant RoutineInvariant
    (fun isInitial => isInitial ▸ .fresh)
    (fun invariant step =>
      (routineStep_effect step).invariant invariant)

structure UndisturbedInvariant
    (trace : List RoutineEvent) (routine : RoutineState) : Prop where
  base : RoutineInvariant trace routine
  judged : routine.Judged
  generations : Generations trace routine
  acceptsCurrent : AcceptsCurrent trace

def undisturbedSystem : TransitionSystem RoutineState RoutineEvent :=
  routineSystem.restrict RoutineState.Undisturbed

theorem undisturbed_of_execution
    (execution : undisturbedSystem.Execution trace routine) :
    UndisturbedInvariant trace routine := by
  refine execution.invariant UndisturbedInvariant ?_ ?_
  · rintro _ rfl
    exact {
      base := .fresh
      judged := ⟨by simp [RoutineState.fresh], by simp [RoutineState.fresh]⟩
      generations := ⟨rfl, by simp, by simp⟩
      acceptsCurrent := by simp [AcceptsCurrent] }
  · intro trace routine event next invariant ⟨step, undisturbed⟩
    have effect := routineStep_effect step
    exact {
      base := effect.invariant invariant.base
      judged :=
        effect.judged undisturbed invariant.base.accounted
          invariant.judged
      generations :=
        effect.generations undisturbed invariant.generations
      acceptsCurrent :=
        effect.acceptsCurrent undisturbed invariant.generations
          invariant.acceptsCurrent }

theorem RoutineState.Tracked.settles {middle last : RoutineState}
    (tracked : middle.Tracked) (settled : middle.control.state ≠ .running)
    (run : routineSystem.Run middle trace last) :
    last.control.state = middle.control.state := by
  have kept :=
    run.invariant
      (fun routine =>
        routine.Tracked ∧
          routine.control.state = middle.control.state)
      (by
        intro routine event next ⟨tracked, same⟩ step
        have effect := routineStep_effect step
        have stays :=
          effect.settled tracked (by rw [same]; exact settled)
        exact ⟨effect.tracked tracked, stays.2.trans same⟩)
      ⟨tracked, rfl⟩
  exact kept.2

theorem lifecycle_of_undisturbed {trace : List RoutineEvent}
    {routine : RoutineState}
    (execution : undisturbedSystem.Execution trace routine) :
    Lifecycle trace routine := by
  have invariant := undisturbed_of_execution execution
  have tracked := invariant.base.tracked
  have accounted := invariant.base.accounted
  have finished
      {final : GoState}
      (settled : final ≠ .running)
      (state : routine.control.state = final) :
      routine.worker = .finished final := by
    by_contra other
    have working :
        ∀ reached, routine.worker ≠ .finished reached := by
      intro reached ended
      have same := (tracked.afterwards ended).symm.trans state
      exact other (same ▸ ended)
    exact settled (state.symm.trans (tracked.whileWorking working))
  exact {
    leavesOnce := invariant.base.leavesOnce
    settles := by
      intro earlier later middle _ reached run settled
      exact (invariant_of_execution reached).tracked.settles
        settled run
    acceptsOnce := by
      rw [accounted.acceptCount]
      split <;> decide
    killedByKill := by
      intro killed
      exact accounted.killReason
        (invariant.judged.killed
          (Or.inr (finished (by decide) killed)))
    timedOutByTimeout := by
      intro timedOut
      exact accounted.timeoutReason
        (invariant.judged.timedOut
          (Or.inr (finished (by decide) timedOut)))
    acceptedCurrent := invariant.acceptsCurrent }

theorem lifecycle_of_undisturbed_times_out :
    ∃ trace routine,
      undisturbedSystem.Execution trace routine ∧
        routine.control.state = .timedOut ∧
        ∃ call, .watcherRequest call true ∈ trace := by
  obtain ⟨trace, routine, execution, timedOut⟩ :=
    TransitionSystem.Execution.of_runInputs
      (fun routine => routine = .fresh)
      (TransitionSystem.guarded RoutineState.Undisturbed routineNext?)
      (.fresh)
      ([
        .launched, .timeout 0 (.finite 5), .createWatcher 0 true,
        .watcher 0 false, .watcher 0 true, .watcherRequest 0,
        .worker (.op false " at job.pl line 1.\n"), .worker .unwind,
        .worker .classify, .worker .finish])
      (fun _ routine =>
        decide (routine.control.state = .timedOut))
      rfl (by decide)
  have undisturbed : undisturbedSystem.Execution trace routine :=
    execution.restrict_of_guarded
  have state : routine.control.state = .timedOut := by
    simpa using timedOut
  exact ⟨trace, routine, undisturbed, state,
    (lifecycle_of_undisturbed undisturbed).timedOutByTimeout state⟩

/--
Two executions that break a promise: a callback that dies with the text of the
sentinel is reported as killed although nothing was requested, and a watcher
that found its deadline over cancels the routine after `timeout(0)` disabled
that deadline.
-/
theorem lifecycle_broken :
    (∃ trace routine, routineSystem.Execution trace routine ∧
        trace.countP RoutineEvent.accepts = 0 ∧
        routine.control.state = .killed ∧
        ¬ Lifecycle trace routine) ∧
    (∃ trace routine, routineSystem.Execution trace routine ∧
        trace =
          [.timeout 0 (.finite 5), .watcher 0 (.armed 1 (.finite 5)),
            .watcher 0 (.decided 1),
            .timeout 1 (.finite 0),
            .watcherRequest 0 true] ∧
        ¬ Lifecycle trace routine) := by
  constructor
  · obtain ⟨trace, routine, execution, reached⟩ :=
      TransitionSystem.Execution.of_runInputs
        (fun routine => routine = .fresh)
        (routineNext?)
        (.fresh)
        ([
          .worker (.die
            "caught __DEVELOPER_DASHBOARD_GOROUTINE_CANCEL__ earlier"),
          .worker .unwind, .worker .classify, .worker .finish])
        (fun trace routine =>
          decide (trace.countP RoutineEvent.accepts = 0 ∧
            routine.control.state = .killed))
        rfl (by decide)
    obtain ⟨noRequest, killed⟩ :
        trace.countP RoutineEvent.accepts = 0 ∧
          routine.control.state = .killed := by
      simpa using reached
    refine ⟨trace, routine, execution, noRequest, killed, ?_⟩
    intro lifecycle
    exact List.countP_eq_zero.mp noRequest _
      (lifecycle.killedByKill killed) rfl
  · obtain ⟨trace, routine, execution, reached⟩ :=
      TransitionSystem.Execution.of_runInputs
        (fun routine => routine = .fresh)
        (routineNext?)
        (.fresh)
        ([
          .timeout 0 (.finite 5), .createWatcher 0 true,
          .watcher 0 true, .timeout 1 (.finite 0), .watcherRequest 0])
        (fun trace _ =>
          decide (trace =
            [.timeout 0 (.finite 5), .watcher 0 (.armed 1 (.finite 5)),
              .watcher 0 (.decided 1),
              .timeout 1 (.finite 0),
              .watcherRequest 0 true]))
        rfl (by decide)
    have whole := of_decide_eq_true reached
    refine ⟨trace, routine, execution, whole, ?_⟩
    intro lifecycle
    have arming :
        [.timeout 0 (.finite 5), .watcher 0 (.armed 1 (.finite 5)),
            .watcher 0 (.decided 1),
            .timeout 1 (.finite 0)] =
          [] ++ RoutineEvent.timeout 0 (.finite 5) ::
            [.watcher 0 (.armed 1 (.finite 5)), .watcher 0 (.decided 1),
              .timeout 1 (.finite 0)] := rfl
    exact lifecycle.acceptedCurrent whole arming 1 (.finite 0)
      (by simp)

/--
In every execution a routine leaves `RUNNING` once and for good, one request at
most is accepted, and the reason on record is that of an accepted one.
-/
theorem routine_settles_once {trace : List RoutineEvent}
    {routine : RoutineState}
    (execution : routineSystem.Execution trace routine) :
    (trace.countP RoutineEvent.finishes =
      if routine.control.state = .running then 0 else 1) ∧
    (trace.countP RoutineEvent.accepts =
      if routine.control.cancelRequested then 1 else 0) ∧
    (routine.control.cancelReason = .kill → .kill true ∈ trace) ∧
    (routine.control.cancelReason = .timeout →
      ∃ call, .watcherRequest call true ∈ trace) ∧
    ∀ later last, routineSystem.Run routine later last →
      routine.control.state ≠ .running →
      last.control.state = routine.control.state := by
  have invariant := invariant_of_execution execution
  have accounted := invariant.accounted
  exact ⟨invariant.leavesOnce, accounted.acceptCount, accounted.killReason,
    accounted.timeoutReason,
    fun _ _ run settled => invariant.tracked.settles settled run⟩

theorem routine_settles_once_killed :
    ∃ trace routine,
      routineSystem.Execution trace routine ∧
        routine.control.cancelReason = .kill ∧ .kill true ∈ trace := by
  obtain ⟨trace, routine, execution, killed⟩ :=
    TransitionSystem.Execution.of_runInputs
      (fun routine => routine = .fresh)
      (routineNext?)
      (.fresh)
      ([.launched, .kill])
      (fun _ routine => decide (routine.control.cancelReason = .kill))
      rfl (by decide)
  have reason := of_decide_eq_true killed
  exact ⟨trace, routine, execution, reason,
    (routine_settles_once execution).2.2.1 reason⟩

end DeveloperDashboard.GoRoutine
