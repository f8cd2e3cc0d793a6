import DeveloperDashboard.GoRoutine.Channel
import DeveloperDashboard.Library.Binary64

namespace DeveloperDashboard.GoRoutine

open Library

/-!
# Routine control blocks

The `go_control` of one routine, the worker that runs its callback, and the
`kill()` and `timeout()` calls made on it.  Every function here is one
critical section of the control mutex.  The callback is arbitrary Perl code:
it may run an op, die with any text, catch an error and go on, or return, and
what it does next is an input of the step.  Elapsed time is an input too, and
`started_at` and `finished_at`, which nothing but `age` reads, are left out.
-/

/-- The text of `GO_EXIT_EXCEPTION`. -/
def goExitException : String :=
  "__DEVELOPER_DASHBOARD_GOROUTINE_EXIT__"

/-- `go_state`. -/
inductive GoState where
  | running
  | done
  | killed
  | timedOut
  | exited
  | failed
  deriving DecidableEq, Repr

/-- `go_cancel_reason`. -/
inductive GoCancelReason where
  | none
  | kill
  | timeout
  deriving DecidableEq, Repr

/-- The number of values of an `unsigned long`. -/
def unsignedLongSize : Nat :=
  2 ^ 64

/-- The fields of `go_control` that its mutex protects. -/
structure GoControl where
  threadValid : Bool
  state : GoState
  cancelReason : GoCancelReason
  cancelRequested : Bool
  exitRequested : Bool
  timeoutGeneration : Nat
  timeoutSeconds : Double
  deriving DecidableEq, Repr

/-- `go_control_new`. -/
def goControlNew : GoControl where
  threadValid := false
  state := .running
  cancelReason := .none
  cancelRequested := false
  exitRequested := false
  timeoutGeneration := 0
  timeoutSeconds := .finite 0

/-- A request to cancel is accepted while none was and the routine runs. -/
def GoControl.Cancellable (ctl : GoControl) : Prop :=
  ctl.state = .running ∧ ctl.cancelRequested = false

instance (ctl : GoControl) : Decidable ctl.Cancellable :=
  inferInstanceAs (Decidable (_ ∧ _))

/-- `go_control_request_cancel`. -/
def goControlRequestCancel (ctl : GoControl) (reason : GoCancelReason) :
    GoControl × Bool :=
  if ctl.Cancellable then
    ({ ctl with cancelRequested := true, cancelReason := reason }, true)
  else
    (ctl, false)

/-- `go_control_request_exit`. -/
def goControlRequestExit (ctl : GoControl) : GoControl :=
  { ctl with exitRequested := true }

/-- `go_control_finish`. -/
def goControlFinish (ctl : GoControl) (state : GoState) : GoControl :=
  { ctl with state := state, threadValid := false }

/-- `strstr` on two C strings is not `NULL`. -/
def strstr (haystack needle : String) : Bool :=
  decide (needle.toList <:+: haystack.toList.takeWhile (· ≠ '\x00'))

section Worker

/--
The checks of `go_runops` before one op.  The text that `croak` adds to a
sentinel, the place in the program, is supplied from outside.
-/
def goRunops (ctl : GoControl) (isExit : Bool) (location : String) :
    GoControl × Option String :=
  if ctl.cancelRequested then
    (ctl, some (goCancelException ++ location))
  else if ctl.exitRequested then
    (ctl, some (goExitException ++ location))
  else if isExit then
    (goControlRequestExit ctl, some (goExitException ++ location))
  else
    (ctl, none)

/-- The final state that `go_worker` reads off the callback's error. -/
def goWorkerFinalState (ctl : GoControl) (error : Option String) :
    GoState :=
  match error with
  | none => .done
  | some msg =>
    if strstr msg goCancelException then
      if ctl.cancelReason = .timeout then .timedOut else .killed
    else if strstr msg goExitException then
      .exited
    else
      .failed

inductive WorkerState where
  | running
  | thrown (error : String)
  | unwound (error : Option String)
  | classified (final : GoState)
  | finished (final : GoState)
  deriving DecidableEq, Repr

/-- What the worker does next, as far as its surroundings decide it. -/
inductive WorkerInput where
  | op (isExit : Bool) (location : String)
  | die (error : String)
  | catchError
  | unwind
  | classify
  | finish
  deriving DecidableEq, Repr

/-- One step of `go_worker`. -/
def workerStep? (ctl : GoControl) :
    WorkerState → WorkerInput → Option (GoControl × WorkerState)
  | .running, .op isExit location =>
    some ((goRunops ctl isExit location).1,
      match (goRunops ctl isExit location).2 with
      | none => .running
      | some error => .thrown error)
  | .running, .die error => some (ctl, .thrown error)
  | .running, .unwind => some (ctl, .unwound none)
  -- An error in flight may be caught by the callback's own `eval`.
  | .thrown _, .catchError => some (ctl, .running)
  | .thrown error, .unwind => some (ctl, .unwound (some error))
  | .unwound error, .classify =>
    some (ctl, .classified (goWorkerFinalState ctl error))
  | .classified final, .finish =>
    some (goControlFinish ctl final, .finished final)
  | _, _ => none

end Worker

section Timeout

/--
Where one `_routine_timeout` call stands, and then its watcher, with the
generation and the seconds that `go_timeout_job` holds.
-/
inductive TimeoutState where
  | called
  | updated (generation : Nat) (seconds : Double)
  | armed (generation : Nat) (seconds : Double)
  | decided (generation : Nat)
  | retired
  deriving DecidableEq, Repr

/-- The critical section of `_routine_timeout`. -/
def routineTimeout (ctl : GoControl) (seconds : Double) :
    GoControl × TimeoutState :=
  let generation := (ctl.timeoutGeneration + 1) % unsignedLongSize
  let updated :=
    { ctl with
      timeoutGeneration := generation
      timeoutSeconds :=
        if seconds.isPositive then seconds else .finite 0 }
  if ctl.state ≠ .running ∨ seconds.isNonPositive then
    (updated, .retired)
  else
    (updated, .updated generation seconds)

/-- One pass of the loop of `go_timeout_worker`, up to its wait or unlock. -/
def goTimeoutWorker (ctl : GoControl) (generation : Nat) (seconds : Double)
    (elapsed : Bool) :
    TimeoutState :=
  if ctl.state = .running ∧ ctl.timeoutGeneration = generation ∧
      ctl.timeoutSeconds.isPositive then
    if elapsed then .decided generation else .armed generation seconds
  else
    .retired

end Timeout

/-- A routine with the timeout calls that were ever made on it. -/
structure RoutineState where
  control : GoControl
  worker : WorkerState
  timeouts : Nat → TimeoutState

def RoutineState.fresh : RoutineState where
  control := goControlNew
  worker := .running
  timeouts _ := .called

inductive RoutineEvent where
  | launched
  | worker (after : WorkerState)
  | kill (accepted : Bool)
  | timeout (call : Nat) (seconds : Double)
  | watcher (call : Nat) (after : TimeoutState)
  | watcherRequest (call : Nat) (accepted : Bool)
  deriving DecidableEq

inductive RoutineInput where
  | launched
  | worker (input : WorkerInput)
  | kill
  | timeout (call : Nat) (seconds : Double)
  | createWatcher (call : Nat) (created : Bool)
  | watcher (call : Nat) (elapsed : Bool)
  | watcherRequest (call : Nat)
  deriving DecidableEq

def RoutineState.withTimeout (routine : RoutineState) (call : Nat)
    (after : TimeoutState) :
    RoutineState :=
  { routine with
    timeouts := Function.update routine.timeouts call after }

def routineNext? (routine : RoutineState) :
    RoutineInput → Option (RoutineEvent × RoutineState)
  -- The launcher stores the thread, perhaps after the worker is over.
  | .launched =>
    some (.launched, { routine with
        control := { routine.control with threadValid := true } })
  | .worker input =>
    match workerStep? routine.control routine.worker input with
    | none => none
    | some (ctl, after) =>
      some (.worker after, { routine with control := ctl, worker := after })
  | .kill =>
    some (.kill (goControlRequestCancel routine.control .kill).2,
      { routine with
        control := (goControlRequestCancel routine.control .kill).1 })
  | .timeout call seconds =>
    match routine.timeouts call with
    | .called =>
      let result := routineTimeout routine.control seconds
      some (.timeout call seconds, { routine.withTimeout call result.2 with
          control := result.1 })
    | _ => none
  | .createWatcher call created =>
    match routine.timeouts call with
    | .updated generation seconds =>
      let after :=
        if created then .armed generation seconds else .retired
      some (.watcher call after, routine.withTimeout call after)
    | _ => none
  | .watcher call elapsed =>
    match routine.timeouts call with
    | .armed generation seconds =>
      let after :=
        goTimeoutWorker routine.control generation seconds elapsed
      some (.watcher call after, routine.withTimeout call after)
    | _ => none
  | .watcherRequest call =>
    match routine.timeouts call with
    | .decided _ =>
      let result := goControlRequestCancel routine.control .timeout
      some (.watcherRequest call result.2,
        { routine.withTimeout call .retired with
          control := result.1 })
    | _ => none

/-- One routine under any order of the steps of all parties. -/
def routineSystem : TransitionSystem RoutineState RoutineEvent :=
  .ofNext (fun routine => routine = .fresh) routineNext?

inductive RoutineEffect (routine : RoutineState) :
    RoutineEvent → RoutineState → Prop where
  | launched :
      RoutineEffect routine .launched
        { routine with
          control := { routine.control with threadValid := true } }
  | worker
      {input : WorkerInput}
      {ctl : GoControl}
      {after : WorkerState}
      (advance :
        workerStep? routine.control routine.worker input =
          some (ctl, after)) :
      RoutineEffect routine (.worker after)
        { routine with control := ctl, worker := after }
  | kill :
      RoutineEffect routine
        (.kill (goControlRequestCancel routine.control .kill).2)
        { routine with
          control := (goControlRequestCancel routine.control .kill).1 }
  | timeout
      {call : Nat}
      (seconds : Double)
      (uncalled : routine.timeouts call = .called) :
      RoutineEffect routine (.timeout call seconds)
        { routine.withTimeout call
            (routineTimeout routine.control seconds).2 with
          control := (routineTimeout routine.control seconds).1 }
  | watcher
      {call generation : Nat}
      {seconds : Double}
      {after : TimeoutState}
      (before :
        routine.timeouts call = .updated generation seconds ∨
          routine.timeouts call = .armed generation seconds)
      (goesTo :
        after = .armed generation seconds ∨
          after = .decided generation ∨
          after = .retired) :
      RoutineEffect routine (.watcher call after)
        (routine.withTimeout call after)
  | watcherRequest
      {call generation : Nat}
      (decided : routine.timeouts call = .decided generation) :
      RoutineEffect routine
        (.watcherRequest call
          (goControlRequestCancel routine.control .timeout).2)
        { routine.withTimeout call .retired with
          control :=
            (goControlRequestCancel routine.control .timeout).1 }

theorem routineNext?_effect {routine next : RoutineState}
    {input : RoutineInput} {event : RoutineEvent}
    (advance : routineNext? routine input = some (event, next)) :
    RoutineEffect routine event next := by
  cases input with
  | launched =>
    simp only [routineNext?, Option.some.injEq, Prod.mk.injEq]
      at advance
    obtain ⟨rfl, rfl⟩ := advance
    exact .launched
  | worker input =>
    simp only [routineNext?] at advance
    split at advance
    · cases advance
    · next ctl after entered =>
        obtain ⟨rfl, rfl⟩ := by simpa using advance
        exact .worker entered
  | kill =>
    simp only [routineNext?, Option.some.injEq, Prod.mk.injEq]
      at advance
    obtain ⟨rfl, rfl⟩ := advance
    exact .kill
  | timeout call seconds =>
    simp only [routineNext?] at advance
    split at advance
    · next uncalled =>
        obtain ⟨rfl, rfl⟩ := by simpa using advance
        exact .timeout seconds uncalled
    · cases advance
  | createWatcher call created =>
    simp only [routineNext?] at advance
    split at advance
    · next updated =>
        obtain ⟨rfl, rfl⟩ := by simpa using advance
        refine .watcher (Or.inl updated) ?_
        cases created
        · exact Or.inr (Or.inr rfl)
        · exact Or.inl rfl
    · cases advance
  | watcher call elapsed =>
    simp only [routineNext?] at advance
    split at advance
    · next armed =>
        obtain ⟨rfl, rfl⟩ := by simpa using advance
        refine .watcher (Or.inr armed) ?_
        unfold goTimeoutWorker
        split_ifs <;> simp
    · cases advance
  | watcherRequest call =>
    simp only [routineNext?] at advance
    split at advance
    · next decided =>
        obtain ⟨rfl, rfl⟩ := by simpa using advance
        exact .watcherRequest decided
    · cases advance

theorem routineStep_effect {routine next : RoutineState}
    {event : RoutineEvent} (step : routineSystem.step routine event next) :
    RoutineEffect routine event next := by
  obtain ⟨_, advance⟩ := step
  exact routineNext?_effect advance

end DeveloperDashboard.GoRoutine
