import DeveloperDashboard.GoRoutine.ControlLifecycle

namespace DeveloperDashboard.GoRoutine

open Library

/-!
# Waiting for all routines

The process-wide count of active routines, the `go()` calls that raise it, the
workers that lower it and the `wait_all()` calls that wait for it to be zero.
Each routine moves by the steps of its own control block; the critical
sections of the count mutex are steps of their own.
-/

/--
Where one `go()` call stands, and then its worker.  The call may croak before
it counts itself; a thread that could not be created is counted until the call
undoes it, and a worker until its very last step.
-/
inductive LaunchState where
  | called
  | abandoned
  | counted
  | createFailed
  | undone
  | launched (routine : RoutineState)
  | ended (routine : RoutineState)

/-- Where one `wait_all()` call stands. -/
inductive WaitState where
  | called
  | entered
  | waiting
  | returned
  deriving DecidableEq, Repr

/-- The count of active routines, every launch, and every wait. -/
structure ActiveState where
  goActive : Nat
  launches : List LaunchState
  waits : Nat → WaitState

def ActiveState.fresh : ActiveState where
  goActive := 0
  launches := []
  waits _ := .called

/-- `go_active_inc`. -/
def goActiveInc (goActive : Nat) : Nat :=
  goActive + 1

/-- `go_active_dec`, with its guard. -/
def goActiveDec (goActive : Nat) : Nat :=
  if 0 < goActive then goActive - 1 else goActive

/-- The test of the loop of `go_wait_all_internal`. -/
def goWaitAllInternal (goActive : Nat) : WaitState :=
  if goActive ≠ 0 then .waiting else .returned

/-- One section of a launch: before the count, of the count, or after. -/
inductive LaunchInput where
  | abandon
  | count
  | create (created : Bool)
  | undo
  | routine (input : RoutineInput)
  | decrement

inductive CountEffect where
  | none
  | inc
  | dec
  deriving DecidableEq, Repr

/-- One section of a `go()` call or of its worker. -/
def launchStep? :
    LaunchState → LaunchInput → Option (CountEffect × LaunchState)
  | .called, .abandon => some (.none, .abandoned)
  | .called, .count => some (.inc, .counted)
  | .counted, .create created =>
    some (.none, if created then .launched .fresh else .createFailed)
  | .createFailed, .undo => some (.dec, .undone)
  | .launched routine, .routine input =>
    match routineNext? routine input with
    | none => none
    | some (_, next) => some (.none, .launched next)
  -- The worker lowers the count after it published its final state.
  | .launched routine, .decrement =>
    match routine.worker with
    | .finished _ => some (.dec, .ended routine)
    | _ => none
  -- Others may still kill, time out or store the thread of the routine.
  | .ended routine, .routine input =>
    match routineNext? routine input with
    | none => none
    | some (_, next) => some (.none, .ended next)
  | _, _ => none

def CountEffect.apply (goActive : Nat) : CountEffect → Nat
  | .none => goActive
  | .inc => goActiveInc goActive
  | .dec => goActiveDec goActive

inductive ActiveEvent where
  | go (parent : Option Nat) (launch : Nat)
  | launch (launch : Nat) (effect : CountEffect)
  | wait (call : Nat) (after : WaitState)
  deriving DecidableEq

inductive ActiveInput where
  | go (parent : Option Nat)
  | launch (launch : Nat) (input : LaunchInput)
  | enterWait (call : Nat)
  | wait (call : Nat)

/-- A routine can call `go()` until its worker is over. -/
def LaunchState.mayLaunch : LaunchState → Bool
  | .launched _ => true
  | _ => false

def activeNext? (state : ActiveState) :
    ActiveInput → Option (ActiveEvent × ActiveState)
  -- A call made outside every routine, or by a routine that is not over.
  | .go parent =>
    let allowed :=
      match parent with
      | none => true
      | some launch => state.launches[launch]?.any LaunchState.mayLaunch
    if allowed then
      some (.go parent state.launches.length,
        { state with launches := state.launches ++ [.called] })
    else
      none
  | .launch launch input =>
    match state.launches[launch]? with
    | none => none
    | some before =>
      match launchStep? before input with
      | none => none
      | some (effect, after) =>
        some (.launch launch effect, { state with
            goActive := effect.apply state.goActive
            launches := state.launches.set launch after })
  | .enterWait call =>
    match state.waits call with
    | .called =>
      some (.wait call .entered, { state with
          waits := Function.update state.waits call .entered })
    | _ => none
  | .wait call =>
    if state.waits call = .entered ∨ state.waits call = .waiting then
      let after := goWaitAllInternal state.goActive
      some (.wait call after, { state with
          waits := Function.update state.waits call after })
    else
      none

/-- All launches and waits of the process, in any order. -/
def activeSystem : TransitionSystem ActiveState ActiveEvent :=
  .ofNext (fun state => state = .fresh) activeNext?

inductive ActiveEffect (state : ActiveState) :
    ActiveEvent → ActiveState → Prop where
  | go
      (parent : Option Nat) :
      ActiveEffect state (.go parent state.launches.length)
        { state with launches := state.launches ++ [.called] }
  | launch
      {launch : Nat}
      {before after : LaunchState}
      {input : LaunchInput}
      {effect : CountEffect}
      (stands : state.launches[launch]? = some before)
      (advance : launchStep? before input = some (effect, after)) :
      ActiveEffect state (.launch launch effect)
        { state with
          goActive := effect.apply state.goActive
          launches := state.launches.set launch after }
  | enterWait
      {call : Nat}
      (called : state.waits call = .called) :
      ActiveEffect state (.wait call .entered)
        { state with
          waits := Function.update state.waits call .entered }
  | wait
      {call : Nat}
      (inside :
        state.waits call = .entered ∨ state.waits call = .waiting) :
      ActiveEffect state
        (.wait call (goWaitAllInternal state.goActive))
        { state with
          waits :=
            Function.update state.waits call
              (goWaitAllInternal state.goActive) }

variable {state : ActiveState} {event : ActiveEvent}

theorem activeStep_effect {next : ActiveState}
    (step : activeSystem.step state event next) :
    ActiveEffect state event next := by
  obtain ⟨input, advance⟩ := step
  cases input with
  | go parent =>
    simp only [activeNext?] at advance
    split at advance
    all_goals
      split at advance
      · obtain ⟨rfl, rfl⟩ := by simpa using advance
        exact .go _
      · cases advance
  | launch launch input =>
    simp only [activeNext?] at advance
    split at advance
    · cases advance
    · next before stands =>
        split at advance
        · cases advance
        · next effect after entered =>
            obtain ⟨rfl, rfl⟩ := by simpa using advance
            exact .launch stands entered
  | enterWait call =>
    simp only [activeNext?] at advance
    split at advance
    · next called =>
        obtain ⟨rfl, rfl⟩ := by simpa using advance
        exact .enterWait called
    · cases advance
  | wait call =>
    simp only [activeNext?] at advance
    split at advance
    · next inside =>
        obtain ⟨rfl, rfl⟩ := by simpa using advance
        exact .wait inside
    · cases advance

/-! The count. -/

/-- A launch that raised the count and did not lower it yet. -/
def LaunchState.active : LaunchState → Bool
  | .counted => true
  | .createFailed => true
  | .launched _ => true
  | _ => false

def LaunchState.Launched : LaunchState → Prop
  | .counted => True
  | .createFailed => True
  | .launched _ => True
  | .ended _ => True
  | _ => False

def LaunchState.Terminal : LaunchState → Prop
  | .ended routine =>
    ∃ final,
      routine.worker = .finished final ∧
        routine.control.state = final ∧
        final ≠ .running
  | _ => False

def LaunchState.Sound : LaunchState → Prop
  | .launched routine => routine.Tracked
  | .ended routine =>
    routine.Tracked ∧ ∃ final, routine.worker = .finished final
  | _ => True

variable {input : LaunchInput} {effect : CountEffect}

theorem launchStep?_active {before after : LaunchState}
    (advance : launchStep? before input = some (effect, after)) :
    (effect = .none ∧ after.active = before.active) ∨
    (effect = .inc ∧ before.active = false ∧ after.active = true) ∨
    (effect = .dec ∧ before.active = true ∧ after.active = false) := by
  unfold launchStep? at advance
  split at advance <;> (try split at advance)
  all_goals
    simp only [Option.some.injEq, Prod.mk.injEq, reduceCtorEq]
      at advance <;>
    obtain ⟨rfl, rfl⟩ := advance
  all_goals simp [LaunchState.active]

theorem RoutineEffect.worker_finished {routine next : RoutineState}
    {event : RoutineEvent} (effect : RoutineEffect routine event next)
    {final : GoState} (finished : routine.worker = .finished final) :
    next.worker = .finished final := by
  cases effect with
  | worker advance =>
    rw [finished] at advance
    simp [workerStep?] at advance
  | _ => exact finished

/-- Every section keeps the routine of its launch sound. -/
theorem launchStep?_sound {before after : LaunchState} (sound : before.Sound)
    (advance : launchStep? before input = some (effect, after)) :
    after.Sound := by
  cases before with
  | called =>
    cases input <;> simp [launchStep?] at advance
    · rw [← advance.2]
      trivial
    · rw [← advance.2]
      trivial
  | abandoned => simp [launchStep?] at advance
  | counted =>
    cases input <;> simp [launchStep?] at advance
    rename_i created
    cases created
    · rw [← advance.2]
      trivial
    · rw [← advance.2]
      exact RoutineInvariant.fresh.tracked
  | createFailed =>
    cases input <;> simp [launchStep?] at advance
    rw [← advance.2]
    trivial
  | undone => simp [launchStep?] at advance
  | launched routine =>
    cases input with
    | routine input =>
      simp only [launchStep?] at advance
      split at advance
      · cases advance
      · next event next moved =>
          obtain ⟨rfl, rfl⟩ := by simpa using advance
          exact (routineNext?_effect moved).tracked sound
    | decrement =>
      simp only [launchStep?] at advance
      split at advance
      · next final finished =>
          obtain ⟨rfl, rfl⟩ := by simpa using advance
          exact ⟨sound, final, finished⟩
      · cases advance
    | _ => simp [launchStep?] at advance
  | ended routine =>
    obtain ⟨tracked, final, finished⟩ := sound
    cases input with
    | routine input =>
      simp only [launchStep?] at advance
      split at advance
      · cases advance
      · next event next moved =>
          obtain ⟨rfl, rfl⟩ := by simpa using advance
          have effect := routineNext?_effect moved
          exact ⟨effect.tracked tracked, final,
            effect.worker_finished finished⟩
    | _ => simp [launchStep?] at advance

theorem LaunchState.Sound.terminal {launch : LaunchState}
    (sound : launch.Sound) (inactive : launch.active = false)
    (launched : launch.Launched) :
    launch.Terminal := by
  cases launch with
  | ended routine =>
    obtain ⟨tracked, final, finished⟩ := sound
    exact ⟨final, finished, tracked.afterwards finished,
      tracked.verdict (Or.inr finished)⟩
  | called => exact launched.elim
  | abandoned => exact launched.elim
  | undone => exact launched.elim
  | _ => cases inactive

/-- The count is the number of active launches, and their routines are sound. -/
structure ActiveState.Counts (state : ActiveState) : Prop where
  counted : state.goActive = state.launches.countP LaunchState.active
  sound : ∀ {launch}, launch ∈ state.launches → launch.Sound

theorem ActiveState.Counts.positive (counts : state.Counts) {launch : Nat}
    {before : LaunchState} (stands : state.launches[launch]? = some before)
    (active : before.active = true) :
    0 < state.goActive := by
  rw [counts.counted, List.countP_pos_iff]
  exact ⟨before, List.mem_of_getElem? stands, active⟩

theorem ActiveState.Counts.move (counts : state.Counts) {launch : Nat}
    {before after : LaunchState}
    (stands : state.launches[launch]? = some before)
    (advance : launchStep? before input = some (effect, after)) :
    effect.apply state.goActive =
      (state.launches.set launch after).countP LaunchState.active := by
  obtain ⟨inBounds, at_launch⟩ := List.getElem?_eq_some_iff.mp stands
  rw [List.countP_set inBounds, at_launch, ← counts.counted]
  rcases launchStep?_active advance with
    ⟨rfl, same⟩ | ⟨rfl, wasInactive, isActive⟩ |
    ⟨rfl, wasActive, isInactive⟩
  · rw [same]
    cases active : before.active with
    | false => simp [CountEffect.apply]
    | true =>
      have positive := counts.positive stands active
      simp [CountEffect.apply]
      omega
  · simp [CountEffect.apply, goActiveInc, wasInactive, isActive]
  · have positive := counts.positive stands wasActive
    simp [CountEffect.apply, goActiveDec, wasActive, isInactive, positive]

theorem ActiveEffect.counts {next : ActiveState}
    (effect : ActiveEffect state event next) (counts : state.Counts) :
    next.Counts := by
  cases effect with
  | go parent =>
    refine ⟨?_, ?_⟩
    · simpa [LaunchState.active] using counts.counted
    · intro launch member
      rcases List.mem_append.mp member with earlier | latest
      · exact counts.sound earlier
      · obtain rfl := List.mem_singleton.mp latest
        trivial
  | launch stands advance =>
    refine ⟨counts.move stands advance, ?_⟩
    intro launch member
    rcases List.mem_or_eq_of_mem_set member with other | rfl
    · exact counts.sound other
    · exact launchStep?_sound
        (counts.sound (List.mem_of_getElem? stands)) advance
  | enterWait called => exact ⟨counts.counted, counts.sound⟩
  | wait inside => exact ⟨counts.counted, counts.sound⟩

variable {trace : List ActiveEvent}

theorem counts_of_execution
    (execution : activeSystem.Execution trace state) :
    state.Counts := by
  refine execution.invariant (fun _ state => state.Counts)
    ?_ ?_
  · rintro _ rfl
    exact ⟨rfl, by simp [ActiveState.fresh]⟩
  · intro trace state event next counts step
    exact (activeStep_effect step).counts counts

/-! The waits. -/

/-- The trace tells where every `wait_all()` call stands. -/
structure ActiveState.Waits
    (trace : List ActiveEvent) (state : ActiveState) : Prop where
  entered :
    ∀ {call},
      state.waits call ≠ .called →
      .wait call .entered ∈ trace
  returned :
    ∀ {call},
      .wait call .returned ∈ trace →
      state.waits call = .returned

theorem ActiveState.Waits.quiet {next : ActiveState}
    (waits : state.Waits trace)
    (notWait : ∀ call after, event ≠ .wait call after)
    (same : next.waits = state.waits) :
    next.Waits (trace ++ [event]) where
  entered := by
    intro call inside
    rw [same] at inside
    exact List.mem_append_left _ (waits.entered inside)
  returned := by
    intro call member
    rw [same]
    rcases List.mem_append.mp member with earlier | latest
    · exact waits.returned earlier
    · exact (notWait call .returned
        (List.mem_singleton.mp latest).symm).elim

theorem ActiveState.Waits.move {call : Nat} {after : WaitState}
    (waits : state.Waits trace) (notReturned : state.waits call ≠ .returned)
    (wasEntered :
      after = .entered ∨ .wait call .entered ∈ trace) :
    ActiveState.Waits (trace ++ [.wait call after])
      { state with
        waits := Function.update state.waits call after } where
  entered := by
    intro other inside
    by_cases same : other = call
    · subst same
      rcases wasEntered with rfl | earlier
      · simp
      · exact List.mem_append_left _ earlier
    · refine List.mem_append_left _ (waits.entered ?_)
      simpa [same] using inside
  returned := by
    intro other member
    rcases List.mem_append.mp member with earlier | latest
    · have different : other ≠ call := by
        rintro rfl
        exact notReturned (waits.returned earlier)
      simpa [different] using waits.returned earlier
    · obtain ⟨rfl, rfl⟩ := by simpa using latest
      simp

theorem ActiveEffect.waits {next : ActiveState}
    (effect : ActiveEffect state event next) (waits : state.Waits trace) :
    next.Waits (trace ++ [event]) := by
  cases effect with
  | go parent => exact waits.quiet (by simp) rfl
  | launch stands advance => exact waits.quiet (by simp) rfl
  | enterWait called =>
    exact waits.move (by simp [called]) (Or.inl rfl)
  | wait inside =>
    refine waits.move ?_ (Or.inr (waits.entered ?_))
    · rcases inside with stands | stands <;> simp [stands]
    · rcases inside with stands | stands <;> simp [stands]

theorem waits_of_execution (execution : activeSystem.Execution trace state) :
    state.Waits trace := by
  refine execution.invariant
    (fun trace state => state.Waits trace) ?_ ?_
  · rintro _ rfl
    exact ⟨by simp [ActiveState.fresh], by simp⟩
  · intro trace state event next waits step
    exact (activeStep_effect step).waits waits

theorem goActive_eq_zero_of_returned {next : ActiveState} {call : Nat}
    (step : activeSystem.step state (.wait call .returned) next) :
    state.goActive = 0 := by
  have effect := activeStep_effect step
  generalize result : ActiveEvent.wait call .returned = event at effect
  cases effect with
  | wait inside =>
    obtain ⟨_, returned⟩ := by simpa using result
    by_contra busy
    simp [goWaitAllInternal, busy] at returned
  | _ => cases result

/--
In every execution the count is the number of launches that raised it and did
not lower it again, no section finds it zero when it is about to lower it, and
when a `wait_all()` call returns there was a moment after it was entered and
before it returned at which every launch so far was over and had published a
terminal state.
-/
theorem wait_all_barrier {trace : List ActiveEvent} {state : ActiveState}
    (execution : activeSystem.Execution trace state) :
    state.goActive = state.launches.countP LaunchState.active ∧
    (∀ launch next, activeSystem.step state (.launch launch .dec) next →
      0 < state.goActive) ∧
    (∀ earlier later call, trace = earlier ++ .wait call .returned :: later →
      ∃ moment,
        activeSystem.Execution earlier moment ∧
        activeSystem.Run moment (.wait call .returned :: later) state ∧
        .wait call .entered ∈ earlier ∧
        .wait call .returned ∉ earlier ∧
        ∀ launch ∈ moment.launches,
          launch.Launched → launch.Terminal) := by
  have counts := counts_of_execution execution
  refine ⟨counts.counted, ?_, ?_⟩
  · intro launch next step
    have effect := activeStep_effect step
    generalize result : ActiveEvent.launch launch .dec = event at effect
    cases effect with
    | launch stands advance =>
      obtain ⟨_, rfl⟩ := by simpa using result
      rcases launchStep?_active advance with
        ⟨same, _⟩ | ⟨same, _⟩ | ⟨_, wasActive, _⟩
      · cases same
      · cases same
      · exact counts.positive stands wasActive
    | _ => cases result
  · rintro earlier later call rfl
    obtain ⟨moment, after, reached, step, rest⟩ := execution.split_cons
    have waits := waits_of_execution reached
    have momentCounts := counts_of_execution reached
    have noneActive :
        moment.launches.countP LaunchState.active = 0 := by
      rw [← momentCounts.counted]
      exact goActive_eq_zero_of_returned step
    have inside : moment.waits call ≠ .called ∧
        moment.waits call ≠ .returned := by
      have effect := activeStep_effect step
      generalize result : ActiveEvent.wait call .returned = event
        at effect
      cases effect with
      | wait inside =>
        obtain ⟨rfl, _⟩ := by simpa using result
        rcases inside with stands | stands <;> simp [stands]
      | _ => cases result
    refine ⟨moment, reached, ?_, waits.entered inside.1,
      fun member => inside.2 (waits.returned member), ?_⟩
    · simpa using (TransitionSystem.Run.single step).append rest
    · intro launch member launched
      have inactive := List.countP_eq_zero.mp noneActive launch member
      exact (momentCounts.sound member).terminal
        (by simpa using inactive) launched

/-- A wait that outlives a routine and the routine that one launched. -/
theorem wait_all_barrier_nested :
    ∃ trace state,
      activeSystem.Execution trace state ∧
        state.goActive = state.launches.countP LaunchState.active ∧
        state.launches.length = 2 ∧
        state.waits 0 = .returned := by
  let finish : Nat → List ActiveInput := fun launch => [
    .launch launch (.routine (.worker .unwind)),
    .launch launch (.routine (.worker .classify)),
    .launch launch (.routine (.worker .finish)),
    .launch launch .decrement]
  obtain ⟨trace, state, execution, reached⟩ :=
    TransitionSystem.Execution.of_runInputs
      (fun state => state = .fresh)
      (activeNext?)
      (.fresh)
      ([
        .go none, .launch 0 .count, .launch 0 (.create true),
        .enterWait 0, .wait 0,
        .go (some 0), .launch 1 .count, .launch 1 (.create true)] ++
        finish 0 ++ [.wait 0] ++ finish 1 ++ [.wait 0])
      (fun _ state =>
        decide (state.launches.length = 2 ∧ state.waits 0 = .returned))
      rfl (by decide)
  obtain ⟨two, returned⟩ :
      state.launches.length = 2 ∧ state.waits 0 = .returned := by
    simpa using reached
  exact ⟨trace, state, execution, (wait_all_barrier execution).1,
    two, returned⟩

end DeveloperDashboard.GoRoutine
