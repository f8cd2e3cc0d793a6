import Mathlib.Data.List.Induction

namespace Library

/-!
# Labelled transition systems

Finite executions of a nondeterministic system, with the trace of the events
that the steps emitted.  The module fixes the three rules that every
development over such systems needs: an invariant of all executions from an
invariant of one step, the restriction of a system to the steps that meet a
condition, and trace inclusion from a forward simulation.
-/

theorem snoc_eq_append_cons {Event : Type} {trace earlier later : List Event}
    {latest event : Event}
    (whole : trace ++ [latest] = earlier ++ event :: later) :
    (trace = earlier ∧ latest = event ∧ later = []) ∨
      ∃ between,
        trace = earlier ++ event :: between ∧
          later = between ++ [latest] := by
  rcases List.eq_nil_or_concat later with rfl | ⟨between, last, rfl⟩
  · obtain ⟨sameTrace, sameEvent⟩ := List.append_inj' whole rfl
    exact Or.inl ⟨sameTrace, by simpa using sameEvent, rfl⟩
  · right
    rw [List.concat_eq_append] at whole ⊢
    have regrouped :
        trace ++ [latest] = (earlier ++ event :: between) ++ [last] := by
      simpa using whole
    obtain ⟨sameTrace, sameEvent⟩ := List.append_inj' regrouped rfl
    obtain rfl : latest = last := by simpa using sameEvent
    exact ⟨between, sameTrace, rfl⟩

/-- A set of initial states and a step relation that emits one event. -/
structure TransitionSystem (State Event : Type) where
  initial : State → Prop
  step : State → Event → State → Prop

namespace TransitionSystem

variable {State Event : Type}

/-- Finite continuations from a given state, with their events in order. -/
inductive Run
    (system : TransitionSystem State Event) :
    State → List Event → State → Prop where
  | refl (state : State) :
      Run system state [] state
  | extend
      {first middle last : State}
      {trace : List Event}
      {event : Event} :
      Run system first trace middle →
      system.step middle event last →
      Run system first (trace ++ [event]) last

/-- The trace and the last state of a finite run from an initial state. -/
inductive Execution
    (system : TransitionSystem State Event) :
    List Event → State → Prop where
  | start {state : State} :
      system.initial state →
      Execution system [] state
  | extend
      {trace : List Event}
      {state next : State}
      {event : Event} :
      Execution system trace state →
      system.step state event next →
      Execution system (trace ++ [event]) next

namespace Run

variable {system : TransitionSystem State Event}

theorem single {first last : State} {event : Event}
    (step : system.step first event last) :
    system.Run first [event] last := by
  simpa using (Run.refl first).extend step

theorem append {first middle last : State} {leading trailing : List Event}
    (earlier : system.Run first leading middle)
    (later : system.Run middle trailing last) :
    system.Run first (leading ++ trailing) last := by
  induction later with
  | refl =>
    simpa using earlier
  | extend _ step ih =>
    rw [← List.append_assoc]
    exact ih.extend step

theorem invariant {first last : State} {trace : List Event}
    (run : system.Run first trace last) (holds : State → Prop)
    (preserved :
      ∀ {state event next},
        holds state →
        system.step state event next →
        holds next)
    (initially : holds first) :
    holds last := by
  induction run with
  | refl =>
    exact initially
  | extend _ step ih =>
    exact preserved ih step

end Run

namespace Execution

variable {system : TransitionSystem State Event}

theorem append {leading trailing : List Event} {middle last : State}
    (execution : system.Execution leading middle)
    (run : system.Run middle trailing last) :
    system.Execution (leading ++ trailing) last := by
  induction run with
  | refl =>
    simpa using execution
  | extend _ step ih =>
    rw [← List.append_assoc]
    exact ih.extend step

theorem invariant {trace : List Event} {state : State}
    (execution : system.Execution trace state)
    (holds : List Event → State → Prop)
    (initially :
      ∀ {state}, system.initial state → holds [] state)
    (preserved :
      ∀ {trace state event next},
        holds trace state →
        system.step state event next →
        holds (trace ++ [event]) next) :
    holds trace state := by
  induction execution with
  | start isInitial =>
    exact initially isInitial
  | extend _ step ih =>
    exact preserved ih step

theorem last_step {trace : List Event} {event : Event} {state : State}
    (execution : system.Execution (trace ++ [event]) state) :
    ∃ before,
      system.Execution trace before ∧
        system.step before event state := by
  generalize whole : trace ++ [event] = emitted at execution
  cases execution with
  | start =>
    simp at whole
  | extend earlier step =>
    obtain ⟨sameTrace, sameEvent⟩ :=
      List.append_inj' whole rfl
    obtain rfl : trace = _ := sameTrace
    obtain rfl : event = _ := by simpa using sameEvent
    exact ⟨_, earlier, step⟩

theorem split {leading trailing : List Event} {state : State}
    (execution : system.Execution (leading ++ trailing) state) :
    ∃ middle,
      system.Execution leading middle ∧
        system.Run middle trailing state := by
  induction trailing using List.reverseRecOn generalizing state with
  | nil =>
    exact ⟨state, by simpa using execution, .refl state⟩
  | append_singleton trailing event ih =>
    rw [← List.append_assoc] at execution
    obtain ⟨before, earlier, step⟩ := execution.last_step
    obtain ⟨middle, leadingPart, rest⟩ :=
      ih earlier
    exact ⟨middle, leadingPart, rest.extend step⟩

theorem split_cons {leading trailing : List Event} {event : Event}
    {state : State}
    (execution :
      system.Execution (leading ++ event :: trailing) state) :
    ∃ before after,
      system.Execution leading before ∧
        system.step before event after ∧
        system.Run after trailing state := by
  rw [← List.singleton_append, ← List.append_assoc] at execution
  obtain ⟨after, reached, rest⟩ := execution.split
  obtain ⟨before, earlier, step⟩ := reached.last_step
  exact ⟨before, after, earlier, step, rest⟩

end Execution

/-- The same system with only the steps that meet a condition. -/
def restrict (system : TransitionSystem State Event)
    (allowed : State → Event → Prop) :
    TransitionSystem State Event where
  initial := system.initial
  step state event next :=
    system.step state event next ∧ allowed state event

theorem Execution.of_restrict {system : TransitionSystem State Event}
    {allowed : State → Event → Prop} {trace : List Event} {state : State}
    (execution : (system.restrict allowed).Execution trace state) :
    system.Execution trace state := by
  induction execution with
  | start isInitial =>
    exact .start isInitial
  | extend _ step ih =>
    exact ih.extend step.1

/-- The system of a function that computes a step from an outside input. -/
def ofNext {Input : Type} (initial : State → Prop)
    (next? : State → Input → Option (Event × State)) :
    TransitionSystem State Event where
  initial := initial
  step state event next :=
    ∃ input, next? state input = some (event, next)

/-- The steps of a function that meet a decidable condition. -/
def guarded {Input : Type} (allowed : State → Event → Prop)
    [∀ state event, Decidable (allowed state event)]
    (next? : State → Input → Option (Event × State)) (state : State)
    (input : Input) :
    Option (Event × State) :=
  match next? state input with
  | none => none
  | some (event, next) =>
    if allowed state event then some (event, next) else none

theorem Execution.restrict_of_guarded {Input : Type} {initial : State → Prop}
    {allowed : State → Event → Prop}
    [∀ state event, Decidable (allowed state event)]
    {next? : State → Input → Option (Event × State)} {trace : List Event}
    {state : State}
    (execution :
      (ofNext initial (guarded allowed next?)).Execution trace state) :
    ((ofNext initial next?).restrict allowed).Execution trace state := by
  induction execution with
  | start isInitial =>
    exact .start isInitial
  | extend _ step ih =>
    refine ih.extend ?_
    obtain ⟨input, advance⟩ := step
    unfold guarded at advance
    split at advance
    · cases advance
    · next event next taken =>
        split at advance
        · next holds =>
            obtain ⟨rfl, rfl⟩ := by simpa using advance
            exact ⟨⟨input, taken⟩, holds⟩
        · cases advance

def runInputs {Input : Type}
    (next? : State → Input → Option (Event × State)) :
    State → List Input → Option (List Event × State)
  | state, [] => some ([], state)
  | state, input :: rest =>
    match next? state input with
    | none => none
    | some (event, next) =>
      match runInputs next? next rest with
      | none => none
      | some (trace, last) => some (event :: trace, last)

/-- Inputs that run through form a run of the system. -/
theorem Run.of_runInputs {Input : Type} {initial : State → Prop}
    {next? : State → Input → Option (Event × State)} {inputs : List Input}
    {first last : State} {trace : List Event}
    (ran : runInputs next? first inputs = some (trace, last)) :
    (ofNext initial next?).Run first trace last := by
  induction inputs generalizing first trace with
  | nil =>
    obtain ⟨rfl, rfl⟩ : [] = trace ∧ first = last := by
      simpa [runInputs] using ran
    exact .refl first
  | cons input rest ih =>
    unfold runInputs at ran
    cases advance : next? first input with
    | none =>
      simp [advance] at ran
    | some result =>
      obtain ⟨event, next⟩ := result
      cases remaining : runInputs next? next rest with
      | none =>
        simp [advance, remaining] at ran
      | some result =>
        obtain ⟨later, final⟩ := result
        simp only [advance, remaining, Option.some.injEq,
          Prod.mk.injEq] at ran
        obtain ⟨rfl, rfl⟩ := ran
        have firstStep :
            (ofNext initial next?).step first event next :=
          ⟨input, advance⟩
        exact (Run.single firstStep).append
          (ih remaining)

theorem Execution.of_runInputs {Input : Type} (initial : State → Prop)
    (next? : State → Input → Option (Event × State)) (first : State)
    (inputs : List Input) (check : List Event → State → Bool)
    (isInitial : initial first)
    (ran :
      (runInputs next? first inputs).any
        (fun result => check result.1 result.2) = true) :
    ∃ trace last,
      (ofNext initial next?).Execution trace last ∧
        check trace last = true := by
  cases result : runInputs next? first inputs with
  | none =>
    simp [result] at ran
  | some reached =>
    obtain ⟨trace, last⟩ := reached
    have starts : (ofNext initial next?).Execution [] first :=
      .start isInitial
    refine ⟨trace, last, ?_, by simpa [result] using ran⟩
    simpa using starts.append (Run.of_runInputs result)

inductive StepOrStay
    (system : TransitionSystem State Event) :
    State → Option Event → State → Prop where
  | stay (state : State) :
      StepOrStay system state none state
  | step
      {state next : State}
      {event : Event} :
      system.step state event next →
      StepOrStay system state (some event) next

/--
A forward simulation: every concrete step is matched by one abstract step
with the projected event, or by none when the event projects to nothing.
-/
structure Simulation
    {AbstractState AbstractEvent : Type}
    (concrete : TransitionSystem State Event)
    (abstract : TransitionSystem AbstractState AbstractEvent)
    (project : Event → Option AbstractEvent)
    (related : State → AbstractState → Prop) : Prop where
  initially :
    ∀ {state},
      concrete.initial state →
      ∃ spec, abstract.initial spec ∧ related state spec
  advances :
    ∀ {state event next spec},
      related state spec →
      concrete.step state event next →
      ∃ nextSpec,
        abstract.StepOrStay spec (project event) nextSpec ∧
          related next nextSpec

theorem Simulation.execution {AbstractState AbstractEvent : Type}
    {concrete : TransitionSystem State Event}
    {abstract : TransitionSystem AbstractState AbstractEvent}
    {project : Event → Option AbstractEvent}
    {related : State → AbstractState → Prop}
    (simulation : Simulation concrete abstract project related)
    {trace : List Event} {state : State}
    (execution : concrete.Execution trace state) :
    ∃ spec,
      abstract.Execution (trace.filterMap project) spec ∧
        related state spec := by
  induction execution with
  | start isInitial =>
    obtain ⟨spec, specInitial, isRelated⟩ :=
      simulation.initially isInitial
    exact ⟨spec, .start specInitial, isRelated⟩
  | @extend trace state next event _ step ih =>
    obtain ⟨spec, specExecution, isRelated⟩ := ih
    obtain ⟨nextSpec, advance, nextRelated⟩ :=
      simulation.advances isRelated step
    refine ⟨nextSpec, ?_, nextRelated⟩
    rw [List.filterMap_append]
    generalize projected : project event = emitted at advance
    cases advance with
    | stay =>
      simpa [projected] using specExecution
    | step specStep =>
      simpa [projected] using specExecution.extend specStep

end TransitionSystem

end Library
