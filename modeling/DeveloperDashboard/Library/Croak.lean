namespace Library

/-!
# Computations that may croak

State-passing computations with a non-local exit that keeps the state it was
raised in, so that what an interrupted operation leaves behind can be stated.
A run may also have no defined meaning, or stop because the fuel of a
recursion ended.  `Ends` says that a run takes one of its two exits, with a
postcondition for each; `Finishes` says that it does not croak; `Keeps` says
that a computation leaves a measure of the state as it was at either exit.
-/

/-- How a computation over a state ends. -/
inductive Outcome (Error State Value : Type) where
  | returned (value : Value) (state : State)
  | croaked (error : Error) (state : State)
  | undefined
  | outOfFuel

def Croak (Error State Value : Type) : Type :=
  State → Outcome Error State Value

namespace Croak

variable {Error State Value Result : Type}

def return' (value : Value) : Croak Error State Value :=
  fun state => .returned value state

def croak (error : Error) : Croak Error State Value :=
  fun state => .croaked error state

/-- A step without a defined meaning. -/
def undefined : Croak Error State Value :=
  fun _ => .undefined

def outOfFuel : Croak Error State Value :=
  fun _ => .outOfFuel

/-- Run one computation and then the next, unless the first one croaks. -/
def andThen (first : Croak Error State Value)
    (rest : Value → Croak Error State Result) :
    Croak Error State Result :=
  fun state =>
    match first state with
    | .returned value next => rest value next
    | .croaked error next => .croaked error next
    | .undefined => .undefined
    | .outOfFuel => .outOfFuel

instance : Monad (Croak Error State) where
  pure := return'
  bind := andThen

def get : Croak Error State State :=
  fun state => .returned state state

def modify (change : State → State) : Croak Error State Unit :=
  fun state => .returned () (change state)

def zoom {Part : Type} (project : State → Part)
    (inject : Part → State → State) (inner : Croak Error Part Value) :
    Croak Error State Value :=
  fun state =>
    match inner (project state) with
    | .returned value part => .returned value (inject part state)
    | .croaked error part => .croaked error (inject part state)
    | .undefined => .undefined
    | .outOfFuel => .outOfFuel

end Croak

namespace Outcome

variable {Error State Value Result : Type}

/-- A run ends in one of the two exits with the given postconditions. -/
def Ends (returns : Value → State → Prop) (croaks : Error → State → Prop) :
    Outcome Error State Value → Prop
  | .returned value state => returns value state
  | .croaked error state => croaks error state
  | .undefined => False
  | .outOfFuel => False

/-- A run that neither croaks nor runs out of fuel. -/
def Finishes : Outcome Error State Value → Prop
  | .returned _ _ => True
  | .croaked _ _ => False
  | .undefined => True
  | .outOfFuel => False

theorem Ends.mono {outcome : Outcome Error State Value}
    {returns weakerReturns : Value → State → Prop}
    {croaks weakerCroaks : Error → State → Prop}
    (ends : outcome.Ends returns croaks)
    (onReturn :
      ∀ value state, returns value state → weakerReturns value state)
    (onCroak :
      ∀ error state, croaks error state → weakerCroaks error state) :
    outcome.Ends weakerReturns weakerCroaks := by
  cases outcome with
  | returned value state => exact onReturn value state ends
  | croaked error state => exact onCroak error state ends
  | undefined => exact ends
  | outOfFuel => exact ends

theorem Ends.andThen {first : Croak Error State Value}
    {rest : Value → Croak Error State Result} {state : State}
    {middle : Value → State → Prop} {returns : Result → State → Prop}
    {croaks : Error → State → Prop}
    (firstEnds : (first state).Ends middle croaks)
    (restEnds :
      ∀ value next,
        middle value next → (rest value next).Ends returns croaks) :
    ((first >>= rest) state).Ends returns croaks := by
  change (Croak.andThen first rest state).Ends returns croaks
  unfold Croak.andThen
  cases ran : first state with
  | returned value next =>
    rw [ran] at firstEnds
    exact restEnds value next firstEnds
  | croaked error next =>
    rw [ran] at firstEnds
    exact firstEnds
  | undefined =>
    rw [ran] at firstEnds
    exact firstEnds
  | outOfFuel =>
    rw [ran] at firstEnds
    exact firstEnds

end Outcome

namespace Croak

variable {Error State Value Result : Type}

theorem andThen_assoc {Last : Type} (first : Croak Error State Value)
    (middle : Value → Croak Error State Result)
    (last : Result → Croak Error State Last) :
    (first >>= middle) >>= last =
      first >>= fun value => middle value >>= last := by
  funext state
  change andThen (andThen first middle) last state =
    andThen first (fun value => andThen (middle value) last) state
  unfold andThen
  cases first state <;> rfl

@[simp] theorem pure_apply (value : Value) (state : State) :
    (pure value : Croak Error State Value) state =
      .returned value state :=
  rfl

theorem bind_of_returned {first : Croak Error State Value}
    {state next : State} {value : Value}
    (returned : first state = .returned value next)
    (rest : Value → Croak Error State Result) :
    (first >>= rest) state = rest value next := by
  change andThen first rest state = rest value next
  rw [andThen, returned]

theorem bind_of_croaked {first : Croak Error State Value}
    {state next : State} {error : Error}
    (croaked : first state = .croaked error next)
    (rest : Value → Croak Error State Result) :
    (first >>= rest) state = .croaked error next := by
  change andThen first rest state = .croaked error next
  rw [andThen, croaked]

theorem bind_of_undefined {first : Croak Error State Value} {state : State}
    (isUndefined : first state = .undefined)
    (rest : Value → Croak Error State Result) :
    (first >>= rest) state = .undefined := by
  change andThen first rest state = .undefined
  rw [andThen, isUndefined]

theorem bind_of_outOfFuel {first : Croak Error State Value} {state : State}
    (isOut : first state = .outOfFuel)
    (rest : Value → Croak Error State Result) :
    (first >>= rest) state = .outOfFuel := by
  change andThen first rest state = .outOfFuel
  rw [andThen, isOut]

@[simp] theorem modify_bind_apply (change : State → State)
    (rest : Unit → Croak Error State Result) (state : State) :
    (modify change >>= rest) state = rest () (change state) :=
  rfl

@[simp] theorem get_bind_apply (rest : State → Croak Error State Result)
    (state : State) :
    (get >>= rest) state = rest state state :=
  rfl

@[simp] theorem pure_bind_apply (value : Value)
    (rest : Value → Croak Error State Result) (state : State) :
    (pure value >>= rest) state = rest value state :=
  rfl

section Keeps

variable {Measure : Type}

/-- Either exit leaves a measure of the state as it was. -/
def Keeps (measure : State → Measure)
    (computation : Croak Error State Value) : Prop :=
  ∀ state,
    match computation state with
    | .returned _ next => measure next = measure state
    | .croaked _ next => measure next = measure state
    | .undefined => True
    | .outOfFuel => True

variable {measure : State → Measure}

namespace Keeps

theorem pure (value : Value) :
    Keeps measure (Pure.pure value : Croak Error State Value) :=
  fun _ => rfl

theorem croak (error : Error) :
    Keeps measure (Croak.croak error : Croak Error State Value) :=
  fun _ => rfl

theorem undefined :
    Keeps measure (Croak.undefined : Croak Error State Value) :=
  fun _ => trivial

theorem outOfFuel :
    Keeps measure (Croak.outOfFuel : Croak Error State Value) :=
  fun _ => trivial

theorem get : Keeps measure (Croak.get : Croak Error State State) :=
  fun _ => rfl

theorem modify {change : State → State}
    (same : ∀ state, measure (change state) = measure state) :
    Keeps measure (Croak.modify change : Croak Error State Unit) :=
  same

/-- One computation after the other. -/
theorem andThen {first : Croak Error State Value}
    {rest : Value → Croak Error State Result}
    (firstKeeps : Keeps measure first)
    (restKeeps : ∀ value, Keeps measure (rest value)) :
    Keeps measure (first >>= rest) := by
  intro state
  have kept := firstKeeps state
  change match Croak.andThen first rest state with
    | .returned _ next => measure next = measure state
    | .croaked _ next => measure next = measure state
    | .undefined => True
    | .outOfFuel => True
  unfold Croak.andThen
  cases ran : first state with
  | returned value next =>
    rw [ran] at kept
    have later := restKeeps value next
    dsimp only at kept ⊢
    rw [← kept]
    exact later
  | croaked error next =>
    rw [ran] at kept
    exact kept
  | undefined => trivial
  | outOfFuel => trivial

theorem zoom {Part : Type} {project : State → Part}
    {inject : Part → State → State} {partMeasure : Part → Measure}
    {inner : Croak Error Part Value} (innerKeeps : Keeps partMeasure inner)
    (reads : ∀ state, measure state = partMeasure (project state))
    (injects :
      ∀ part state, measure (inject part state) = partMeasure part) :
    Keeps measure (Croak.zoom project inject inner) := by
  intro state
  have kept := innerKeeps (project state)
  unfold Croak.zoom
  cases ran : inner (project state) with
  | returned value part =>
    rw [ran] at kept
    dsimp only at kept ⊢
    rw [injects, kept, reads]
  | croaked error part =>
    rw [ran] at kept
    dsimp only at kept ⊢
    rw [injects, kept, reads]
  | undefined => trivial
  | outOfFuel => trivial

end Keeps

end Keeps

end Croak

end Library
