import DeveloperDashboard.Library.Transition

namespace Library

/-!
# Procedures that can be cut off

A procedure performs calls on a world and goes on with the answers.  The
outside chooses how each call goes, and what it shows before it is answered.
`CrashSafe` says that a condition holds in every world on the way, so wherever
the procedure is cut off, and that the result fits the last world.
-/

inductive Procedure (Call Answer Result : Type) where
  | finish (result : Result)
  | perform (call : Call) (next : Answer → Procedure Call Answer Result)

namespace Procedure

variable {Call Answer Result Other World Choice : Type}

def andThen :
    Procedure Call Answer Result →
      (Result → Procedure Call Answer Other) →
        Procedure Call Answer Other
  | .finish result, rest => rest result
  | .perform call next, rest =>
    .perform call fun answer => (next answer).andThen rest

instance : Monad (Procedure Call Answer) where
  pure := .finish
  bind := andThen

def ask (call : Call) : Procedure Call Answer Answer :=
  .perform call .finish

def mapCall {OtherCall : Type} (asOther : Call → OtherCall) :
    Procedure Call Answer Result → Procedure OtherCall Answer Result
  | .finish result => .finish result
  | .perform call next =>
    .perform (asOther call) fun answer => (next answer).mapCall asOther

/--
What a call makes of a world when it goes in a certain way: the world after
it, and the answer unless the call still goes on.
-/
abbrev Effect (World Call Choice Answer : Type) :=
  World → Call → Choice → Option (World × Option Answer)

def advance (effect : Effect World Call Choice Answer) :
    World × Procedure Call Answer Result → Choice →
      Option ((Call × Choice) × (World × Procedure Call Answer Result))
  | (_, .finish _), _ => none
  | (world, .perform call next), choice =>
    match effect world call choice with
    | none => none
    | some (after, none) =>
      some ((call, choice), (after, .perform call next))
    | some (after, some answer) =>
      some ((call, choice), (after, next answer))

def system (effect : Effect World Call Choice Answer)
    (procedure : Procedure Call Answer Result) (world : World) :
    TransitionSystem (World × Procedure Call Answer Result)
      (Call × Choice) :=
  TransitionSystem.ofNext (fun state => state = (world, procedure))
    (advance effect)

variable
  (effect : Effect World Call Choice Answer)
  (allowed : World → Call → Choice → Prop)

/-- The worlds that are seen before a call is answered. -/
inductive Going (call : Call) : World → World → Prop where
  | refl (world : World) :
      Going call world world
  | step
      {first middle last : World}
      {choice : Choice} :
      Going call first middle →
      effect middle call choice = some (last, none) →
      allowed middle call choice →
      Going call first last

/--
In every world on the way a condition holds, and at the end another one holds
of the result, whenever the calls go in the ways that are allowed.
-/
def CrashSafe (always : World → Prop) (post : Result → World → Prop) :
    Procedure Call Answer Result → World → Prop
  | .finish result, world => always world ∧ post result world
  | .perform call next, world =>
    ∀ middle,
      Going effect allowed call world middle →
        always middle ∧
          ∀ choice after answer,
            effect middle call choice = some (after, some answer) →
              allowed middle call choice →
                CrashSafe always post (next answer) after

variable {effect : Effect World Call Choice Answer}
  {allowed : World → Call → Choice → Prop}
  {always : World → Prop}
  {post : Result → World → Prop}

theorem Going.trans {call : Call} {first middle last : World}
    (earlier : Going effect allowed call first middle)
    (later : Going effect allowed call middle last) :
    Going effect allowed call first last := by
  induction later with
  | refl => exact earlier
  | step _ shown isAllowed ih =>
    exact ih.step shown isAllowed

namespace CrashSafe

theorem initially {procedure : Procedure Call Answer Result} {world : World}
    (safe : CrashSafe effect allowed always post procedure world) :
    always world := by
  cases procedure with
  | finish result => exact safe.1
  | perform call next => exact (safe world (.refl world)).1

theorem finish {result : Result} {world : World}
    (holds : always world) (fits : post result world) :
    CrashSafe effect allowed always post (.finish result) world :=
  ⟨holds, fits⟩

/-- The rule for a call that shows something while it goes on. -/
theorem perform {call : Call} {next : Answer → Procedure Call Answer Result}
    {world : World} (during : World → Prop) (starts : during world)
    (kept :
      ∀ {middle choice after},
        during middle →
        effect middle call choice = some (after, none) →
        allowed middle call choice →
        during after)
    (holds : ∀ {middle}, during middle → always middle)
    (answered :
      ∀ {middle choice after answer},
        during middle →
        effect middle call choice = some (after, some answer) →
        allowed middle call choice →
        CrashSafe effect allowed always post (next answer) after) :
    CrashSafe effect allowed always post (.perform call next) world := by
  intro middle going
  have inside : during middle := by
    induction going with
    | refl => exact starts
    | step _ shown isAllowed ih =>
      exact kept ih shown isAllowed
  exact ⟨holds inside, fun _ _ _ ended isAllowed =>
    answered inside ended isAllowed⟩

theorem performAtOnce
    {call : Call} {next : Answer → Procedure Call Answer Result}
    {world : World}
    (atOnce :
      ∀ choice after, effect world call choice ≠ some (after, none))
    (holds : always world)
    (answered :
      ∀ {choice after answer},
        effect world call choice = some (after, some answer) →
        allowed world call choice →
        CrashSafe effect allowed always post (next answer) after) :
    CrashSafe effect allowed always post (.perform call next) world := by
  refine perform (fun middle => middle = world) rfl ?_ ?_ ?_
  · rintro middle choice after rfl shown _
    exact absurd shown (atOnce choice after)
  · rintro middle rfl
    exact holds
  · rintro middle choice after answer rfl ended isAllowed
    exact answered ended isAllowed

theorem mono {weaker : Result → World → Prop}
    {procedure : Procedure Call Answer Result} {world : World}
    (implies : ∀ result after, post result after → weaker result after)
    (safe : CrashSafe effect allowed always post procedure world) :
    CrashSafe effect allowed always weaker procedure world := by
  induction procedure generalizing world with
  | finish result => exact ⟨safe.1, implies result world safe.2⟩
  | perform call next ih =>
    intro middle going
    obtain ⟨holds, answered⟩ := safe middle going
    exact ⟨holds, fun choice after answer ended isAllowed =>
      ih answer
        (answered choice after answer ended isAllowed)⟩

theorem andThen {first : Procedure Call Answer Result}
    {rest : Result → Procedure Call Answer Other}
    {post : Other → World → Prop} {world : World}
    (safe :
      CrashSafe effect allowed always
        (fun result after =>
          CrashSafe effect allowed always post (rest result) after)
        first world) :
    CrashSafe effect allowed always post (first.andThen rest) world := by
  induction first generalizing world with
  | finish result => exact safe.2
  | perform call next ih =>
    intro middle going
    obtain ⟨holds, answered⟩ := safe middle going
    exact ⟨holds, fun choice after answer ended isAllowed =>
      ih answer
        (answered choice after answer ended isAllowed)⟩

theorem bindExcept {Failure : Type}
    {first : ExceptT Failure (Procedure Call Answer) Result}
    {rest : Result → ExceptT Failure (Procedure Call Answer) Other}
    {post : Except Failure Other → World → Prop} {world : World}
    (safe :
      CrashSafe effect allowed always
        (fun result after =>
          (∀ value, result = .ok value →
              CrashSafe effect allowed always post (rest value).run after) ∧
            ∀ failure,
              result = .error failure →
                CrashSafe effect allowed always post
                  (.finish (.error failure)) after)
        first.run world) :
    CrashSafe effect allowed always post (first >>= rest).run world := by
  refine andThen (mono ?_ safe)
  rintro (failure | value) after fits
  · exact fits.2 failure rfl
  · exact fits.1 value rfl

/-- Calls taken as others are safe when they are safe in their own ways. -/
theorem mapCall {OtherCall : Type} {asOther : Call → OtherCall}
    {effect : Effect World OtherCall Choice Answer}
    {allowed : World → OtherCall → Choice → Prop}
    {procedure : Procedure Call Answer Result} {world : World}
    (safe :
      CrashSafe (fun world call => effect world (asOther call))
        (fun world call => allowed world (asOther call)) always post
        procedure world) :
    CrashSafe effect allowed always post (procedure.mapCall asOther)
      world := by
  induction procedure generalizing world with
  | finish result => exact safe
  | perform call next ih =>
    intro middle going
    have sameGoing :
        Going (fun world call => effect world (asOther call))
          (fun world call => allowed world (asOther call)) call world
          middle := by
      induction going with
      | refl => exact .refl _
      | step _ shown isAllowed ih =>
        exact ih.step shown isAllowed
    obtain ⟨holds, answered⟩ := safe middle sameGoing
    exact ⟨holds, fun choice after answer ended isAllowed =>
      ih answer
        (answered choice after answer ended isAllowed)⟩

/-- A step in an allowed way leads to a procedure that is safe again. -/
theorem advance {procedure next : Procedure Call Answer Result}
    {world after : World} {call : Call} {choice : Choice} {input : Choice}
    (safe : CrashSafe effect allowed always post procedure world)
    (step :
      Procedure.advance effect (world, procedure) input =
        some ((call, choice), (after, next)))
    (isAllowed : allowed world call choice) :
    CrashSafe effect allowed always post next after := by
  cases procedure with
  | finish result => cases step
  | perform performed follow =>
    unfold Procedure.advance at step
    dsimp only at step
    split at step
    · cases step
    · next shown =>
        cases step
        intro middle going
        exact safe middle
          (((Going.refl world).step shown isAllowed).trans going)
    · next ended =>
        cases step
        exact (safe world (.refl world)).2 _ _ _ ended isAllowed

theorem execution {procedure : Procedure Call Answer Result} {world : World}
    (safe : CrashSafe effect allowed always post procedure world)
    {trace : List (Call × Choice)}
    {state : World × Procedure Call Answer Result}
    (execution :
      ((system effect procedure world).restrict fun current event =>
        allowed current.1 event.1 event.2).Execution trace state) :
    CrashSafe effect allowed always post state.2 state.1 := by
  refine execution.invariant
    (fun _ state =>
      CrashSafe effect allowed always post state.2 state.1) ?_ ?_
  · rintro state rfl
    exact safe
  · rintro trace ⟨current, rest⟩ ⟨call, choice⟩ ⟨after, next⟩ still
      ⟨⟨input, step⟩, isAllowed⟩
    exact still.advance step isAllowed

theorem everyExecution
    {procedure : Procedure Call Answer Result} {world : World}
    (safe :
      CrashSafe effect (fun _ _ _ => True) always post procedure world)
    {trace : List (Call × Choice)}
    {state : World × Procedure Call Answer Result}
    (execution : (system effect procedure world).Execution trace state) :
    CrashSafe effect (fun _ _ _ => True) always post state.2 state.1 := by
  refine execution.invariant
    (fun _ state =>
      CrashSafe effect (fun _ _ _ => True) always post state.2 state.1) ?_ ?_
  · rintro state rfl
    exact safe
  · rintro trace ⟨current, rest⟩ ⟨call, choice⟩ ⟨after, next⟩ still
      ⟨input, step⟩
    exact still.advance step trivial

end CrashSafe

end Procedure

/-!
# Runs that can be cut off

Procedures run one after the other on a world, and each can be cut off between
two of its steps.  What a whole run keeps and what may hold where it is cut off
give what holds in every state of every history.
-/

namespace Procedure

variable {Run Call Answer Result World Choice : Type}

/-- Nothing runs after a run that ended or was cut off, or a run is going. -/
inductive Stage (Run Call Answer Result : Type) where
  | idle (last : Option (Run × Result))
  | busy (run : Run) (rest : Procedure Call Answer Result)

inductive RunInput (Run Choice : Type) where
  | start (run : Run)
  | choose (choice : Choice)
  | finish
  | cutOff

inductive RunEvent (Run Call Choice : Type) where
  | started (run : Run)
  | called (call : Call) (choice : Choice)
  | ended
  | cutOff

def advanceRuns (effect : Effect World Call Choice Answer)
    (procedure : Run → Procedure Call Answer Result) :
    World × Stage Run Call Answer Result → RunInput Run Choice →
      Option (RunEvent Run Call Choice ×
        (World × Stage Run Call Answer Result))
  | (world, .idle _), .start run =>
    some (.started run, (world, .busy run (procedure run)))
  | (world, .busy run rest), .choose choice =>
    (advance effect (world, rest) choice).map fun step =>
      (.called step.1.1 step.1.2, (step.2.1, .busy run step.2.2))
  | (world, .busy run (.finish result)), .finish =>
    some (.ended, (world, .idle (some (run, result))))
  | (world, .busy _ _), .cutOff => some (.cutOff, (world, .idle none))
  | _, _ => none

def runs (effect : Effect World Call Choice Answer)
    (procedure : Run → Procedure Call Answer Result)
    (isInitial : World → Prop) :
    TransitionSystem (World × Stage Run Call Answer Result)
      (RunEvent Run Call Choice) :=
  TransitionSystem.ofNext
    (fun state => isInitial state.1 ∧ state.2 = .idle none)
    (advanceRuns effect procedure)

/-- Which runs start, how their calls go and where they may be cut off. -/
structure RunGuard (World Run Call Choice : Type) where
  mayStart : Run → Prop
  mayCall : World → Call → Choice → Prop
  mayCut : World → Prop

def RunGuard.allows (guard : RunGuard World Run Call Choice)
    (state : World × Stage Run Call Answer Result) :
    RunEvent Run Call Choice → Prop
  | .started run => guard.mayStart run
  | .called call choice => guard.mayCall state.1 call choice
  | .ended => True
  | .cutOff => guard.mayCut state.1

def HoldsAt (effect : Effect World Call Choice Answer)
    (guard : RunGuard World Run Call Choice) (always between : World → Prop)
    (post : Run → Result → World → Prop) :
    World × Stage Run Call Answer Result → Prop
  | (world, .idle last) =>
    between world ∧
      ∀ run result, last = some (run, result) → post run result world
  | (world, .busy run rest) =>
    CrashSafe effect guard.mayCall always (post run) rest world

/-- Safe runs, and safe places to cut them off, make safe histories. -/
theorem HoldsAt.of_execution {effect : Effect World Call Choice Answer}
    {procedure : Run → Procedure Call Answer Result}
    {isInitial : World → Prop} {guard : RunGuard World Run Call Choice}
    {always between : World → Prop} {post : Run → Result → World → Prop}
    (initially : ∀ world, isInitial world → between world)
    (safe :
      ∀ run world,
        guard.mayStart run →
        between world →
          CrashSafe effect guard.mayCall always (post run) (procedure run)
            world)
    (ends : ∀ run result world, post run result world → between world)
    (cut : ∀ world, always world → guard.mayCut world → between world)
    {trace : List (RunEvent Run Call Choice)}
    {state : World × Stage Run Call Answer Result}
    (execution :
      ((runs effect procedure isInitial).restrict fun current event =>
        guard.allows current event).Execution trace state) :
    HoldsAt effect guard always between post state := by
  refine execution.invariant
    (fun _ state => HoldsAt effect guard always between post state) ?_ ?_
  · rintro ⟨world, stage⟩ ⟨starts, rfl⟩
    exact ⟨initially world starts, by rintro run result ⟨⟩⟩
  · rintro trace ⟨world, stage⟩ event ⟨after, next⟩ holds
      ⟨⟨input, step⟩, isAllowed⟩
    cases stage with
    | idle last =>
      cases input with
      | start run =>
        cases step
        exact safe run world isAllowed holds.1
      | choose choice => cases step
      | finish => cases step
      | cutOff => cases step
    | busy run rest =>
      cases input with
      | start other => cases step
      | choose choice =>
        obtain ⟨⟨⟨call, chosen⟩, ⟨later, follow⟩⟩, moved, same⟩ :=
          Option.map_eq_some_iff.mp step
        cases same
        exact CrashSafe.advance holds moved isAllowed
      | finish =>
        cases rest with
        | perform call following => cases step
        | finish result =>
          cases step
          refine ⟨ends run result world holds.2, ?_⟩
          rintro other given ⟨⟩
          exact holds.2
      | cutOff =>
        cases step
        exact ⟨cut world holds.initially isAllowed, by
          rintro other result ⟨⟩⟩

end Procedure

end Library
