import Mathlib.Data.List.Nodup
import DeveloperDashboard.Library.Transition

namespace Library

/-!
# Files replaced by renaming

Processes that each read a document, change it, write the result to a file of
their own and rename that file over the first.  The document is complete in
every state; updates that do not overlap take effect one after the other.
-/

namespace StagedFile

/-- A text that is cut short, or the complete text of a document. -/
inductive Content (Document : Type) where
  | cut (document : Document)
  | whole (document : Document)
  deriving DecidableEq

/-- How far a process is with its update. -/
inductive Phase (Document : Type) where
  | ready
  | loaded (edited : Document)
  | staged (temporary : Content Document)
  | finished
  deriving DecidableEq

inductive Action where
  | load
  | openTemporary
  | closeTemporary
  | rename
  deriving DecidableEq

/-- The shared file, when there is one, and the phase of every process. -/
structure State (Process Document : Type) where
  file : Option (Content Document)
  phase : Process → Phase Document

/--
The update of each process, on the document or on no file; a process without
one gives up before it reads.
-/
abbrev Updates (Process Document : Type) :=
  Process → Option (Option Document → Document)

variable {Process Document : Type} [DecidableEq Process]

namespace State

def enter (state : State Process Document) (process : Process)
    (phase : Phase Document) :
    State Process Document :=
  { state with phase := Function.update state.phase process phase }

@[simp] theorem phase_enter_self (state : State Process Document)
    (process : Process) (phase : Phase Document) :
    (state.enter process phase).phase process = phase :=
  Function.update_self ..

theorem phase_enter_of_ne (state : State Process Document)
    {process other : Process} (different : other ≠ process)
    (phase : Phase Document) :
    (state.enter process phase).phase other = state.phase other :=
  Function.update_of_ne different ..

end State

def afterLoad (update : Option Document → Document) :
    Option (Content Document) → Phase Document
  | none => .loaded (update none)
  | some (.whole document) => .loaded (update (some document))
  | some (.cut _) => .finished

def next? (updates : Updates Process Document)
    (state : State Process Document) (event : Process × Action) :
    Option ((Process × Action) × State Process Document) :=
  match state.phase event.1, event.2 with
  | .ready, .load =>
    match updates event.1 with
    | none => some (event, state.enter event.1 .finished)
    | some update =>
      some (event, state.enter event.1 (afterLoad update state.file))
  | .loaded edited, .openTemporary =>
    some (event, state.enter event.1 (.staged (.cut edited)))
  | .staged (.cut edited), .closeTemporary =>
    some (event, state.enter event.1 (.staged (.whole edited)))
  | .staged (.whole edited), .rename =>
    some
      (event, { state.enter event.1 .finished with
          file := some (.whole edited) })
  | _, _ => none

/-- No process has started, and the file is absent or complete. -/
def Initial
    (document : Option Document) (state : State Process Document) : Prop :=
  state.file = document.map .whole ∧ ∀ process, state.phase process = .ready

def system
    (updates : Updates Process Document) (document : Option Document) :
    TransitionSystem (State Process Document) (Process × Action) :=
  .ofNext (Initial document) (next? updates)

/-- A process has read the document and has not yet replaced it. -/
def Phase.Busy : Phase Document → Prop
  | .loaded _ => True
  | .staged _ => True
  | _ => False

instance (phase : Phase Document) : Decidable phase.Busy :=
  match phase with
  | .ready => isFalse id
  | .loaded _ => isTrue trivial
  | .staged _ => isTrue trivial
  | .finished => isFalse id

def Phase.isFinished : Phase Document → Bool
  | .finished => true
  | _ => false

theorem Phase.eq_finished_of_isFinished
    {phase : Phase Document} (done : phase.isFinished = true) :
    phase = .finished := by
  cases phase with
  | finished => rfl
  | _ => cases done

/-- A process reads only while no other one is busy. -/
def Separate (updates : Updates Process Document)
    (state : State Process Document) (event : Process × Action) : Prop :=
  event.2 = .load → (updates event.1).isSome →
    ∀ other, other ≠ event.1 → ¬ (state.phase other).Busy

def serial (updates : Updates Process Document) (document : Option Document)
    (order : List Process) :
    Option Document :=
  order.foldl
    (fun document process =>
      match updates process with
      | none => document
      | some update => some (update document))
    document

theorem next?_cases {updates : Updates Process Document}
    {state next : State Process Document} {event emitted : Process × Action}
    (taken : next? updates state event = some (emitted, next)) :
    emitted = event ∧
      ((event.2 = .load ∧ state.phase event.1 = .ready ∧
          updates event.1 = none ∧ next = state.enter event.1 .finished) ∨
        (∃ update, event.2 = .load ∧ state.phase event.1 = .ready ∧
          updates event.1 = some update ∧
            next = state.enter event.1 (afterLoad update state.file)) ∨
        (∃ edited, state.phase event.1 = .loaded edited ∧
          event.2 = .openTemporary ∧
            next = state.enter event.1 (.staged (.cut edited))) ∨
        (∃ edited, state.phase event.1 = .staged (.cut edited) ∧
          event.2 = .closeTemporary ∧
            next = state.enter event.1 (.staged (.whole edited))) ∨
        (∃ edited, state.phase event.1 = .staged (.whole edited) ∧
          event.2 = .rename ∧
            next =
              { state.enter event.1 .finished with
                file := some (.whole edited) })) := by
  obtain ⟨process, action⟩ := event
  unfold next? at taken
  split at taken
  · next isReady isLoad =>
      dsimp only at isReady isLoad
      split at taken
      · next rejected =>
          obtain ⟨rfl, rfl⟩ := by simpa using taken
          exact ⟨rfl, .inl ⟨isLoad, isReady, rejected, rfl⟩⟩
      · next update isUpdate =>
          obtain ⟨rfl, rfl⟩ := by simpa using taken
          exact ⟨rfl, .inr (.inl ⟨update, isLoad, isReady, isUpdate, rfl⟩)⟩
  · next edited isLoaded isOpen =>
      obtain ⟨rfl, rfl⟩ := by simpa using taken
      exact ⟨rfl, .inr (.inr (.inl ⟨edited, isLoaded, isOpen, rfl⟩))⟩
  · next edited isCut isClose =>
      obtain ⟨rfl, rfl⟩ := by simpa using taken
      exact ⟨rfl, .inr (.inr (.inr (.inl ⟨edited, isCut, isClose, rfl⟩)))⟩
  · next edited isWhole isRename =>
      obtain ⟨rfl, rfl⟩ := by simpa using taken
      exact
        ⟨rfl, .inr (.inr (.inr (.inr ⟨edited, isWhole, isRename, rfl⟩)))⟩
  · cases taken

theorem file_ne_cut
    {updates : Updates Process Document} {document : Option Document}
    {trace : List (Process × Action)} {state : State Process Document}
    (execution : (system updates document).Execution trace state)
    (cut : Document) :
    state.file ≠ some (.cut cut) := by
  refine execution.invariant (fun _ state => state.file ≠ some (.cut cut))
    ?_ ?_
  · rintro state ⟨file, -⟩
    rw [file]
    cases document <;> simp
  · rintro trace state event next complete ⟨input, taken⟩
    obtain ⟨-, ⟨-, -, -, rfl⟩ | ⟨_, -, -, -, rfl⟩ | ⟨_, -, -, rfl⟩ |
      ⟨_, -, -, rfl⟩ | ⟨_, -, -, rfl⟩⟩ := next?_cases taken
    · exact complete
    · exact complete
    · exact complete
    · exact complete
    · simp

def Phase.Edits (document : Document) : Phase Document → Prop
  | .loaded edited => edited = document
  | .staged (.cut edited) => edited = document
  | .staged (.whole edited) => edited = document
  | _ => True

/--
The file is what the finished processes make of it in some order, and at most
one process is busy, with its update of that file.
-/
structure Serialized
    (updates : Updates Process Document) (document : Option Document)
    (order : List Process) (state : State Process Document) : Prop where
  nodup : order.Nodup
  finished : ∀ process,
    process ∈ order ↔ state.phase process = .finished
  file : state.file = (serial updates document order).map .whole
  edits : ∀ process, (state.phase process).Busy →
    ∃ update, updates process = some update ∧
      (state.phase process).Edits (update (serial updates document order))
  alone : ∀ process other,
    (state.phase process).Busy → (state.phase other).Busy →
      process = other

omit [DecidableEq Process] in
theorem serial_concat (updates : Updates Process Document)
    (document : Option Document) (order : List Process) (process : Process) :
    serial updates document (order ++ [process]) =
      match updates process with
      | none => serial updates document order
      | some update => some (update (serial updates document order)) := by
  unfold serial
  rw [List.foldl_append]
  rfl

section

variable {updates : Updates Process Document} {document : Option Document}
variable {order : List Process} {state : State Process Document}
variable {process : Process}

section

variable (serialized : Serialized updates document order state)

include serialized

theorem Serialized.finish
    (unfinished : state.phase process ≠ .finished) :
    (order ++ [process]).Nodup ∧
      ∀ other,
        other ∈ order ++ [process] ↔
          (state.enter process .finished).phase other = .finished := by
  have fresh : process ∉ order :=
    fun isIn => unfinished ((serialized.finished process).mp isIn)
  constructor
  · rw [List.nodup_append]
    refine ⟨serialized.nodup, List.nodup_singleton process, ?_⟩
    intro old oldIn new newIn same
    rw [List.mem_singleton.mp newIn] at same
    exact fresh (same ▸ oldIn)
  · intro other
    rw [List.mem_append, List.mem_singleton, serialized.finished]
    by_cases same : other = process
    · simp [same]
    · rw [State.phase_enter_of_ne state same]
      simp [same]

/-- A process that gives up changes nothing. -/
theorem Serialized.reject
    (isReady : state.phase process = .ready)
    (rejected : updates process = none) :
    Serialized updates document (order ++ [process])
      (state.enter process .finished) := by
  have sameFile :
      serial updates document (order ++ [process]) =
        serial updates document order := by
    rw [serial_concat, rejected]
  have busyBefore (other : Process)
      (busy : ((state.enter process .finished).phase other).Busy) :
      (state.enter process .finished).phase other = state.phase other ∧
        (state.phase other).Busy := by
    by_cases same : other = process
    · subst same
      rw [State.phase_enter_self] at busy
      cases busy
    · rw [State.phase_enter_of_ne state same] at busy ⊢
      exact ⟨rfl, busy⟩
  obtain ⟨nodup, finished⟩ :=
    serialized.finish (by rw [isReady]; rintro ⟨⟩)
  refine ⟨nodup, finished, ?_, ?_, ?_⟩
  · rw [sameFile]
    exact serialized.file
  · intro other busy
    obtain ⟨samePhase, before⟩ := busyBefore other busy
    rw [samePhase, sameFile]
    exact serialized.edits other before
  · intro one other oneBusy otherBusy
    exact serialized.alone one other (busyBefore one oneBusy).2
      (busyBefore other otherBusy).2

theorem Serialized.enter_busy
    (unfinished : state.phase process ≠ .finished)
    (isAlone : ∀ other, other ≠ process → ¬ (state.phase other).Busy)
    {phase : Phase Document} (busy : phase.Busy)
    (edits : ∃ update, updates process = some update ∧
      phase.Edits (update (serial updates document order))) :
    Serialized updates document order (state.enter process phase) := by
  have onlyBusy (other : Process)
      (otherBusy : ((state.enter process phase).phase other).Busy) :
      other = process := by
    by_contra different
    rw [State.phase_enter_of_ne state different] at otherBusy
    exact isAlone other different otherBusy
  refine ⟨serialized.nodup, ?_, serialized.file, ?_, ?_⟩
  · intro other
    rw [serialized.finished]
    by_cases same : other = process
    · subst same
      rw [State.phase_enter_self]
      refine ⟨fun isFinished => absurd isFinished unfinished, ?_⟩
      rintro rfl
      cases busy
    · rw [State.phase_enter_of_ne state same]
  · intro other otherBusy
    obtain rfl := onlyBusy other otherBusy
    rw [State.phase_enter_self]
    exact edits
  · intro one other oneBusy otherBusy
    rw [onlyBusy one oneBusy, onlyBusy other otherBusy]

theorem Serialized.rename
    {edited : Document}
    (isWhole : state.phase process = .staged (.whole edited)) :
    Serialized updates document (order ++ [process])
      { state.enter process .finished with
        file := some (.whole edited) } := by
  have isBusy : (state.phase process).Busy := by
    rw [isWhole]
    trivial
  have noneBusy (other : Process) :
      ¬ ((state.enter process .finished).phase other).Busy := by
    intro busy
    by_cases same : other = process
    · subst same
      rw [State.phase_enter_self] at busy
      cases busy
    · rw [State.phase_enter_of_ne state same] at busy
      exact same (serialized.alone other process busy isBusy)
  obtain ⟨update, isUpdate, edits⟩ := serialized.edits process isBusy
  rw [isWhole] at edits
  obtain ⟨nodup, finished⟩ :=
    serialized.finish (by rw [isWhole]; rintro ⟨⟩)
  refine ⟨nodup, finished, ?_, ?_, ?_⟩
  · rw [serial_concat, isUpdate]
    exact congrArg (fun document => some (Content.whole document)) edits
  · intro other busy
    exact absurd busy (noneBusy other)
  · intro one other oneBusy
    exact absurd oneBusy (noneBusy one)

/-- A step that keeps the updates apart keeps the file serialized. -/
theorem Serialized.step
    {next : State Process Document} {event : Process × Action}
    (step : (system updates document).step state event next)
    (separate : Separate updates state event) :
    ∃ later, Serialized updates document later next := by
  obtain ⟨input, taken⟩ := step
  obtain ⟨rfl, cases⟩ := next?_cases taken
  have aloneOf (busy : (state.phase event.1).Busy) :
      ∀ other, other ≠ event.1 → ¬ (state.phase other).Busy :=
    fun other different otherBusy =>
      different (serialized.alone other event.1 otherBusy busy)
  rcases cases with
    ⟨-, isReady, rejected, rfl⟩ | ⟨update, isLoad, isReady, isUpdate, rfl⟩ |
    ⟨edited, isLoaded, -, rfl⟩ | ⟨edited, isCut, -, rfl⟩ |
    ⟨edited, isWhole, -, rfl⟩
  · exact ⟨_, serialized.reject isReady rejected⟩
  · have loads :
        afterLoad update state.file =
          .loaded (update (serial updates document order)) := by
      rw [serialized.file]
      cases serial updates document order <;> rfl
    rw [loads]
    refine ⟨order, serialized.enter_busy (by rw [isReady]; rintro ⟨⟩)
      (separate isLoad (by rw [isUpdate]; rfl)) trivial
      ⟨update, isUpdate, rfl⟩⟩
  · have isBusy : (state.phase event.1).Busy := by
      rw [isLoaded]
      trivial
    have edits := serialized.edits event.1 isBusy
    rw [isLoaded] at edits
    exact ⟨order, serialized.enter_busy (by rw [isLoaded]; rintro ⟨⟩)
      (aloneOf isBusy) trivial edits⟩
  · have isBusy : (state.phase event.1).Busy := by
      rw [isCut]
      trivial
    have edits := serialized.edits event.1 isBusy
    rw [isCut] at edits
    exact ⟨order, serialized.enter_busy (by rw [isCut]; rintro ⟨⟩)
      (aloneOf isBusy) trivial edits⟩
  · exact ⟨_, serialized.rename isWhole⟩

end

theorem serialized_of_separate {trace : List (Process × Action)}
    (execution :
      ((system updates document).restrict
        (Separate updates)).Execution trace state) :
    ∃ order, Serialized updates document order state := by
  refine execution.invariant
    (fun _ state => ∃ order, Serialized updates document order state) ?_ ?_
  · rintro state ⟨file, ready⟩
    refine ⟨[], List.nodup_nil, ?_, file, ?_, ?_⟩
    · intro process
      simp [ready process]
    · intro process busy
      rw [ready process] at busy
      cases busy
    · intro process other busy
      rw [ready process] at busy
      cases busy
  · rintro trace state event next ⟨order, serialized⟩ ⟨step, separate⟩
    exact serialized.step step separate

end

end StagedFile

end Library
