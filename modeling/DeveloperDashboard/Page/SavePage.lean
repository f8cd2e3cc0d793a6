import DeveloperDashboard.Library.Transition
import DeveloperDashboard.Page.SavedText

namespace DeveloperDashboard.Page

open Library Perl

/-!
# Saving a page over an existing one

`save_page` opens the page file with truncation, prints the instruction text
through a buffer, and closes the file without looking at the results.  The
process may stop between any two of its system calls.
-/

/-- Where `save_page` is. -/
inductive SavePhase where
  | start
  | writing (pending : Bytes)
  | returned
  | died
  | crashed
deriving DecidableEq

/-- The page file, and how far the save is. -/
structure SaveState where
  file : Bytes
  failed : Bool
  phase : SavePhase
deriving DecidableEq

/--
What happens next.  `writes count` moves bytes from the buffer to the file; a
write that fails loses the bytes that are still in the buffer.
-/
inductive SaveEvent where
  | opens
  | openFails
  | writes (count : Nat)
  | writeFails
  | closes
  | crashes
deriving DecidableEq

namespace SaveState

def initial (old : Bytes) : SaveState :=
  { file := old, failed := false, phase := .start }

/-- `save_page` of a page whose canonical instruction is printed as `new`. -/
def next? (new : Bytes) (state : SaveState) :
    SaveEvent → Option SaveState
  | .opens =>
    match state.phase with
    | .start =>
      some { state with file := [], phase := .writing new }
    | _ => none
  | .openFails =>
    match state.phase with
    | .start => some { state with phase := .died }
    | _ => none
  | .writes count =>
    match state.phase with
    | .writing pending =>
      if 0 < count ∧ count ≤ pending.length then
        some
          { state with
            file := state.file ++ pending.take count
            phase := .writing (pending.drop count) }
      else none
    | _ => none
  | .writeFails =>
    match state.phase with
    | .writing (_ :: _) =>
      some { state with failed := true, phase := .writing [] }
    | _ => none
  | .closes =>
    match state.phase with
    | .writing [] => some { state with phase := .returned }
    | _ => none
  | .crashes =>
    match state.phase with
    | .start => some { state with phase := .crashed }
    | .writing _ => some { state with phase := .crashed }
    | _ => none

end SaveState

/-- The runs of `save_page` over an old file. -/
def saveSystem (old new : Bytes) :
    TransitionSystem SaveState SaveEvent where
  initial state := state = .initial old
  step state event next := state.next? new event = some next

/-- The bytes that a run has moved to the file. -/
def writtenCount : List SaveEvent → Nat
  | [] => 0
  | .writes count :: rest => count + writtenCount rest
  | _ :: rest => writtenCount rest

theorem writtenCount_append (first second : List SaveEvent) :
    writtenCount (first ++ second) =
      writtenCount first + writtenCount second := by
  induction first with
  | nil => simp [writtenCount]
  | cons event rest ih =>
    cases event <;>
      simp only [List.cons_append, writtenCount, ih]
    omega

structure SaveInvariant
    (old new : Bytes)
    (trace : List SaveEvent) (state : SaveState) : Prop where
  untouched : SaveEvent.opens ∉ trace → state.file = old
  prefixed :
    SaveEvent.opens ∈ trace →
      state.file = new.take (writtenCount trace)
  failed : state.failed = true ↔ SaveEvent.writeFails ∈ trace
  short : state.failed = true → writtenCount trace < new.length
  starts : state.phase = .start → trace = []
  pending :
    ∀ {rest}, state.phase = .writing rest →
      SaveEvent.opens ∈ trace ∧ writtenCount trace ≤ new.length ∧
        (state.failed = false → rest = new.drop (writtenCount trace)) ∧
        (state.failed = true → rest = [])
  returned : state.phase = .returned ↔ SaveEvent.closes ∈ trace
  whole :
    state.phase = .returned →
      SaveEvent.opens ∈ trace ∧
        (state.failed = false → new.length ≤ writtenCount trace)

theorem saveInvariant_initial (old new : Bytes) :
    SaveInvariant old new [] (.initial old) where
  untouched _ := rfl
  prefixed opened := absurd opened List.not_mem_nil
  failed := by simp [SaveState.initial]
  short failed := by cases failed
  starts _ := rfl
  pending writing := by cases writing
  returned := by simp [SaveState.initial]
  whole returned := by cases returned

variable {state : SaveState}

theorem next?_cases {new : Bytes} {event : SaveEvent} {next : SaveState}
    (step : state.next? new event = some next) :
    (event = .opens ∧ state.phase = .start ∧
      next = { state with file := [], phase := .writing new }) ∨
    (event = .openFails ∧ state.phase = .start ∧
      next = { state with phase := .died }) ∨
    (∃ count pending,
      event = .writes count ∧ state.phase = .writing pending ∧
        0 < count ∧ count ≤ pending.length ∧
        next =
          { state with
            file := state.file ++ pending.take count
            phase := .writing (pending.drop count) }) ∨
    (∃ byte rest,
      event = .writeFails ∧ state.phase = .writing (byte :: rest) ∧
        next = { state with failed := true, phase := .writing [] }) ∨
    (event = .closes ∧ state.phase = .writing [] ∧
      next = { state with phase := .returned }) ∨
    (event = .crashes ∧
      (state.phase = .start ∨ ∃ pending, state.phase = .writing pending) ∧
      next = { state with phase := .crashed }) := by
  cases event with
  | opens =>
    simp only [SaveState.next?] at step
    split at step
    · rename_i phase
      exact Or.inl ⟨rfl, phase, (Option.some.inj step).symm⟩
    · contradiction
  | openFails =>
    simp only [SaveState.next?] at step
    split at step
    · rename_i phase
      exact Or.inr (Or.inl ⟨rfl, phase, (Option.some.inj step).symm⟩)
    · contradiction
  | writes count =>
    simp only [SaveState.next?] at step
    split at step
    · rename_i pending phase
      split at step
      · rename_i fits
        exact Or.inr (Or.inr (Or.inl
          ⟨count, pending, rfl, phase, fits.1, fits.2,
            (Option.some.inj step).symm⟩))
      · contradiction
    · contradiction
  | writeFails =>
    simp only [SaveState.next?] at step
    split at step
    · rename_i byte rest phase
      exact Or.inr (Or.inr (Or.inr (Or.inl
        ⟨byte, rest, rfl, phase, (Option.some.inj step).symm⟩)))
    · contradiction
  | closes =>
    simp only [SaveState.next?] at step
    split at step
    · rename_i phase
      exact Or.inr (Or.inr (Or.inr (Or.inr (Or.inl
        ⟨rfl, phase, (Option.some.inj step).symm⟩))))
    · contradiction
  | crashes =>
    simp only [SaveState.next?] at step
    split at step
    · rename_i phase
      exact Or.inr (Or.inr (Or.inr (Or.inr (Or.inr
        ⟨rfl, Or.inl phase, (Option.some.inj step).symm⟩))))
    · rename_i pending phase
      exact Or.inr (Or.inr (Or.inr (Or.inr (Or.inr
        ⟨rfl, Or.inr ⟨pending, phase⟩, (Option.some.inj step).symm⟩))))
    · contradiction

theorem saveInvariant_step {old new : Bytes}
    {trace : List SaveEvent} {event : SaveEvent} {next : SaveState}
    (holds : SaveInvariant old new trace state)
    (step : state.next? new event = some next) :
    SaveInvariant old new (trace ++ [event]) next := by
  have count : writtenCount (trace ++ [event]) =
      writtenCount trace + writtenCount [event] :=
    writtenCount_append trace [event]
  have notReturned : state.phase ≠ .returned →
      SaveEvent.closes ∉ trace :=
    holds.returned.not.mp
  rcases next?_cases step with
    ⟨rfl, phase, rfl⟩ | ⟨rfl, phase, rfl⟩ |
    ⟨moved, pending, rfl, phase, positive, fits, rfl⟩ |
    ⟨byte, rest, rfl, phase, rfl⟩ | ⟨rfl, phase, rfl⟩ |
    ⟨rfl, phase, rfl⟩
  · obtain rfl := holds.starts phase
    have unfailed : state.failed = false := by
      simpa using holds.failed
    constructor <;> simp_all [writtenCount]
  · obtain rfl := holds.starts phase
    have unfailed : state.failed = false := by
      simpa using holds.failed
    have untouched := holds.untouched List.not_mem_nil
    constructor <;> simp_all [writtenCount]
  · obtain ⟨opened, bound, remaining, lost⟩ := holds.pending phase
    have unfailed : state.failed = false := by
      cases failed : state.failed with
      | false => rfl
      | true =>
        rw [lost failed] at fits
        simp at fits
        omega
    obtain rfl := remaining unfailed
    have written := holds.prefixed opened
    have joined :
        new.take (writtenCount trace + moved) =
          new.take (writtenCount trace) ++
            (new.drop (writtenCount trace)).take moved :=
      List.take_add
    have open' : SaveEvent.closes ∉ trace := notReturned (by simp [phase])
    have unlost := holds.failed
    rw [List.length_drop] at fits
    constructor <;> simp_all [writtenCount]
    omega
  · obtain ⟨opened, bound, remaining, lost⟩ := holds.pending phase
    have unfailed : state.failed = false := by
      cases failed : state.failed with
      | false => rfl
      | true => exact absurd (lost failed) (List.cons_ne_nil _ _)
    have remains := remaining unfailed
    have short : writtenCount trace < new.length := by
      have := congrArg List.length remains
      simp only [List.length_cons, List.length_drop] at this
      omega
    have open' : SaveEvent.closes ∉ trace := notReturned (by simp [phase])
    have written := holds.prefixed opened
    constructor <;> simp_all [writtenCount]
  · obtain ⟨opened, bound, remaining, lost⟩ := holds.pending phase
    have written := holds.prefixed opened
    have unlost := holds.failed
    have short := holds.short
    have complete :
        state.failed = false → new.length ≤ writtenCount trace :=
      fun unfailed => List.drop_eq_nil_iff.mp (remaining unfailed).symm
    constructor <;> simp_all [writtenCount]
  · have unlost := holds.failed
    have short := holds.short
    have untouched := holds.untouched
    have written := holds.prefixed
    have open' : SaveEvent.closes ∉ trace :=
      notReturned (by rcases phase with phase | ⟨pending, phase⟩ <;>
        simp [phase])
    constructor <;> simp_all [writtenCount]

theorem saveInvariant_execution {old new : Bytes} {trace : List SaveEvent}
    (execution : (saveSystem old new).Execution trace state) :
    SaveInvariant old new trace state := by
  refine execution.invariant (SaveInvariant old new) ?_ ?_
  · rintro state rfl
    exact saveInvariant_initial old new
  · intro trace state event next holds step
    exact saveInvariant_step holds step

theorem isTrue_canonicalInstruction (page : PageDocument) :
    Perl.isTrue (canonicalInstruction page) = true := by
  have last : (canonicalInstruction page).getLast? = some '\n' := by
    simp [canonicalInstruction, legacyInstruction]
  unfold Perl.isTrue
  rw [decide_eq_true_eq]
  constructor <;> intro same <;> rw [same] at last <;> contradiction

/--
What a save owes: the file holds one of the two texts, a write that failed is
not passed over, and a page that was saved is read as its canonical text.
-/
structure SavedWell
    (decodeReplacing : Bytes → Text)
    (old : Bytes) (page : PageDocument) (state : SaveState) : Prop where
  complete :
    state.file = old ∨ state.file = printRaw (canonicalInstruction page)
  reported : state.failed = true → state.phase ≠ .returned
  faithful :
    state.phase = .returned →
      readSavedInstruction decodeReplacing state.file =
        canonicalInstruction page

/--
Once the file is open, every byte of the text is written, or those that are
make up the old text; and where the file is closed, no write failed and the
text is one that is kept.
-/
def SaveUndisturbed
    (old : Bytes) (text : Text) (trace : List SaveEvent) : Prop :=
  SaveEvent.opens ∈ trace →
    ((printRaw text).length ≤ writtenCount trace ∨
      (printRaw text).take (writtenCount trace) = old) ∧
    (SaveEvent.closes ∈ trace →
      SaveEvent.writeFails ∉ trace ∧ TextKept text)

instance (old : Bytes) (text : Text) (trace : List SaveEvent) :
    Decidable (SaveUndisturbed old text trace) :=
  inferInstanceAs (Decidable (_ → _ ∧ (_ → _ ∧ _)))

/-- A save owes nothing more exactly when it was not disturbed. -/
theorem savedWell_iff {decodeReplacing : Bytes → Text}
    (replaces : MarksMalformed decodeReplacing)
    {old : Bytes} {page : PageDocument}
    {trace : List SaveEvent} {state : SaveState}
    (execution :
      (saveSystem old
        (printRaw (canonicalInstruction page))).Execution trace state) :
    SavedWell decodeReplacing old page state ↔
      SaveUndisturbed old (canonicalInstruction page) trace := by
  have holds := saveInvariant_execution execution
  have kept :=
    textKept_iff replaces (isTrue_canonicalInstruction page)
  by_cases opened : SaveEvent.opens ∈ trace
  · have file := holds.prefixed opened
    have whole :
        state.file = printRaw (canonicalInstruction page) ↔
          (printRaw (canonicalInstruction page)).length ≤
            writtenCount trace := by
      rw [file]
      constructor
      · intro same
        have := congrArg List.length same
        rw [List.length_take] at this
        omega
      · exact List.take_of_length_le
    constructor
    · rintro ⟨complete, reported, faithful⟩ -
      refine ⟨?_, fun closed => ?_⟩
      · rcases complete with same | same
        · exact Or.inr (by rw [← file, same])
        · exact Or.inl (whole.mp same)
      · have returned := holds.returned.mpr closed
        have unfailed : SaveEvent.writeFails ∉ trace := fun lost =>
          reported (holds.failed.mpr lost) returned
        have written :=
          (holds.whole returned).2 (by simpa using holds.failed.not.mpr unfailed)
        refine ⟨unfailed, kept.mp ?_⟩
        rw [← whole.mpr written]
        exact faithful returned
    · intro undisturbed
      obtain ⟨bytes, closed⟩ := undisturbed opened
      constructor
      · rcases bytes with written | same
        · exact Or.inr (whole.mpr written)
        · exact Or.inl (by rw [file, same])
      · intro failed returned
        exact (closed (holds.returned.mp returned)).1
          (holds.failed.mp failed)
      · intro returned
        obtain ⟨unfailed, textKept⟩ := closed (holds.returned.mp returned)
        have written :=
          (holds.whole returned).2 (by simpa using holds.failed.not.mpr unfailed)
        rw [whole.mpr written]
        exact kept.mpr textKept
  · have file := holds.untouched opened
    have unreturned : state.phase ≠ .returned := fun returned =>
      opened (holds.whole returned).1
    exact
      ⟨fun _ present => absurd present opened, fun _ =>
        ⟨Or.inl file, fun _ => unreturned,
          fun returned => absurd returned unreturned⟩⟩

def saveRun (old new : Bytes) (events : List SaveEvent) :
    Option SaveState :=
  events.foldlM (fun state event => state.next? new event)
    (.initial old)

theorem execution_of_saveRun {old new : Bytes} {events : List SaveEvent}
    (run : saveRun old new events = some state) :
    (saveSystem old new).Execution events state := by
  induction events using List.reverseRecOn generalizing state with
  | nil =>
    obtain rfl := Option.some.inj run
    exact .start rfl
  | append_singleton events event ih =>
    unfold saveRun at run
    rw [List.foldlM_append] at run
    obtain ⟨before, earlier, last⟩ := Option.bind_eq_some_iff.mp run
    have step : before.next? new event = some state := by
      simpa using last
    exact (ih earlier).extend step

/-- A decoder that reads ASCII and replaces every other byte. -/
def replaceBytes (raw : Bytes) : Text :=
  raw.map fun byte =>
    if byte.toNat < 0x80 then Char.ofNat byte.toNat else replacementChar

theorem replaceBytes_marks : MarksMalformed replaceBytes where
  marks raw refused := by
    by_contra unmarked
    have small : ∀ byte ∈ raw, byte.toNat < 0x80 := by
      intro byte member
      by_contra large
      exact unmarked
        (List.mem_map.mpr ⟨byte, member, by rw [if_neg large]⟩)
    have ascii : (byteText raw).all isAscii = true := by
      rw [List.all_eq_true]
      intro char member
      obtain ⟨byte, inRaw, rfl⟩ := List.mem_map.mp member
      have bound := small byte inRaw
      rw [isAscii, decide_eq_true_eq, toNat_ofNat_byte]
      exact bound
    have assigned : (byteText raw).any isNoncharacter = false := by
      rw [any_isNoncharacter_eq_false_iff, List.all_eq_true]
      rw [List.all_eq_true] at ascii
      exact fun char member =>
        (isNarrow_isAssigned_of_isAscii (ascii char member)).2
    have narrow := narrowBytes?_of_ascii ascii
    have sameBytes : utf8Bytes (byteText raw) = raw := by
      have printed := narrow
      unfold narrowBytes? at printed
      rw [map_byteText] at printed
      split at printed
      · exact (Option.some.inj printed).symm
      · contradiction
    have decoded := decodeStrict?_utf8Bytes assigned
    rw [sameBytes, refused] at decoded
    contradiction
  assigned raw _ := by
    rw [any_isNoncharacter_eq_false_iff, List.all_eq_true]
    intro char member
    obtain ⟨byte, inRaw, rfl⟩ := List.mem_map.mp member
    split
    · rename_i small
      refine (isNarrow_isAssigned_of_isAscii ?_).2
      rw [isAscii, decide_eq_true_eq, toNat_ofNat_byte]
      exact small
    · decide

/-- The file of a saved page, before the save. -/
def oldFile : Bytes :=
  printRaw (canonicalInstruction (titledPage "Old".toList))

def newFile : Bytes :=
  printRaw (canonicalInstruction (titledPage ['A']))

theorem savedWell_plain :
    ∃ state,
      (saveSystem oldFile newFile).Execution
          [.opens, .writes 60, .writes 40, .closes] state ∧
        state.file = newFile ∧
        SavedWell replaceBytes oldFile (titledPage ['A']) state := by
  have execution :
      (saveSystem oldFile newFile).Execution
        [.opens, .writes 60, .writes 40, .closes]
        { file := newFile, failed := false, phase := .returned } :=
    execution_of_saveRun (by decide +kernel)
  exact
    ⟨_, execution, rfl, (savedWell_iff replaceBytes_marks execution).mpr
        (by decide +kernel)⟩

/--
A process that stops after opening the file leaves it empty, and a page whose
title is in Latin-1 is not read as it was saved.
-/
theorem savedWell_fails :
    (∃ state,
      (saveSystem oldFile newFile).Execution [.opens, .crashes] state ∧
        state.file = [] ∧
        ¬ SavedWell replaceBytes oldFile (titledPage ['A']) state) ∧
    (∃ state, (saveSystem oldFile
          (printRaw (canonicalInstruction
            (titledPage [Char.ofNat 0xE9])))).Execution
          [.opens, .writes 100, .closes] state ∧
        state.failed = false ∧
        readSavedInstruction replaceBytes state.file ≠
          canonicalInstruction (titledPage [Char.ofNat 0xE9]) ∧
        ¬ SavedWell replaceBytes oldFile
          (titledPage [Char.ofNat 0xE9]) state) := by
  constructor
  · refine
      ⟨{ file := [], failed := false, phase := .crashed },
        execution_of_saveRun (by decide +kernel), rfl, ?_⟩
    rintro ⟨complete, -, -⟩
    revert complete
    decide +kernel
  · have execution :
        (saveSystem oldFile
          (printRaw (canonicalInstruction
            (titledPage [Char.ofNat 0xE9])))).Execution
          [.opens, .writes 100, .closes]
          { file :=
              printRaw (canonicalInstruction
                (titledPage [Char.ofNat 0xE9]))
            failed := false
            phase := .returned } :=
      execution_of_saveRun (by decide +kernel)
    have lost :
        readSavedInstruction replaceBytes
            (printRaw (canonicalInstruction
              (titledPage [Char.ofNat 0xE9]))) ≠
          canonicalInstruction (titledPage [Char.ofNat 0xE9]) :=
      readSavedInstruction_narrow replaceBytes_marks
        (by decide +kernel) (by decide +kernel)
    exact ⟨_, execution, rfl, lost, fun saved => lost (saved.faithful rfl)⟩

end DeveloperDashboard.Page
