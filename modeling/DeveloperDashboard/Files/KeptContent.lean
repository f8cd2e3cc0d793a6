import DeveloperDashboard.Files.ReplaceFile

namespace DeveloperDashboard.Files

open Library Perl

/-!
# Old or new content

What a reader and a crash can find.  A rename shows the new content at once;
the in-place overwrite shows every prefix of it, and a call that gives up
after it has removed the target removes the prepared file as well.
-/

def IsWhole (old : Option Bytes) (new content : Bytes) : Prop :=
  some content = old ∨ content = new

/-- A complete copy is there, and the target is not cut short. -/
structure KeepsContent (old : Option Bytes) (new : Bytes)
    (files : FilePair) : Prop where
  complete :
    files.target = old ∨ files.target = some new ∨ files.source = some new
  notCut : ∀ content, files.target = some content → IsWhole old new content

def LeavesNew (new : Bytes) (ending : Ending) (files : FilePair) : Prop :=
  ending = .ok () → files.target = some new

/--
The target is only written where that shows whole contents, the unchecked
close writes the new one, and the prepared file is only removed while the
target has a whole content.
-/
def keepsCopy (old : Option Bytes) (new : Bytes) :
    FilePair → FileCall → Outcome → Prop
  | _, .openFile .target, .succeeds => IsWhole old new []
  | _, .printTo .target content, .shows length
  | _, .closeFile .target content, .shows length
  | _, .drop .target content, .shows length =>
    IsWhole old new (content.take length)
  | _, .drop .target content, .succeeds => IsWhole old new content
  | _, .closeFile .target content, .succeeds => content = new
  | files, .closeFile .target _, .fails _ => files.target = some new
  | files, .unlink .source, .succeeds =>
    files.target = old ∨ files.target = some new
  | _, _, _ => True

structure Prepared (old : Option Bytes) (new : Bytes) (files : FilePair) :
    Prop where
  source : files.source = some new
  notCut : ∀ content, files.target = some content → IsWhole old new content

variable {old : Option Bytes} {new : Bytes} {files : FilePair}
  {rest : Answer → FileProcedure Ending}

theorem Prepared.keepsContent (prepared : Prepared old new files) :
    KeepsContent old new files :=
  ⟨.inr (.inr prepared.source), prepared.notCut⟩

theorem Prepared.put (prepared : Prepared old new files)
    {content : Bytes} (whole : IsWhole old new content) :
    Prepared old new (files.put .target (some content)) where
  source := prepared.source
  notCut := by
    rintro other ⟨⟩
    exact whole

/-- What is shown of a procedure that can be cut off. -/
abbrev Safe (allowed : FilePair → FileCall → Outcome → Prop)
    (old : Option Bytes) (new : Bytes) :
    FileProcedure Ending → FilePair → Prop :=
  Procedure.CrashSafe fileEffect allowed (KeepsContent old new)
    (LeavesNew new)

variable {allowed : FilePair → FileCall → Outcome → Prop}

variable {call : FileCall}

theorem fileEffect_ne_shown
    (quiet : ∀ length, fileEffect files call (.shows length) = none)
    (outcome : Outcome) (after : FilePair) :
    fileEffect files call outcome ≠ some (after, none) := by
  intro shown
  cases outcome with
  | shows length =>
    rw [quiet length] at shown
    cases shown
  | succeeds =>
    cases call <;> simp [fileEffect] at shown
  | fails reason =>
    cases call <;> simp [fileEffect] at shown

theorem Prepared.safe_rename (prepared : Prepared old new files)
    (isRename : call = .renameFile ∨ call = .moveItem)
    (done : Safe allowed old new (rest (.ok [])) ⟨none, some new⟩)
    (failed : ∀ reason, Safe allowed old new (rest (.error reason)) files) :
    Safe allowed old new (Procedure.ask call >>= rest) files := by
  refine Procedure.CrashSafe.performAtOnce
    (fileEffect_ne_shown ?_) prepared.keepsContent ?_
  · rcases isRename with rfl | rfl <;> exact fun _ => rfl
  · intro outcome after answer ended _
    cases outcome with
    | shows length => rcases isRename with rfl | rfl <;> cases ended
    | succeeds =>
      have renamed :
          some ((⟨none, some new⟩ : FilePair), some (Except.ok [])) =
            some (after, some answer) := by
        rw [← ended]
        rcases isRename with rfl | rfl <;>
          simp [fileEffect, prepared.source]
      cases renamed
      exact done
    | fails reason =>
      rcases isRename with rfl | rfl <;>
      · cases ended
        exact failed reason

theorem safe_doesExist (place : Place) (keeps : KeepsContent old new files)
    (found :
      ∀ content, files.get place = some content →
        Safe allowed old new (rest (.ok [])) files)
    (missing :
      ∀ reason, files.get place = none →
        Safe allowed old new (rest (.error reason)) files) :
    Safe allowed old new (Procedure.ask (.doesExist place) >>= rest) files := by
  refine Procedure.CrashSafe.performAtOnce
    (fileEffect_ne_shown fun _ => rfl) keeps ?_
  intro outcome after answer ended _
  cases outcome with
  | shows length => cases ended
  | succeeds =>
    obtain ⟨content, isThere, same⟩ := Option.map_eq_some_iff.mp ended
    cases same
    exact found content isThere
  | fails reason =>
    have checked :
        (if files.get place = none then
            some (files, some (Except.error reason))
          else none) =
          some (after, some answer) :=
      ended
    split at checked
    · next absent =>
        cases checked
        exact missing reason absent
    · cases checked

theorem Prepared.safe_unlinkTarget (prepared : Prepared old new files)
    (done :
      ∀ {after}, Prepared old new after → Safe allowed old new (rest (.ok [])) after)
    (failed : ∀ reason, Safe allowed old new (rest (.error reason)) files) :
    Safe allowed old new (Procedure.ask (.unlink .target) >>= rest) files := by
  refine Procedure.CrashSafe.performAtOnce
    (fileEffect_ne_shown fun _ => rfl) prepared.keepsContent ?_
  intro outcome after answer ended _
  cases outcome with
  | shows length => cases ended
  | succeeds =>
    obtain ⟨content, _, same⟩ := Option.map_eq_some_iff.mp ended
    cases same
    exact done ⟨prepared.source, by rintro _ ⟨⟩⟩
  | fails reason =>
    cases ended
    exact failed reason

theorem safe_unlinkSource (keeps : KeepsContent old new files)
    (done :
      allowed files (.unlink .source) .succeeds →
        Safe allowed old new (rest (.ok [])) (files.put .source none))
    (failed : ∀ reason, Safe allowed old new (rest (.error reason)) files) :
    Safe allowed old new (Procedure.ask (.unlink .source) >>= rest) files := by
  refine Procedure.CrashSafe.performAtOnce
    (fileEffect_ne_shown fun _ => rfl) keeps ?_
  intro outcome after answer ended isAllowed
  cases outcome with
  | shows length => cases ended
  | succeeds =>
    obtain ⟨content, _, same⟩ := Option.map_eq_some_iff.mp ended
    cases same
    exact done isAllowed
  | fails reason =>
    cases ended
    exact failed reason

theorem Prepared.safe_readSource (prepared : Prepared old new files)
    (done : Safe allowed old new (rest (.ok new)) files)
    (failed : ∀ reason, Safe allowed old new (rest (.error reason)) files) :
    Safe allowed old new (Procedure.ask (.readFile .source) >>= rest) files := by
  refine Procedure.CrashSafe.performAtOnce
    (fileEffect_ne_shown fun _ => rfl) prepared.keepsContent ?_
  intro outcome after answer ended _
  cases outcome with
  | shows length => cases ended
  | succeeds =>
    obtain ⟨content, isThere, same⟩ := Option.map_eq_some_iff.mp ended
    cases same
    obtain rfl : new = content :=
      Option.some.inj (prepared.source.symm.trans isThere)
    exact done
  | fails reason =>
    cases ended
    exact failed reason

theorem Prepared.safe_openTarget (prepared : Prepared old new files)
    (done :
      ∀ {after}, Prepared old new after → Safe (keepsCopy old new) old new (rest (.ok [])) after)
    (failed : ∀ reason, Safe (keepsCopy old new) old new (rest (.error reason)) files) :
    Safe (keepsCopy old new) old new (Procedure.ask (.openFile .target) >>= rest) files := by
  refine Procedure.CrashSafe.performAtOnce
    (fileEffect_ne_shown fun _ => rfl) prepared.keepsContent ?_
  intro outcome after answer ended isAllowed
  cases outcome with
  | shows length => cases ended
  | succeeds =>
    cases ended
    exact done (prepared.put isAllowed)
  | fails reason =>
    cases ended
    exact failed reason

theorem Prepared.safe_writeTarget (prepared : Prepared old new files)
    (content : Bytes)
    (writes :
      call = .printTo .target content ∨ call = .closeFile .target content ∨
        call = .drop .target content)
    (answered :
      ∀ {middle after outcome answer},
        Prepared old new middle →
        fileEffect middle call outcome = some (after, some answer) →
        keepsCopy old new middle call outcome →
        Safe (keepsCopy old new) old new (rest answer) after) :
    Safe (keepsCopy old new) old new (Procedure.ask call >>= rest) files := by
  refine Procedure.CrashSafe.perform (Prepared old new) prepared ?_
    Prepared.keepsContent answered
  intro middle outcome after inside shown isAllowed
  cases outcome with
  | shows length =>
    rcases writes with rfl | rfl | rfl <;>
    · cases shown
      exact inside.put isAllowed
  | succeeds => rcases writes with rfl | rfl | rfl <;> cases shown
  | fails reason => rcases writes with rfl | rfl | rfl <;> cases shown

theorem keepsContent_of_target (isNew : files.target = some new) :
    KeepsContent old new files where
  complete := .inr (.inl isNew)
  notCut := by
    intro content has
    rw [isNew, Option.some.injEq] at has
    exact .inr has.symm

theorem safe_died (keeps : KeepsContent old new files) (reason : Text) :
    Safe allowed old new (pure (.error reason)) files :=
  Procedure.CrashSafe.finish keeps (by rintro ⟨⟩)

theorem safe_returned (isNew : files.target = some new) :
    Safe allowed old new (pure (.ok ())) files :=
  Procedure.CrashSafe.finish (keepsContent_of_target isNew)
    (fun _ => isNew)

theorem safe_giveUp (names : FileNames) (renameError : Text)
    (keeps : KeepsContent old new files)
    (whole :
      allowed files (.unlink .source) .succeeds →
        files.target = old ∨ files.target = some new) :
    Safe allowed old new (giveUp names renameError) files := by
  unfold giveUp
  refine safe_doesExist .source keeps ?_ ?_
  · intro content _
    refine safe_unlinkSource keeps ?_ ?_
    · intro isAllowed
      have kept : KeepsContent old new (files.put .source none) :=
        ⟨(whole isAllowed).imp_right .inl, keeps.notCut⟩
      exact safe_died kept _
    · intro reason
      exact safe_died keeps _
  · intro reason _
    exact safe_died keeps _

theorem Prepared.safe_overwriteStateFileInPlace
    (names : FileNames) {rest : Except Text Unit → FileProcedure Ending}
    (prepared : Prepared old new files)
    (done :
      ∀ {after}, after.target = some new → Safe (keepsCopy old new) old new (rest (.ok ())) after)
    (failed :
      ∀ {after} reason, Prepared old new after →
        Safe (keepsCopy old new) old new (rest (.error reason)) after) :
    Safe (keepsCopy old new) old new (overwriteStateFileInPlace names >>= rest) files := by
  refine prepared.safe_readSource ?_ fun reason => failed _ prepared
  refine prepared.safe_openTarget ?_ fun reason => failed _ prepared
  intro opened openedPrepared
  refine openedPrepared.safe_writeTarget _ (.inl rfl) ?_
  intro middle after outcome answer inside ended _
  cases outcome with
  | shows length => cases ended
  | succeeds =>
    cases ended
    refine inside.safe_writeTarget _ (.inr (.inl rfl)) ?_
    intro closing closed outcome answer atClose ended isAllowed
    have isNew : closed.target = some new := by
      cases outcome with
      | shows length => cases ended
      | succeeds =>
        cases ended
        exact congrArg some isAllowed
      | fails reason =>
        cases ended
        exact isAllowed
    refine safe_unlinkSource (keepsContent_of_target isNew) ?_ ?_
    · intro _
      exact done isNew
    · intro reason
      exact done isNew
  | fails reason =>
    cases ended
    refine inside.safe_writeTarget _ (.inr (.inr rfl)) ?_
    intro closing closed outcome answer atClose ended isAllowed
    cases outcome with
    | shows length => cases ended
    | succeeds =>
      cases ended
      exact failed _ (atClose.put isAllowed)
    | fails reason =>
      cases ended
      exact failed _ atClose

theorem Prepared.safe_fallBack (names : FileNames) (renameError : Text)
    {next : Text → FileProcedure Ending} (prepared : Prepared old new files)
    (goesOn :
      ∀ {after} reason, Prepared old new after →
        Safe (keepsCopy old new) old new (next reason) after) :
    Safe (keepsCopy old new) old new (fallBack names renameError next) files := by
  unfold fallBack
  refine prepared.safe_rename (.inr rfl) (safe_returned rfl) ?_
  intro moveReason
  refine prepared.safe_overwriteStateFileInPlace names ?_ ?_
  · intro after isNew
    exact safe_returned isNew
  · intro after reason stillPrepared
    exact goesOn _ stillPrepared

theorem Prepared.safe_afterRound (names : FileNames) (isLast : Bool)
    {again : Text → FileProcedure Ending} (renameError : Text)
    (prepared : Prepared old new files)
    (goesOn :
      ∀ {after} reason, Prepared old new after →
        Safe (keepsCopy old new) old new (again reason) after) :
    Safe (keepsCopy old new) old new (afterRound names isLast again renameError) files := by
  unfold afterRound
  cases isLast with
  | true => exact safe_giveUp names renameError prepared.keepsContent id
  | false =>
    refine prepared.safe_rename (.inl rfl) (safe_returned rfl) ?_
    intro reason
    exact goesOn reason prepared

theorem Prepared.safe_replaceRounds
    (names : FileNames) (left : Nat) (renameError : Text)
    (prepared : Prepared old new files) :
    Safe (keepsCopy old new) old new (replaceRounds names left renameError) files := by
  induction left generalizing files renameError with
  | zero => exact safe_giveUp names renameError prepared.keepsContent id
  | succ left ih =>
    have goesOn :
        ∀ {after} reason, Prepared old new after →
          Safe (keepsCopy old new) old new
            (afterRound names (decide (left = 0))
              (replaceRounds names left) reason) after := by
      intro after reason stillPrepared
      refine stillPrepared.safe_afterRound names _ reason ?_
      intro later reason laterPrepared
      exact ih reason laterPrepared
    unfold replaceRounds
    refine safe_doesExist .target prepared.keepsContent ?_ ?_
    · intro content _
      refine prepared.safe_unlinkTarget ?_ ?_
      · intro removed stillPrepared
        refine stillPrepared.safe_rename (.inl rfl) (safe_returned rfl) ?_
        intro reason
        exact stillPrepared.safe_fallBack names reason goesOn
      · intro reason
        exact safe_died prepared.keepsContent _
    · intro reason _
      exact prepared.safe_fallBack names renameError goesOn

theorem Prepared.safe_replaceStateFile_windows
    (names : FileNames) (prepared : Prepared old new files) :
    Safe (keepsCopy old new) old new (replaceStateFile true names)
      files := by
  unfold replaceStateFile
  refine prepared.safe_rename (.inl rfl) (safe_returned rfl) ?_
  intro reason
  exact prepared.safe_replaceRounds names 10 reason

theorem Prepared.safe_replaceStateFile
    (names : FileNames) (prepared : Prepared old new files)
    (isOld : files.target = old) :
    Safe allowed old new (replaceStateFile false names) files := by
  unfold replaceStateFile
  refine prepared.safe_rename (.inl rfl) (safe_returned rfl) ?_
  intro reason
  exact safe_giveUp names reason prepared.keepsContent fun _ => .inl isOld

theorem Prepared.safe_replaceHelperFile_windows
    (names : FileNames) (prepared : Prepared old new files) :
    Safe (keepsCopy old new) old new (replaceHelperFile true names)
      files := by
  unfold replaceHelperFile
  refine prepared.safe_rename (.inl rfl) (safe_returned rfl) ?_
  intro reason
  refine safe_doesExist .target prepared.keepsContent ?_ ?_
  · intro content _
    refine prepared.safe_unlinkTarget ?_ ?_
    · intro removed stillPrepared
      refine stillPrepared.safe_rename (.inl rfl) (safe_returned rfl) ?_
      intro again
      exact safe_giveUp names again stillPrepared.keepsContent id
    · intro refused
      exact safe_died prepared.keepsContent _
  · intro _ _
    exact safe_giveUp names reason prepared.keepsContent id

theorem Prepared.safe_replaceHelperFile
    (names : FileNames) (prepared : Prepared old new files)
    (isOld : files.target = old) :
    Safe allowed old new (replaceHelperFile false names) files := by
  unfold replaceHelperFile
  refine prepared.safe_rename (.inl rfl) (safe_returned rfl) ?_
  intro reason
  exact safe_giveUp names reason prepared.keepsContent fun _ => .inl isOld

theorem keepsContent_of_old (isOld : files.target = old) :
    KeepsContent old new files where
  complete := .inl isOld
  notCut := by
    intro content has
    exact .inl (has.symm.trans isOld)

theorem safe_writeSource {content : Bytes}
    (writes :
      call = .printTo .source content ∨ call = .closeFile .source content)
    (isOld : files.target = old)
    (answered :
      ∀ {middle after outcome answer},
        middle.target = old →
        fileEffect middle call outcome = some (after, some answer) →
        Safe allowed old new (rest answer) after) :
    Safe allowed old new (Procedure.ask call >>= rest) files := by
  refine Procedure.CrashSafe.perform (fun middle => middle.target = old)
    isOld ?_ keepsContent_of_old ?_
  · intro middle outcome after inside shown _
    cases outcome with
    | shows length =>
      rcases writes with rfl | rfl <;>
      · cases shown
        exact inside
    | succeeds => rcases writes with rfl | rfl <;> cases shown
    | fails reason => rcases writes with rfl | rfl <;> cases shown
  · intro middle outcome after answer inside ended _
    exact answered inside ended

/-- `_write_helper_atomically`, up to the prepared file. -/
theorem safe_writeHelperAtomically
    (isWindows : Bool) (names : FileNames) (isOld : files.target = old)
    (replaces :
      ∀ {after}, Prepared old new after → after.target = old →
        Safe allowed old new (replaceHelperFile isWindows names) after) :
    Safe allowed old new (writeHelperAtomically isWindows names new)
      files := by
  unfold writeHelperAtomically
  refine Procedure.CrashSafe.performAtOnce
    (fileEffect_ne_shown fun _ => rfl) (keepsContent_of_old isOld) ?_
  intro outcome after answer ended _
  cases outcome with
  | shows length => cases ended
  | fails reason =>
    cases ended
    exact safe_died (keepsContent_of_old isOld) _
  | succeeds =>
    cases ended
    refine safe_writeSource (.inl rfl) isOld ?_
    intro printing printed outcome answer printedOld ended
    have stillOld : printed.target = old := by
      cases outcome <;> cases ended <;> exact printedOld
    refine safe_writeSource (.inr rfl) stillOld ?_
    intro closing closed outcome answer closedOld ended
    cases outcome with
    | shows length => cases ended
    | fails reason =>
      cases ended
      exact safe_died (keepsContent_of_old closedOld) _
    | succeeds =>
      cases ended
      exact replaces ⟨rfl, (keepsContent_of_old closedOld).notCut⟩
        closedOld

/-- The runs of `_replace_state_file` on a prepared file. -/
def replaceSystem (isWindows : Bool) (names : FileNames)
    (old : Option Bytes) (new : Bytes) :
    TransitionSystem (FilePair × FileProcedure Ending)
      (FileCall × Outcome) :=
  Procedure.system fileEffect (replaceStateFile isWindows names)
    ⟨some new, old⟩

/-- The runs of `_write_helper_atomically`. -/
def helperSystem (isWindows : Bool) (names : FileNames)
    (old : Option Bytes) (new : Bytes) :
    TransitionSystem (FilePair × FileProcedure Ending)
      (FileCall × Outcome) :=
  Procedure.system fileEffect (writeHelperAtomically isWindows names new)
    ⟨none, old⟩

/--
Wherever a run is cut off, a complete copy is there and no reader sees a part
of one; a run that returns leaves the new content.
-/
def KeepsCopies (old : Option Bytes) (new : Bytes)
    (system :
      TransitionSystem (FilePair × FileProcedure Ending)
        (FileCall × Outcome)) : Prop :=
  ∀ trace state,
    system.Execution trace state →
      KeepsContent old new state.1 ∧
        ∀ ending, state.2 = .finish ending → LeavesNew new ending state.1

/-- The steps of a run that keep a copy; elsewhere these are all steps. -/
def copyingSteps (isWindows : Bool) (old : Option Bytes) (new : Bytes)
    (state : FilePair × FileProcedure Ending)
    (event : FileCall × Outcome) : Prop :=
  isWindows = true → keepsCopy old new state.1 event.1 event.2

theorem keepsCopies_of_safe {procedure : FileProcedure Ending}
    (safe : Safe allowed old new procedure files) :
    KeepsCopies old new
      ((Procedure.system fileEffect procedure files).restrict
        fun state event => allowed state.1 event.1 event.2) := by
  rintro trace ⟨last, rest⟩ execution
  have still := safe.execution execution
  refine ⟨still.initially, ?_⟩
  rintro ending rfl
  exact still.2

/--
A run keeps a copy, on Windows when it shows only whole contents in place and
does not remove the prepared file while the target is missing.
-/
theorem keepsCopies_of_copyingSteps (isWindows : Bool) (names : FileNames)
    (old : Option Bytes) (new : Bytes) :
    KeepsCopies old new
        ((replaceSystem isWindows names old new).restrict
          (copyingSteps isWindows old new)) ∧
      KeepsCopies old new
        ((helperSystem isWindows names old new).restrict
          (copyingSteps isWindows old new)) := by
  have isKept : KeepsContent old new ⟨some new, old⟩ :=
    keepsContent_of_old rfl
  have isPrepared : Prepared old new ⟨some new, old⟩ :=
    ⟨rfl, isKept.notCut⟩
  cases isWindows with
  | true =>
    have onWindows :
        copyingSteps true old new = fun state event =>
          keepsCopy old new state.1 event.1 event.2 := by
      funext state event
      exact propext (forall_prop_of_true rfl)
    rw [onWindows]
    refine ⟨keepsCopies_of_safe
      (isPrepared.safe_replaceStateFile_windows names),
      keepsCopies_of_safe
        (safe_writeHelperAtomically true names rfl ?_)⟩
    intro after prepared _
    exact prepared.safe_replaceHelperFile_windows names
  | false =>
    let anyStep : FilePair → FileCall → Outcome → Prop :=
      fun files call outcome =>
        false = true → keepsCopy old new files call outcome
    have stateSafe :
        Safe anyStep old new (replaceStateFile false names)
          ⟨some new, old⟩ :=
      isPrepared.safe_replaceStateFile names rfl
    have helperSafe :
        Safe anyStep old new (writeHelperAtomically false names new)
          ⟨none, old⟩ := by
      refine safe_writeHelperAtomically false names rfl ?_
      intro after prepared isOld
      exact prepared.safe_replaceHelperFile names isOld
    exact ⟨keepsCopies_of_safe stateSafe, keepsCopies_of_safe helperSafe⟩

/-- A Windows host that lets go of a target but lets nothing be moved there. -/
def refusingMoves : List Outcome :=
  let fails := Outcome.fails "Permission denied".toList
  [fails, .succeeds, .succeeds, fails, fails, fails, fails] ++
    (List.replicate 8 [fails, fails, fails, fails]).flatten ++
    [fails, fails, fails, .succeeds, .succeeds]

/-- The same for a helper, whose prepared file is written first. -/
def refusingHelper : List Outcome :=
  let fails := Outcome.fails "Permission denied".toList
  [.succeeds, .succeeds, .succeeds, fails, .succeeds, .succeeds, fails,
    .succeeds, .succeeds]

def bothMissing (_ : List (FileCall × Outcome))
    (state : FilePair × FileProcedure Ending) : Bool :=
  decide (state.1 = ⟨none, none⟩)

theorem not_keepsCopies_of_bothMissing
    {system :
      TransitionSystem (FilePair × FileProcedure Ending)
        (FileCall × Outcome)}
    (lost :
      ∃ trace last,
        system.Execution trace last ∧ bothMissing trace last = true) :
    ¬ KeepsCopies (some [1]) [2] system := by
  intro keeps
  obtain ⟨trace, last, execution, isLost⟩ := lost
  have kept := (keeps trace last execution).1.complete
  rw [of_decide_eq_true isLost] at kept
  simp at kept

/-- Both calls lose the old and the new content there. -/
theorem both_contents_are_lost :
    ¬ KeepsCopies (some [1]) [2]
        (replaceSystem true ⟨"new".toList, "state".toList⟩ (some [1]) [2]) ∧
      ¬ KeepsCopies (some [1]) [2]
        (helperSystem true ⟨"new".toList, "jq".toList⟩ (some [1]) [2]) := by
  constructor
  · exact not_keepsCopies_of_bothMissing
      (TransitionSystem.Execution.of_runInputs _ _ _ refusingMoves
        bothMissing rfl (by decide +kernel))
  · exact not_keepsCopies_of_bothMissing
      (TransitionSystem.Execution.of_runInputs _ _ _ refusingHelper
        bothMissing rfl (by decide +kernel))

end DeveloperDashboard.Files
