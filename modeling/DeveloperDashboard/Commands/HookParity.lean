import DeveloperDashboard.Commands.SkillHooks

namespace DeveloperDashboard.Commands

open Library Perl Skills

/-!
# Captured and streamed hooks

Of a command that both `dispatch` and `exec_command` resolve, the first has its
hooks captured and the second has them streamed.  The two loops agree as long
as nothing but successes are handed on, since zero is the only status that is
its own exit code; and the streaming loop takes a command that is named `0` for
one that is missing.
-/

/-- What a hook wrote that exited, and its exit code. -/
structure ChildExit where
  stdout : Text
  stderr : Text
  code : Fin 256
deriving DecidableEq

def ChildExit.run (exit : ChildExit) : ChildRun Text :=
  { stdout := exit.stdout
    stderr := exit.stderr
    ended := .exited exit.code }

/-- The hooks that run before a command, if it gets that far. -/
def hooksOf : Dispatched → List Path
  | .run hooks _ => hooks
  | _ => []

def handedState (loop : List Path → HookState) :
    Dispatched → Option HookState
  | .run hooks _ => some (loop hooks)
  | _ => none

theorem status_eq_shiftedStatus_iff (code : Fin 256) :
    (ChildEnd.exited code).status =
        shiftedStatus (ChildEnd.exited code).status ↔
      code.val = 0 := by
  rw [ChildEnd.shiftedStatus_exited, ChildEnd.status]
  omega

theorem recordHook_eq_of_zero
    {exits : Path → ChildExit} {hook : Path} (state : HookState)
    (zero : (exits hook).code.val = 0) :
    recordHook id (ChildExit.run ∘ exits) state hook =
      recordHook shiftedStatus (ChildExit.run ∘ exits) state hook := by
  have same := (status_eq_shiftedStatus_iff (exits hook).code).mpr zero
  unfold recordHook
  simp only [Function.comp_apply, ChildExit.run, id_eq]
  rw [← same]

theorem eq_of_recordHook_eq
    {exits : Path → ChildExit} {hook : Path} {captured streamed : HookState}
    (before :
      captured.calls.length = streamed.calls.length)
    (same :
      recordHook id (ChildExit.run ∘ exits) captured hook =
        recordHook shiftedStatus (ChildExit.run ∘ exits) streamed hook) :
    captured = streamed ∧ (exits hook).code.val = 0 := by
  have calls := congrArg HookState.calls same
  have last := congrArg HookState.lastResult same
  simp only [HookState.recordHook_calls] at calls
  obtain ⟨earlier, now⟩ := List.append_inj calls before
  simp only [List.cons.injEq, HookCall.mk.injEq, true_and, and_true] at now
  simp only [recordHook, Option.some.injEq, LastResult.mk.injEq, true_and,
    and_true, Function.comp_apply, ChildExit.run, id_eq] at last
  refine ⟨?_, (status_eq_shiftedStatus_iff _).mp last⟩
  cases captured
  cases streamed
  simp_all only

theorem captureHooks_eq_streamHooks_iff
    (exits : Path → ChildExit) (hooks : List Path) :
    captureHooks (ChildExit.run ∘ exits) hooks =
        streamHooks (ChildExit.run ∘ exits) hooks ↔
      ∀ hook ∈ hooks, (exits hook).code.val = 0 := by
  unfold captureHooks streamHooks
  -- The last hook first: a state tells what every earlier hook was handed.
  induction hooks using List.reverseRecOn with
  | nil => simp
  | append_singleton front hook ih =>
    rw [List.foldl_concat, List.foldl_concat]
    constructor
    · intro same member isIn
      have before (lastExit : Nat → Nat) :=
        congrArg List.length
          (HookState.hook_calls_foldl lastExit (ChildExit.run ∘ exits)
            front .initial)
      simp only [List.length_map, List.length_append] at before
      obtain ⟨earlier, zero⟩ :=
        eq_of_recordHook_eq ((before id).trans (before _).symm) same
      rcases List.mem_append.mp isIn with inFront | isLast
      · exact ih.mp earlier member inFront
      · rw [List.mem_singleton.mp isLast]
        exact zero
    · intro zeros
      have earlier :=
        ih.mpr fun member isIn =>
          zeros member (List.mem_append_left _ isIn)
      rw [earlier]
      exact recordHook_eq_of_zero _ (zeros hook (by simp))

theorem hooks_eq_of_loops_eq
    {captured streamed : Path → ChildRun Text} {hooks others : List Path}
    (same : captureHooks captured hooks = streamHooks streamed others) :
    hooks = others := by
  have calls := congrArg (fun state => state.calls.map HookCall.hook) same
  simpa [captureHooks, streamHooks, HookState.hook_calls_foldl,
    HookState.initial] using calls

section

variable {Content : Type} (paths : PathRegistry Content)
variable (executable : Content → Bool) (exits : Path → ChildExit)

/-- What a command is handed that `dispatch` runs. -/
def bufferedState (skillName command : Text) : Option HookState :=
  handedState (captureHooks (ChildExit.run ∘ exits))
    (paths.dispatch executable skillName command)

/-- What a command is handed that `exec_command` runs. -/
def streamedState (skillName command : Text) : Option HookState :=
  handedState (streamHooks (ChildExit.run ∘ exits))
    (paths.execCommand executable skillName command)

/-- The command is not resolved to a file whose command is named `0`. -/
def HasTrueName (skillName command : Text) : Prop :=
  ∀ spec,
    paths.commandSpec executable skillName command = some spec →
      isTrue spec.commandName = true

/-- Every hook that runs before a command exits with zero. -/
def HooksSucceed (skillName command : Text) : Prop :=
  ∀ hook ∈ hooksOf (paths.dispatch executable skillName command),
    (exits hook).code.val = 0 ∧ HasTrueName paths executable skillName command

variable {paths executable}

def IsRefusal (dispatched : Dispatched) : Prop :=
  hooksOf dispatched = [] ∧
    ∀ loop, handedState loop dispatched = none

/-- A command is refused before its hooks, whichever way, or resolved. -/
theorem dispatchWith_cases (skillName command : Text) :
    (∃ refusal, IsRefusal refusal ∧ ∀ hooks,
        paths.dispatchWith executable skillName command hooks = refusal) ∨
      ∃ spec,
        paths.commandSpec executable skillName command = some spec ∧
          isTrue skillName = true ∧
          paths.executeHooks executable skillName command =
            paths.hookPaths executable spec.skillLayers spec.commandName ∧
          ∀ hooks,
            paths.dispatchWith executable skillName command hooks =
              .run (hooks spec) spec.cmdPath := by
  unfold PathRegistry.dispatchWith PathRegistry.executeHooks
  cases named : isTrue skillName with
  | false => exact Or.inl ⟨_, ⟨rfl, fun _ => rfl⟩, fun _ => rfl⟩
  | true =>
  cases given : isTrue command with
  | false => exact Or.inl ⟨_, ⟨rfl, fun _ => rfl⟩, fun _ => rfl⟩
  | true =>
  cases missing : (paths.getSkillPath skillName).isNone with
  | true => exact Or.inl ⟨_, ⟨rfl, fun _ => rfl⟩, fun _ => rfl⟩
  | false =>
  cases enabled : paths.isEnabled skillName with
  | false => exact Or.inl ⟨_, ⟨rfl, fun _ => rfl⟩, fun _ => rfl⟩
  | true =>
  cases found : paths.commandSpec executable skillName command with
  | some spec => exact Or.inr ⟨spec, rfl, rfl, rfl, fun _ => rfl⟩
  | none =>
    refine Or.inl ?_
    by_cases version : command = "version".toList
    · exact ⟨_, ⟨rfl, fun _ => rfl⟩, fun _ => if_pos version⟩
    · exact ⟨_, ⟨rfl, fun _ => rfl⟩, fun _ => if_neg version⟩

end

/--
Both ways run the same hooks, hand them the same and hand the same to the
command, just when every hook succeeds and the command is not named `0`.
-/
theorem bufferedState_eq_streamedState_iff
    {Content : Type} (paths : PathRegistry Content)
    (executable : Content → Bool) (exits : Path → ChildExit)
    (skillName command : Text) :
    bufferedState paths executable exits skillName command =
        streamedState paths executable exits skillName command ↔
      HooksSucceed paths executable exits skillName command := by
  unfold bufferedState streamedState HooksSucceed
  have cases :=
    @dispatchWith_cases Content paths executable skillName command
  rcases cases with
    ⟨refusal, ⟨noHooks, nothing⟩, refused⟩ |
      ⟨spec, found, named, captured, resolved⟩
  · unfold PathRegistry.dispatch PathRegistry.execCommand
    rw [refused, refused, noHooks, nothing, nothing]
    simp
  · have trueName :
        HasTrueName paths executable skillName command ↔
          isTrue spec.commandName = true := by
      unfold HasTrueName
      rw [found]
      simp
    unfold PathRegistry.dispatch PathRegistry.execCommand
    rw [resolved, resolved, captured, trueName]
    simp only [handedState, hooksOf, Option.some.injEq,
      PathRegistry.executeHooksStreaming, named, Bool.not_true,
      Bool.false_or]
    cases isTrue spec.commandName with
    | true =>
      simpa using captureHooks_eq_streamHooks_iff exits _
    | false =>
      constructor
      · intro same
        rw [hooks_eq_of_loops_eq same]
        simp
      · intro quiet
        have none :
            paths.hookPaths executable spec.skillLayers spec.commandName =
              [] :=
          List.eq_nil_iff_forall_not_mem.mpr fun hook member =>
            absurd (quiet hook member).2 Bool.false_ne_true
        rw [none]
        rfl

/-- A skill `foo` with a command `run` that has one hook. -/
def hookedPaths : PathRegistry Unit where
  tree :=
    { entries :=
        [([], .folder), ([['h']], .folder), ([['h'], "foo".toList], .folder),
          ([['h'], "foo".toList, "cli".toList], .folder),
          ([['h'], "foo".toList, "cli".toList, "run".toList], .file ()),
          ([['h'], "foo".toList, "cli".toList, "run.d".toList], .folder),
          ([['h'], "foo".toList, "cli".toList, "run.d".toList, ['a']],
            .file ())]
      closed := by decide }
  skillsRoots := [[['h']]]

def lastExit (state : Option HookState) : Option Nat :=
  (state.bind HookState.lastResult).map LastResult.exit

/-- A hook that exits with three leaves 768 the one way and three the other. -/
theorem lastResult_differs :
    let exits : Path → ChildExit := fun _ => ⟨[], [], 3⟩
    let buffered :=
      bufferedState hookedPaths (fun _ => true) exits "foo".toList
        "run".toList
    let streamed :=
      streamedState hookedPaths (fun _ => true) exits "foo".toList
        "run".toList
    lastExit buffered = some 768 ∧ lastExit streamed = some 3 ∧
      buffered ≠ streamed := by
  refine ⟨by decide +kernel, by decide +kernel, by decide +kernel⟩

end DeveloperDashboard.Commands
