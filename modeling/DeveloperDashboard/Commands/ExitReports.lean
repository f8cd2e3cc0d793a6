import DeveloperDashboard.Commands.SkillHooks
import DeveloperDashboard.Commands.DependencySteps

namespace DeveloperDashboard.Commands

open Library Perl Skills

/-!
# What is reported of children

All programs that run commands of the user, side by side: what they say of
each child they start.  A report is true just when the child was not killed or
its place keeps the signal; a killed child is a success to the other places.
-/

/-- How `run_command` stops waiting for its child. -/
structure CommandWait where
  run : ChildRun Text
  /-- The alarm goes off, or the deadline passes. -/
  expired : Bool
deriving DecidableEq

/-- The result of `run_command`. -/
structure CommandResult where
  stdout : Text
  stderr : Text
  exitCode : Nat
  timedOut : Bool
deriving DecidableEq

/-- `run_command`. -/
def runCommand (wait : CommandWait) : CommandResult :=
  { stdout := wait.run.stdout
    stderr := wait.run.stderr
    exitCode :=
      if wait.expired then 124
      else exitCodeFromStatus (some wait.run.ended.status)
    timedOut := wait.expired }

/-- A call of one of the programs, with what its children do. -/
inductive Invocation where
  | runCommand (wait : CommandWait)
  /-- `dispatch`, with `execute_hooks`. -/
  | dispatch
      (hooks : List Path) (outcome : Path → ChildRun Text)
      (command : ChildRun Text)
  /-- `exec_command`, with `_execute_hooks_streaming`. -/
  | execCommand (hooks : List Path) (outcome : Path → ChildRun Text)
  | installSkillDependencies (setup : SkillSetup) (outcomes : StepOutcomes)
  | composeRun
      (resolved : ResolvedCompose) (children : ComposeStage → ChildRun Text)
  | composeRunStreaming
      (resolved : ResolvedCompose) (children : ComposeStage → ChildRun Text)

/-- What is said of one hook: its entry in `RESULT`, and `LAST_RESULT`. -/
def hookReports (executor last : Executor) (lastExit : Nat → Nat)
    (outcome : Path → ChildRun Text) (state : HookState) (hook : Path) :
    List Report :=
  let after := recordHook lastExit outcome state hook
  let entry := after.results.lookup (resultKey state.results hook)
  [{ executor := executor
     child := (outcome hook).ended
     expired := false
     exitCode := ((entry.map ResultEntry.exitCode).getD 0 : Nat)
     taken := false },
    { executor := last
      child := (outcome hook).ended
      expired := false
      exitCode := ((after.lastResult.map LastResult.exit).getD 0 : Nat)
      taken := false }]

def loopReports (executor last : Executor) (lastExit : Nat → Nat)
    (outcome : Path → ChildRun Text) :
    HookState → List Path → List Report
  | _, [] => []
  | state, hook :: rest =>
    hookReports executor last lastExit outcome state hook ++
      loopReports executor last lastExit outcome
        (recordHook lastExit outcome state hook) rest

namespace Invocation

/-- What a call says of the children it starts. -/
def reports : Invocation → List Report
  | runCommand wait =>
    [{ executor := .runCommand
       child := wait.run.ended
       expired := wait.expired
       exitCode := (Commands.runCommand wait).exitCode
       taken := false }]
  | dispatch hooks outcome command =>
    loopReports .executeHooks .executeHooksLast id outcome .initial hooks ++
      [{ executor := .dispatch
         child := command.ended
         expired := false
         exitCode :=
           (dispatchResult (captureHooks outcome hooks) command).exitCode
         taken := false }]
  | execCommand hooks outcome =>
    loopReports .runChildCommandStreaming .runChildCommandStreaming
      shiftedStatus outcome .initial hooks
  | installSkillDependencies setup outcomes =>
    (Commands.installSkillDependencies setup outcomes).reports
  | composeRun resolved children => (resolved.run children).reports
  | composeRunStreaming resolved children =>
    (resolved.runStreaming children).reports

def Truthful (invocation : Invocation) : Prop :=
  ∀ report ∈ invocation.reports, report.Truthful

/-- Every child that is started ends in a way its place can tell. -/
def ChildrenTold (invocation : Invocation) : Prop :=
  ∀ report ∈ invocation.reports, report.IsTold

end Invocation

variable {report : Report}

theorem decoded_of_kept (inTime : report.expired = false)
    (keeps : report.executor.keepsSignal = true)
    (zero : report.exitCode = 0 ↔ report.child.Succeeded)
    (taken : report.taken = true → report.exitCode = 0) :
    report.Decoded where
  expired late := absurd (inTime.symm.trans late) Bool.false_ne_true
  kept _ _ := zero
  shifted _ drops := absurd (drops.symm.trans keeps) Bool.false_ne_true
  taken := taken

theorem decoded_of_shifted (inTime : report.expired = false)
    (drops : report.executor.keepsSignal = false)
    (shifted : report.exitCode = shiftedStatus report.child.status)
    (taken : report.taken = true → report.exitCode = 0) :
    report.Decoded where
  expired late := absurd (inTime.symm.trans late) Bool.false_ne_true
  kept _ keeps := absurd (drops.symm.trans keeps) Bool.false_ne_true
  shifted _ _ := shifted
  taken := taken

theorem decoded_streamingReport
    {command : StreamingCommand} {outcome : StreamingOutcome} {taken : Bool}
    (zero :
      taken = true → (runStreamingCommand command outcome).exit = 0) :
    (streamingReport command outcome taken).Decoded where
  expired late := by
    simp only [streamingReport, runStreamingCommand] at late ⊢
    rw [if_pos late]
    decide
  kept _ keeps := absurd keeps Bool.false_ne_true
  shifted inTime _ := by
    simp only [streamingReport, runStreamingCommand] at inTime ⊢
    rw [inTime]
    rfl
  taken := zero

theorem decoded_configReport (run : ChildRun Text) :
    (configReport run).Decoded :=
  decoded_of_shifted rfl rfl rfl fun taken =>
    Int.natCast_eq_zero.mpr (of_decide_eq_true taken)

theorem streamingExitCode_eq (status : Nat) :
    ResolvedCompose.streamingExitCode status =
      exitCodeFromStatus (some status) :=
  rfl

theorem hookReports_eq (executor last : Executor) (lastExit : Nat → Nat)
    (outcome : Path → ChildRun Text) (state : HookState) (hook : Path) :
    hookReports executor last lastExit outcome state hook =
      [⟨executor, (outcome hook).ended, false,
          shiftedStatus (outcome hook).ended.status, false⟩,
        ⟨last, (outcome hook).ended, false,
          lastExit (outcome hook).ended.status, false⟩] := by
  simp [hookReports, recordHook]

theorem decoded_captured
    {outcome : Path → ChildRun Text} {hooks : List Path} {state : HookState}
    (member :
      report ∈
        loopReports .executeHooks .executeHooksLast id outcome state hooks) :
    report.Decoded := by
  induction hooks generalizing state with
  | nil => exact absurd member List.not_mem_nil
  | cons hook rest ih =>
    rw [loopReports, hookReports_eq] at member
    rcases List.mem_append.mp member with isThis | isLater
    · rcases List.mem_pair.mp isThis with rfl | rfl
      · exact decoded_of_shifted rfl rfl rfl (absurd · Bool.false_ne_true)
      · exact decoded_of_kept rfl rfl
          (Int.natCast_eq_zero.trans (ChildEnd.status_eq_zero_iff _))
          (absurd · Bool.false_ne_true)
    · exact ih isLater

theorem decoded_streamed
    {outcome : Path → ChildRun Text} {hooks : List Path} {state : HookState}
    (member :
      report ∈
        loopReports .runChildCommandStreaming .runChildCommandStreaming
          shiftedStatus outcome state hooks) :
    report.Decoded := by
  induction hooks generalizing state with
  | nil => exact absurd member List.not_mem_nil
  | cons hook rest ih =>
    rw [loopReports, hookReports_eq] at member
    rcases List.mem_append.mp member with isThis | isLater
    · rcases List.mem_pair.mp isThis with rfl | rfl <;>
        exact decoded_of_shifted rfl rfl rfl (absurd · Bool.false_ne_true)
    · exact ih isLater

def StepRun.IsDecoded (run : StepRun) : Prop :=
  ∀ report ∈ run.reports, report.Decoded

namespace StepRun

@[simp] theorem isDecoded_nil (result : StepResult) :
    IsDecoded ⟨result, []⟩ :=
  fun _ member => absurd member List.not_mem_nil

theorem isDecoded_cons {result inner : StepResult} {reports : List Report}
    (first : report.Decoded) (later : IsDecoded ⟨inner, reports⟩) :
    IsDecoded ⟨result, report :: reports⟩ :=
  List.forall_mem_cons.mpr ⟨first, later⟩

end StepRun

namespace SkillSetup

variable {setup : SkillSetup}

theorem isDecoded_singleCommand
    (command : StreamingCommand) (outcome : StreamingOutcome)
    (what : String) (after : StepResult → StepResult) :
    (setup.singleCommand command outcome what after).IsDecoded := by
  unfold singleCommand
  dsimp only
  split
  · exact StepRun.isDecoded_cons
      (decoded_streamingReport (absurd · Bool.false_ne_true))
      (StepRun.isDecoded_nil .skipped)
  · split
    · exact StepRun.isDecoded_cons
        (decoded_streamingReport (absurd · Bool.false_ne_true))
        (StepRun.isDecoded_nil .skipped)
    · next zero =>
        exact StepRun.isDecoded_cons
          (decoded_streamingReport fun _ => not_not.mp zero)
          (StepRun.isDecoded_nil .skipped)

theorem isDecoded_commandLoop
    (failure : StreamingCommand → StreamingRun → Text)
    (commands : List (StreamingCommand × StreamingOutcome))
    (stdout stderr : Text) :
    (commandLoop failure commands stdout stderr).IsDecoded := by
  induction commands generalizing stdout stderr with
  | nil => exact StepRun.isDecoded_nil _
  | cons first rest ih =>
    obtain ⟨command, outcome⟩ := first
    unfold commandLoop
    dsimp only
    split
    · exact StepRun.isDecoded_cons
        (decoded_streamingReport (absurd · Bool.false_ne_true))
        (StepRun.isDecoded_nil .skipped)
    · next zero =>
        exact StepRun.isDecoded_cons
          (decoded_streamingReport fun _ => not_not.mp zero)
          (ih _ _)

theorem isDecoded_packageStep
    (system : HostSystem) (packages : List Text) (manager : List String)
    (what : String) (outcome : StreamingOutcome) :
    (setup.packageStep system packages manager what outcome).IsDecoded := by
  unfold packageStep
  dsimp only
  split
  · exact StepRun.isDecoded_nil _
  · exact isDecoded_singleCommand _ _ _ _

theorem isDecoded_cpanmStep
    (present : Bool) (target : Text) (manifest what : String)
    (outcome : StreamingOutcome) :
    (setup.cpanmStep present target manifest what outcome).IsDecoded := by
  unfold cpanmStep
  split
  · exact StepRun.isDecoded_nil _
  · exact isDecoded_singleCommand _ _ _ _

section

variable (outcome : Nat → StreamingOutcome)

include outcome

theorem isDecoded_installBrewfile :
    (setup.installBrewfile outcome).IsDecoded := by
  unfold installBrewfile
  split
  · exact StepRun.isDecoded_nil _
  · exact isDecoded_singleCommand _ _ _ _

theorem isDecoded_installWingetfile :
    (setup.installWingetfile outcome).IsDecoded := by
  unfold installWingetfile
  split
  · exact StepRun.isDecoded_nil _
  · exact isDecoded_commandLoop _ _ _ _

theorem isDecoded_installPackageJson :
    (setup.installPackageJson outcome).IsDecoded := by
  unfold installPackageJson
  split
  · exact StepRun.isDecoded_nil _
  · exact isDecoded_singleCommand _ _ _ _

theorem isDecoded_installRequirementsTxt :
    (setup.installRequirementsTxt outcome).IsDecoded := by
  unfold installRequirementsTxt
  split
  · exact StepRun.isDecoded_nil _
  · split
    · exact isDecoded_singleCommand _ _ _ _
    · exact StepRun.isDecoded_cons
        (decoded_streamingReport (absurd · Bool.false_ne_true))
        (isDecoded_singleCommand _ _ _ _)

theorem isDecoded_installMakefile :
    (setup.installMakefile outcome).IsDecoded := by
  unfold installMakefile
  split
  · exact StepRun.isDecoded_nil _
  · exact isDecoded_commandLoop _ _ _ _

theorem isDecoded_installDockerfile :
    (setup.installDockerfile outcome).IsDecoded := by
  unfold installDockerfile
  split
  · exact StepRun.isDecoded_nil _
  · dsimp only
    split
    · exact StepRun.isDecoded_cons
        (decoded_streamingReport (absurd · Bool.false_ne_true))
        (StepRun.isDecoded_nil .skipped)
    · next zero =>
        exact StepRun.isDecoded_cons
          (decoded_streamingReport fun _ => not_not.mp zero)
          (StepRun.isDecoded_nil .skipped)

end

theorem isDecoded_of_mem_steps
    {step : InstallTask × ((Nat → StreamingOutcome) → StepRun)}
    (member : step ∈ setup.steps) (outcome : Nat → StreamingOutcome) :
    (step.2 outcome).IsDecoded := by
  simp only [steps, List.mem_cons, List.not_mem_nil, or_false] at member
  rcases member with rfl | rfl | rfl | rfl | rfl | rfl | rfl | rfl | rfl |
    rfl | rfl
  · exact isDecoded_packageStep _ _ _ _ _
  · exact isDecoded_packageStep _ _ _ _ _
  · exact isDecoded_packageStep _ _ _ _ _
  · exact isDecoded_installWingetfile _
  · exact isDecoded_installBrewfile _
  · exact isDecoded_installPackageJson _
  · exact isDecoded_installRequirementsTxt _
  · exact isDecoded_cpanmStep _ _ _ _ _
  · exact isDecoded_cpanmStep _ _ _ _ _
  · exact isDecoded_installMakefile _
  · exact isDecoded_installDockerfile _

end SkillSetup

/-- The loop over the steps says what the steps say. -/
theorem isDecoded_runSteps
    {steps : List (InstallTask × ((Nat → StreamingOutcome) → StepRun))}
    {outcomes : StepOutcomes}
    (decoded : ∀ step ∈ steps, ∀ outcome, (step.2 outcome).IsDecoded)
    (ran : Bool) (stdout stderr : Text) :
    (runSteps outcomes steps ran stdout stderr).IsDecoded := by
  induction steps generalizing ran stdout stderr with
  | nil => exact StepRun.isDecoded_nil _
  | cons first rest ih =>
    obtain ⟨task, step⟩ := first
    have this := decoded (task, step) List.mem_cons_self (outcomes task)
    have later (ran : Bool) (stdout stderr : Text) :=
      ih
        (fun other member => decoded other (List.mem_cons_of_mem _ member))
        ran stdout stderr
    unfold runSteps
    dsimp only
    split
    · exact this
    · exact List.forall_mem_append.mpr ⟨this, later _ _ _⟩
    · exact List.forall_mem_append.mpr ⟨this, later _ _ _⟩

variable {resolved : ResolvedCompose}
  {children : ComposeStage → ChildRun Text}

/-- Services that are known: up to two `config` children. -/
theorem decoded_materializeServices
    {parts : ComposeParts} {services : List Text}
    (member :
      report ∈
        (resolved.materializeServices children parts services).reports) :
    report.Decoded := by
  unfold ResolvedCompose.materializeServices at member
  dsimp only at member
  split at member
  · rw [List.mem_singleton.mp member]
    exact decoded_configReport _
  · split at member
    · rw [List.mem_singleton.mp member]
      exact decoded_configReport _
    · split at member <;>
      · rcases List.mem_pair.mp member with rfl | rfl <;>
          exact decoded_configReport _

/-- Materializing says what the `config` children did. -/
theorem decoded_materialized
    (member : report ∈ (resolved.materializedCommand children).reports) :
    report.Decoded := by
  unfold ResolvedCompose.materializedCommand at member
  split at member
  · exact absurd member List.not_mem_nil
  · split at member
    · exact absurd member List.not_mem_nil
    · unfold ResolvedCompose.materializeParts at member
      dsimp only at member
      split at member
      · exact absurd member List.not_mem_nil
      · split at member
        · rw [List.mem_singleton.mp member]
          exact decoded_configReport _
        · split at member
          · rw [List.mem_singleton.mp member]
            exact decoded_configReport _
          · exact decoded_materializeServices member

theorem decoded_runWith {executor : Executor} {decode : Nat → Nat}
    (operation :
      Report.Decoded
        ⟨executor, (children .operation).ended, false,
          decode (children .operation).ended.status, false⟩)
    (member :
      report ∈ (resolved.runWith executor decode children).reports) :
    report.Decoded := by
  unfold ResolvedCompose.runWith at member
  dsimp only at member
  split at member
  · exact decoded_materialized member
  · rcases List.mem_append.mp member with isConfig | isOperation
    · exact decoded_materialized isConfig
    · rw [List.mem_singleton.mp isOperation]
      exact operation

/-- Whatever is called, its reports are decoded statuses. -/
theorem Invocation.decoded_of_mem {invocation : Invocation}
    (member : report ∈ invocation.reports) :
    report.Decoded := by
  cases invocation with
  | runCommand wait =>
    rw [List.mem_singleton.mp member]
    cases wait with
    | mk run expired =>
      cases expired with
      | true =>
        exact
          { expired := fun _ => show ((124 : Nat) : Int) ≠ 0 by decide
            kept := fun inTime => absurd inTime.symm Bool.false_ne_true
            shifted := fun _ drops => absurd drops.symm Bool.false_ne_true
            taken := (absurd · Bool.false_ne_true) }
      | false =>
        refine decoded_of_kept rfl rfl ?_ (absurd · Bool.false_ne_true)
        exact Int.natCast_eq_zero.trans
          (ChildEnd.exitCodeFromStatus_eq_zero_iff _)
  | dispatch hooks outcome command =>
    rcases List.mem_append.mp member with isHook | isCommand
    · exact decoded_captured isHook
    · rw [List.mem_singleton.mp isCommand]
      exact decoded_of_shifted rfl rfl rfl (absurd · Bool.false_ne_true)
  | execCommand hooks outcome => exact decoded_streamed member
  | installSkillDependencies setup outcomes =>
    exact isDecoded_runSteps
      (fun step isStep outcome =>
        SkillSetup.isDecoded_of_mem_steps isStep outcome)
      false [] [] report member
  | composeRun resolved children =>
    exact decoded_runWith
      (decoded_of_shifted rfl rfl rfl (absurd · Bool.false_ne_true)) member
  | composeRunStreaming resolved children =>
    refine decoded_runWith
      (decoded_of_kept rfl rfl ?_ (absurd · Bool.false_ne_true)) member
    rw [streamingExitCode_eq]
    exact Int.natCast_eq_zero.trans
      (ChildEnd.exitCodeFromStatus_eq_zero_iff _)

/--
What a call says of its children is true just when each of them ends in a way
that its place can tell: a place that shifts the status tells nothing of
signals, and a child that is given up is no success.
-/
theorem Invocation.truthful_iff (invocation : Invocation) :
    invocation.Truthful ↔ invocation.ChildrenTold :=
  forall₂_congr fun _ member => (decoded_of_mem member).truthful_iff_nonzero

/-- A child that was ended by `SIGKILL`. -/
def killedRun : ChildRun Text :=
  { stdout := []
    stderr := []
    ended := .killed ⟨9, by decide, by decide⟩ false }

/-- A killed hook and a killed command are both told to have succeeded. -/
theorem dispatch_tells_success :
    let hook : Path := [['a']]
    let state := captureHooks (fun _ => killedRun) [hook]
    (state.results.lookup ['a']).map ResultEntry.exitCode = some 0 ∧
      (dispatchResult state killedRun).exitCode = 0 ∧
      ¬(Invocation.dispatch [hook] (fun _ => killedRun) killedRun).Truthful := by
  refine ⟨by decide +kernel, by decide +kernel, fun truthful => ?_⟩
  have told :=
    truthful ⟨.dispatch, killedRun.ended, false, 0, false⟩
      (List.mem_append_right _ (List.mem_singleton.mpr rfl))
  exact absurd (told.zero_iff.mp rfl) (by decide)

end DeveloperDashboard.Commands
