import DeveloperDashboard.Commands.WaitStatus
import DeveloperDashboard.Skills.SkillCommands

namespace DeveloperDashboard.Commands

open Library Perl Skills

/-!
# Hooks of skill commands

The hooks of a command run one after the other.  What they wrote and how they
ended is kept under their names in `RESULT`, which every later hook and the
command are given, and the last of them is in `LAST_RESULT`.  One loop captures
the hooks and one streams them; the two differ in the status they hand on.
-/

/-- An entry of `RESULT`. -/
structure ResultEntry where
  stdout : Text
  stderr : Text
  exitCode : Nat
deriving DecidableEq

/-- `LAST_RESULT`. -/
structure LastResult where
  file : Path
  exit : Nat
  stdout : Text
  stderr : Text
deriving DecidableEq

structure HookCall where
  hook : Path
  result : Entries Text ResultEntry
  lastResult : Option LastResult
deriving DecidableEq

/-- `%results` and `$last_result`, with the hooks that were run so far. -/
structure HookState where
  results : Entries Text ResultEntry
  lastResult : Option LastResult
  calls : List HookCall
deriving DecidableEq

namespace HookState

def initial : HookState :=
  { results := [], lastResult := none, calls := [] }

end HookState

def leafName (path : Path) : Text :=
  (path.getLast?).getD []

/-- `$result_key`: a name that is taken gets its directory before it. -/
def resultKey (results : Entries Text ResultEntry) (hook : Path) : Text :=
  if (results.lookup (leafName hook)).isSome then
    leafName hook.dropLast ++ '/' :: leafName hook
  else leafName hook

/-- The body of both loops, up to the status in `$last_result`. -/
def recordHook (lastExit : Nat → Nat) (outcome : Path → ChildRun Text)
    (state : HookState) (hook : Path) :
    HookState :=
  let run := outcome hook
  { results :=
      state.results.store (resultKey state.results hook)
        { stdout := run.stdout
          stderr := run.stderr
          exitCode := shiftedStatus run.ended.status }
    lastResult :=
      some
        { file := hook
          exit := lastExit run.ended.status
          stdout := run.stdout
          stderr := run.stderr }
    calls :=
      state.calls ++
        [{ hook := hook
           result := state.results
           lastResult := state.lastResult }] }

/-- The loop of `execute_hooks`, which hands on the raw status. -/
def captureHooks
    (outcome : Path → ChildRun Text) (hooks : List Path) : HookState :=
  hooks.foldl (recordHook id outcome) .initial

/--
The loop of `_execute_hooks_streaming`, which hands on the exit code of
`_run_child_command_streaming`.
-/
def streamHooks
    (outcome : Path → ChildRun Text) (hooks : List Path) : HookState :=
  hooks.foldl (recordHook shiftedStatus outcome) .initial

/-- What `dispatch` returns of a command. -/
structure DispatchResult where
  stdout : Text
  stderr : Text
  exitCode : Nat
  hooks : Entries Text ResultEntry
deriving DecidableEq

/-- The end of `dispatch`: the command runs after its hooks. -/
def dispatchResult (hooks : HookState) (command : ChildRun Text) :
    DispatchResult :=
  { stdout :=
      hooks.results.flatMap (fun entry => entry.2.stdout) ++ command.stdout
    stderr :=
      hooks.results.flatMap (fun entry => entry.2.stderr) ++ command.stderr
    exitCode := shiftedStatus command.ended.status
    hooks := hooks.results }

namespace HookState

@[simp] theorem recordHook_calls
    (lastExit : Nat → Nat) (outcome : Path → ChildRun Text)
    (state : HookState) (hook : Path) :
    (recordHook lastExit outcome state hook).calls =
      state.calls ++ [⟨hook, state.results, state.lastResult⟩] :=
  rfl

theorem hook_calls_foldl
    (lastExit : Nat → Nat) (outcome : Path → ChildRun Text)
    (hooks : List Path) (state : HookState) :
    ((hooks.foldl (recordHook lastExit outcome) state).calls.map
        HookCall.hook) =
      state.calls.map HookCall.hook ++ hooks := by
  induction hooks generalizing state with
  | nil => simp
  | cons hook rest ih =>
    rw [List.foldl_cons, ih, recordHook_calls]
    simp

end HookState

end DeveloperDashboard.Commands
