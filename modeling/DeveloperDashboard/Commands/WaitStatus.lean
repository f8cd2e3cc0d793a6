import Mathlib.Data.Nat.Bitwise
import Mathlib.Data.Fin.Basic

namespace DeveloperDashboard.Commands

/-!
# Wait statuses

A child that is waited for exits with a code or is ended by a signal.  The
system packs the one and the other into one number, `$?`: the code stands
above the lowest eight bits, the signal in the lowest seven, and the bit
between them says that the core was dumped.  Two decodings of it are in use:
one keeps the signal apart, the other, which is written out in most places,
shifts it away.
-/

structure Signal where
  number : Nat
  positive : 0 < number
  small : number < 127
deriving DecidableEq

inductive ChildEnd where
  | exited (code : Fin 256)
  | killed (signal : Signal) (dumped : Bool)
deriving DecidableEq

namespace ChildEnd

/-- The raw status, as in `$?`. -/
def status : ChildEnd → Nat
  | exited code => code.val * 256
  | killed signal dumped => signal.number + if dumped then 128 else 0

def Succeeded (child : ChildEnd) : Prop :=
  child = exited 0

instance (child : ChildEnd) : Decidable child.Succeeded :=
  inferInstanceAs (Decidable (child = exited 0))

def Killed : ChildEnd → Prop
  | exited _ => False
  | killed _ _ => True

end ChildEnd

/-- `$? >> 8`. -/
def shiftedStatus (status : Nat) : Nat :=
  status >>> 8

/-- `exit_code_from_status`, of a status that may be undefined. -/
def exitCodeFromStatus (status : Option Nat) : Nat :=
  let status := status.getD 0
  let signal := status &&& 127
  if signal ≠ 0 then 128 + signal else status >>> 8

structure ChildRun (Output : Type) where
  stdout : Output
  stderr : Output
  ended : ChildEnd
deriving DecidableEq

namespace ChildEnd

@[simp] theorem shiftedStatus_exited (code : Fin 256) :
    shiftedStatus (exited code).status = code := by
  simp [shiftedStatus, status, Nat.shiftRight_eq_div_pow]

@[simp] theorem shiftedStatus_killed (signal : Signal) (dumped : Bool) :
    shiftedStatus (killed signal dumped).status = 0 := by
  have small := signal.small
  rw [shiftedStatus, Nat.shiftRight_eq_div_pow]
  refine Nat.div_eq_of_lt ?_
  cases dumped <;> simp only [status] <;> grind

theorem signalBits_killed (signal : Signal) (dumped : Bool) :
    (killed signal dumped).status &&& 127 = signal.number := by
  have small := signal.small
  have low : ∀ number : Nat, number &&& 127 = number % 128 :=
    fun number => Nat.and_two_pow_sub_one_eq_mod number 7
  rw [low]
  cases dumped <;> simp only [status] <;> grind

@[simp] theorem exitCodeFromStatus_exited (code : Fin 256) :
    exitCodeFromStatus (some (exited code).status) = code := by
  have low : code.val * 256 &&& 127 = code.val * 256 % 128 :=
    Nat.and_two_pow_sub_one_eq_mod _ 7
  have none : (exited code).status &&& 127 = 0 := by
    rw [status, low]
    omega
  simp [exitCodeFromStatus, none, ← shiftedStatus_exited, shiftedStatus]

@[simp] theorem exitCodeFromStatus_killed (signal : Signal) (dumped : Bool) :
    exitCodeFromStatus (some (killed signal dumped).status) =
      128 + signal.number := by
  have positive := signal.positive
  simp only [exitCodeFromStatus, Option.getD_some, signalBits_killed]
  exact if_pos (by omega)

theorem succeeded_exited_iff (code : Fin 256) :
    (exited code).Succeeded ↔ code.val = 0 := by
  constructor
  · intro same
    rw [exited.inj same]
    rfl
  · intro zero
    exact congrArg exited (Fin.ext zero)

theorem Killed.not_succeeded {child : ChildEnd} (killed : child.Killed) :
    ¬ child.Succeeded := by
  rintro rfl
  exact killed

theorem status_eq_zero_iff (child : ChildEnd) :
    child.status = 0 ↔ child.Succeeded := by
  cases child with
  | exited code =>
    rw [succeeded_exited_iff, status]
    omega
  | killed signal dumped =>
    have positive := signal.positive
    have failed : ¬ (killed signal dumped).Succeeded :=
      Killed.not_succeeded trivial
    simp only [status, failed, iff_false]
    omega

theorem exitCodeFromStatus_eq_zero_iff (child : ChildEnd) :
    exitCodeFromStatus (some child.status) = 0 ↔ child.Succeeded := by
  cases child with
  | exited code =>
    rw [exitCodeFromStatus_exited, succeeded_exited_iff]
  | killed signal dumped =>
    have failed : ¬ (killed signal dumped).Succeeded :=
      Killed.not_succeeded trivial
    rw [exitCodeFromStatus_killed]
    simp only [failed, iff_false]
    omega

theorem shiftedStatus_eq_zero_iff (child : ChildEnd) :
    shiftedStatus child.status = 0 ↔ child.Succeeded ∨ child.Killed := by
  cases child with
  | exited code =>
    rw [shiftedStatus_exited, succeeded_exited_iff]
    exact (or_iff_left id).symm
  | killed signal dumped =>
    rw [shiftedStatus_killed]
    exact iff_of_true rfl (Or.inr trivial)

end ChildEnd

/-- The places where the status of a child of the user is decoded. -/
inductive Executor where
  /-- `CommandRunner::run_command`. -/
  | runCommand
  /-- The command of `SkillDispatcher::dispatch`. -/
  | dispatch
  /-- `RESULT` in `execute_hooks`. -/
  | executeHooks
  /-- `LAST_RESULT` in `execute_hooks`. -/
  | executeHooksLast
  /-- `_run_child_command_streaming`. -/
  | runChildCommandStreaming
  /-- `SkillManager::_run_streaming_command`. -/
  | runStreamingCommand
  /-- The `config` children of `_materialized_command`. -/
  | materializedCommand
  /-- `DockerCompose::run`. -/
  | composeRun
  /-- `DockerCompose::run_streaming`. -/
  | composeRunStreaming
deriving DecidableEq

def Executor.keepsSignal : Executor → Bool
  | runCommand | executeHooksLast | composeRunStreaming => true
  | _ => false

/-- What is said of a child, and whether a step went on as after success. -/
structure Report where
  executor : Executor
  child : ChildEnd
  /-- The child was given up before it ended. -/
  expired : Bool
  exitCode : Int
  taken : Bool
deriving DecidableEq

namespace Report

/-- Zero is reported of successes only, and only they are built on. -/
structure Truthful (report : Report) : Prop where
  zero_iff : report.exitCode = 0 ↔ report.child.Succeeded
  taken : report.taken = true → report.child.Succeeded

/-- The code tells what became of the child. -/
def IsTold (report : Report) : Prop :=
  if report.expired then ¬report.child.Succeeded
  else report.executor.keepsSignal = true ∨ ¬report.child.Killed

/-- The code is the decoding of its place, and nothing but zero is built on. -/
structure Decoded (report : Report) : Prop where
  expired : report.expired = true → report.exitCode ≠ 0
  kept :
    report.expired = false → report.executor.keepsSignal = true →
      (report.exitCode = 0 ↔ report.child.Succeeded)
  shifted :
    report.expired = false → report.executor.keepsSignal = false →
      report.exitCode = shiftedStatus report.child.status
  taken : report.taken = true → report.exitCode = 0

theorem Decoded.truthful_iff_nonzero {report : Report} (decoded : report.Decoded) :
    report.Truthful ↔ report.IsTold := by
  have onlyZero :
      report.Truthful ↔
        (report.exitCode = 0 ↔ report.child.Succeeded) :=
    ⟨Truthful.zero_iff, fun zero =>
      ⟨zero, fun taken => zero.mp (decoded.taken taken)⟩⟩
  rw [onlyZero, IsTold]
  cases expired : report.expired with
  | true =>
    have failed := decoded.expired expired
    simp [failed]
  | false =>
    cases keeps : report.executor.keepsSignal with
    | true => simpa using decoded.kept expired keeps
    | false =>
      rw [decoded.shifted expired keeps, Int.natCast_eq_zero,
        ChildEnd.shiftedStatus_eq_zero_iff]
      simp only [Bool.false_eq_true, if_false, false_or]
      constructor
      · exact fun same killed =>
          killed.not_succeeded (same.mp (Or.inr killed))
      · exact fun alive => or_iff_left alive

end Report

end DeveloperDashboard.Commands
