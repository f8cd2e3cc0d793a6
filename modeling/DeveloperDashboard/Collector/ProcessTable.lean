import DeveloperDashboard.Config.JsonValue
import DeveloperDashboard.Perl.Encoding
import DeveloperDashboard.Perl.Number
import Mathlib.Data.List.Dedup
import Mathlib.Data.List.Sort

namespace DeveloperDashboard.Collector

open Library Perl Config

/-!
# What a command sees of the processes

The processes in the view of one caller, as `/proc`, `ps`, `waitpid` and `kill`
show them, and the two files that record the loop of one collector.  Whose
processes they are is in no file; `origin` says it for the theorems.
-/

/-- One loop of a collector, of the many that it may have had. -/
structure LoopRun where
  name : Text
  launch : Nat
  deriving DecidableEq

/-- Whose process it is; what a worker started belongs to the worker. -/
inductive Origin where
  | loop (run : LoopRun)
  | worker (run : LoopRun)
  | other
  deriving DecidableEq

structure Process where
  pid : Nat
  group : Nat
  /-- the link `ns/pid`, where it can be read -/
  pidNamespace : Option Text
  signalable : Bool
  zombie : Bool
  child : Bool
  /-- the file `environ`, where it can be read -/
  environ : Option Text
  /-- the file `cmdline`, where it can be read -/
  cmdline : Option Text
  /-- what `ps -o args=` prints, when it finds the process -/
  psArgs : Option Text
  origin : Origin
  deriving DecidableEq

/-- The processes, the caller, and the files about the loop of a collector. -/
structure Machine where
  processes : List Process
  ownPid : Nat
  ownGroup : Nat
  ownNamespace : Option Text
  pidfile : Option Bytes
  state : Option ConfigHash

namespace Machine

/-- The process that `/proc/$pid` is about. -/
def procfs (machine : Machine) (pid : Text) : Option Process :=
  machine.processes.find? fun process =>
    (Nat.repr process.pid).toList = pid

/-- The process that `ps -p` finds. -/
def ps (machine : Machine) (pid : Text) : Option Process :=
  machine.processes.find? fun process => process.pid = stringNumber pid

/-- The processes that `kill` addresses by a `pid_t`. -/
def addressed (machine : Machine) (number : Int) : List Process :=
  machine.processes.filter fun process =>
    if 0 < number then process.pid = number
    else if number = 0 then process.group = machine.ownGroup
    else if number = -1 then
      process.pid ≠ 1 ∧ process.pid ≠ machine.ownPid
    else process.group = -number

def signalled (machine : Machine) (number : Int) : List Process :=
  (machine.addressed number).filter Process.signalable

/--
The argument of `kill` for a pid, which dies of digits that are not those of
ASCII.
-/
def killNumber (pid : Text) : Option Int :=
  if (chomp pid).all Char.isDigit then
    some (toPid (digitsIv (stringNumber pid)))
  else none

/-- The argument of `kill` for minus a pid. -/
def killGroupNumber (pid : Text) : Int :=
  toPid (negatedIv (stringNumber pid))

/-- `kill 0, $pid`. -/
def killZero (machine : Machine) (pid : Text) : Option Bool :=
  (killNumber pid).map fun number =>
    !(machine.signalled number).isEmpty

/-- `_reap_child_process`. -/
def reapChildProcess (machine : Machine) (pid : Text) : Bool :=
  matchesDigits pid && decide (1 ≤ stringNumber pid) &&
    machine.processes.any fun process =>
      process.child && process.zombie &&
        decide (process.pid = stringNumber pid)

/-- `_read_process_state($pid) eq 'Z'`. -/
def isZombie (machine : Machine) (pid : Text) : Bool :=
  ((machine.procfs pid).or (machine.ps pid)).any Process.zombie

/-- `_pid_is_running`. -/
def pidIsRunning (machine : Machine) (pid : Text) : Option Bool :=
  if !matchesDigits pid || decide (stringNumber pid < 1) then some false
  else if machine.reapChildProcess pid then some false
  else if machine.isZombie pid then some false
  else machine.killZero pid

end Machine

/-!
# How a loop is recognised

The evidence that a process is the loop of a collector: its environment, its
title, or the state file.
-/

/-- `_process_title`. -/
def processTitle (name : Text) : Text :=
  "dashboard collector: ".toList ++ name

/-- Whether a field that is read with `|| ''` has a text. -/
def fieldIs (state : ConfigHash) (key : String) (text : Text) : Bool :=
  match recordText state key with
  | some value => decide ((if isTrue value then value else []) = text)
  | none => decide (text = [])

/-- Whether a field that is read with `|| 0` has a number. -/
def fieldIsNumber (state : ConfigHash) (key : String) (number : Nat) :
    Bool :=
  match recordText state key with
  | some value => decide (textNumber value = number)
  | none => decide (number = 0)

namespace Machine

variable (machine : Machine)

/-- `_same_pid_namespace`. -/
def samePidNamespace (pid : Text) : Bool :=
  if !matchesDigits pid || decide (stringNumber pid < 1) then false
  else
    match machine.ownNamespace,
      (machine.procfs pid).bind Process.pidNamespace with
    | some current, some target =>
      decide (current = [] ∨ target = [] ∨ current = target)
    | _, _ => true

/-- `_read_process_env_marker`. -/
def readProcessEnvMarker (pid key : Text) : Option Text :=
  match (machine.procfs pid).bind Process.environ with
  | none => none
  | some env =>
    (env.splitOn '\x00').findSome? fun pair =>
      if (key ++ ['=']).isPrefixOf pair then
        some (pair.drop (key.length + 1))
      else none

/-- `_read_process_title`. -/
def readProcessTitle (pid : Text) : Option Text :=
  match (machine.procfs pid).bind Process.cmdline with
  | some (char :: rest) =>
    some (trimEnd
      ((char :: rest).map fun char => if char = '\x00' then ' ' else char))
  | _ => ((machine.ps pid).bind Process.psArgs).map trimEnd

/-- `_is_managed_loop`. -/
def isManagedLoop (pid name : Text) : Bool :=
  isTrue pid && (machine.killZero pid).getD false &&
    machine.samePidNamespace pid &&
    (decide
        (machine.readProcessEnvMarker pid
            "DEVELOPER_DASHBOARD_LOOP_NAME".toList =
          some name) ||
      decide (machine.readProcessTitle pid = some (processTitle name)))

/-- `_find_running_loop`. -/
def findRunningLoop (name : Text) : Option Nat :=
  if name = [] then none
  else
    ((machine.processes.map Process.pid).insertionSort (· ≤ ·)).find?
      fun pid =>
        let pidText := (Nat.repr pid).toList
        decide (pid ≠ machine.ownPid) &&
          decide
            ((machine.procfs pidText).bind Process.cmdline ≠ some []) &&
          decide
            (machine.readProcessTitle pidText =
              some (processTitle name)) &&
          machine.samePidNamespace pidText

/-- `_state_confirms_managed_loop`. -/
def stateConfirmsManagedLoop (name pid : Text) : Bool :=
  decide (name ≠ []) && isTrue pid &&
    (machine.killZero pid).getD false &&
    machine.state.any fun state =>
      fieldIsNumber state "pid" (stringNumber pid) &&
        fieldIs state "name" name &&
        fieldIs state "process_name" (processTitle name) &&
        !fieldIs state "status" "stopped".toList

/-- `_state_active_worker_pids`. -/
def stateActiveWorkerPids (name : Text) : List Text :=
  if name = [] then []
  else
    match machine.state.bind (Entries.lookup · "active_worker_pids") with
    | some (.array items) =>
      (((items.filterMap scalarText).filter fun pid =>
          matchesDigits pid && decide (0 < stringNumber pid)).dedup
        ).insertionSort fun left right =>
          stringNumber left ≤ stringNumber right
    | _ => []

end Machine

end DeveloperDashboard.Collector
