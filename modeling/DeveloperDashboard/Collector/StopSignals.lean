import DeveloperDashboard.Collector.ProcessTable
import DeveloperDashboard.Library.Traced

namespace DeveloperDashboard.Collector

open Library Perl Config

/-!
# Stopping a loop

`stop_loop` looks at the processes and the files many times.  They may be
other ones at each of these points, so a call gets one machine for each of
them, and its signals are recorded with the point at which they are sent.
-/

/-- The points of a call at which it looks at the processes or the files. -/
inductive StopPoint where
  | lookup
  | recordedWorkers
  | verify
  | termLoop
  | killLoop
  | sweptWorkers
  | termWorker (pid : Text)
  | killWorker (pid : Text)
  | finish
  deriving DecidableEq

inductive Signal where
  | term
  | kill
  deriving DecidableEq

/-- A signal with the argument of `kill` as a `pid_t`. -/
structure SentSignal where
  point : StopPoint
  signal : Signal
  target : Int
  deriving DecidableEq

/-- A part of a call: its signals, and a value or the message it dies with. -/
abbrev Signalling :=
  Traced SentSignal Text

/-- The order of `keys` on a hash, which is any order of its keys. -/
structure KeyOrder where
  keys : List Text → List Text
  perm : ∀ pids, (keys pids).Perm pids

structure StopCall where
  name : Text
  isWindows : Bool
  keyOrder : KeyOrder
  machine : StopPoint → Machine

namespace StopCall

variable (call : StopCall)

/-- `kill $signal, $pid`. -/
def kill (point : StopPoint) (signal : Signal) (pid : Text) :
    Signalling Unit := do
  let target ←
    Traced.orDie (Machine.killNumber pid)
      "Can't kill a non-numeric process ID".toList
  Traced.emit ⟨point, signal, target⟩

/-- `kill $signal, -$pid if !is_windows()`. -/
def killGroup (point : StopPoint) (signal : Signal) (pid : Text) :
    Signalling Unit :=
  if call.isWindows then pure ()
  else Traced.emit ⟨point, signal, Machine.killGroupNumber pid⟩

/-- `_pid_is_running`, which dies where `kill 0, $pid` does. -/
def pidIsRunning (point : StopPoint) (pid : Text) : Signalling Bool :=
  Traced.orDie ((call.machine point).pidIsRunning pid)
    "Can't kill a non-numeric process ID".toList

/-- `kill 9, -$pid`, and `kill 9, $pid` if it runs. -/
def killRunning (point : StopPoint) (pid : Text) : Signalling Unit := do
  call.killGroup point .kill pid
  let running ← call.pidIsRunning point pid
  if running then kill point .kill pid

/-- The first loop of `_terminate_loop_workers`. -/
def termWorker (pid : Text) : Signalling Unit := do
  let running ← call.pidIsRunning (.termWorker pid) pid
  if running then
    call.killGroup (.termWorker pid) .term pid
    kill (.termWorker pid) .term pid

/-- The second loop, where the wait for the worker comes first. -/
def killWorker (pid : Text) : Signalling Unit := do
  let _ ← call.pidIsRunning (.killWorker pid) pid
  call.killRunning (.killWorker pid) pid

/-- `_terminate_loop_workers`. -/
def terminateLoopWorkers (activeWorkers : List Text) :
    Signalling Unit := do
  let keys := call.keyOrder.keys activeWorkers
  forM keys call.termWorker
  forM keys call.killWorker

/-- The pid of the pidfile, or of the loop that is found without one. -/
def loopPid : Option Text :=
  let machine := call.machine .lookup
  match machine.pidfile with
  | some recorded => some (chomp (byteText recorded))
  | none =>
    (machine.findRunningLoop call.name).map fun pid =>
      (Nat.repr pid).toList

def verified (pid : Text) : Bool :=
  let machine := call.machine .verify
  isTrue pid && !machine.reapChildProcess pid &&
    machine.samePidNamespace pid &&
    (machine.isManagedLoop pid call.name ||
      machine.stateConfirmsManagedLoop call.name pid)

/-- The worker pids that a call reads before it has signalled anything. -/
def recordedWorkers : List Text :=
  (call.machine .recordedWorkers).stateActiveWorkerPids call.name

/-- The worker pids that it reads once the loop is gone. -/
def sweptWorkers : List Text :=
  (call.machine .sweptWorkers).stateActiveWorkerPids call.name

def checkStopped (pid : Text) : Signalling (Option Text) := do
  let running ← call.pidIsRunning .finish pid
  if running then
    Traced.die
      ("Collector '".toList ++ call.name ++
        "' did not stop after TERM and KILL\n".toList)
  else pure (some pid)

/-- `stop_loop`, as far as it signals processes. -/
def stopLoop : Signalling (Option Text) :=
  match call.loopPid with
  | none => pure none
  | some pid =>
    if call.verified pid then do
      kill .termLoop .term pid
      call.killRunning .killLoop pid
      call.terminateLoopWorkers call.sweptWorkers
      call.checkStopped pid
    else do
      call.terminateLoopWorkers call.recordedWorkers
      pure (some pid)

end StopCall

/-!
# Whom a stop signals

`stop_loop` should signal nothing but one loop of the collector, which it has
recognised, and the workers of that loop.  It asks for the identity of the loop
alone; the recorded worker pids are signalled whatever runs under them.
-/

variable {char : Char}

theorem isDigit_of_narrow
    (narrow : isNarrow char = true) (digit : Perl.isDigit char = true) :
    char.isDigit = true := by
  have small : char.toNat ≤ 0xFF := by simpa [isNarrow] using narrow
  obtain ⟨first, member, range⟩ := List.any_eq_true.mp digit
  rw [decide_eq_true_eq] at range
  have ascii : first = 0x30 ∨ 0x660 ≤ first :=
    (by decide : ∀ first ∈ decimalZeros, first = 0x30 ∨ 0x660 ≤ first)
      first member
  rw [Char.isDigit_iff_toNat]
  change 48 ≤ char.toNat ∧ char.toNat ≤ 57
  omega

theorem isNarrow_of_mem_byteText {bytes : Bytes}
    (member : char ∈ byteText bytes) : isNarrow char = true := by
  obtain ⟨byte, -, rfl⟩ := List.mem_map.mp member
  have bound := byte.toNat_lt
  rw [isNarrow, toNat_ofNat_byte, decide_eq_true_eq]
  omega

theorem mem_of_mem_chomp {text : Text}
    (member : char ∈ chomp text) : char ∈ text := by
  unfold chomp at member
  split at member
  · exact List.dropLast_subset text member
  · exact member

namespace StopCall

variable {call : StopCall} {pid : Text}

theorem killNumber_of_loopPid (isLoop : call.loopPid = some pid)
    (digits : matchesDigits pid = true) :
    ∃ number, Machine.killNumber pid = some number := by
  have ascii : (chomp pid).all Char.isDigit = true := by
    rw [matchesDigits, Bool.and_eq_true] at digits
    have each := List.all_eq_true.mp digits.2
    refine List.all_eq_true.mpr fun char member => ?_
    simp only [loopPid] at isLoop
    split at isLoop
    · obtain rfl := Option.some.inj isLoop
      exact isDigit_of_narrow
        (isNarrow_of_mem_byteText
          (mem_of_mem_chomp (mem_of_mem_chomp member)))
        (each char member)
    · obtain ⟨number, -, rfl⟩ := Option.map_eq_some_iff.mp isLoop
      exact (isDigit_of_mem_repr (mem_of_mem_chomp member)).1
  exact ⟨_, if_pos ascii⟩

theorem matchesDigits_of_verified (verified : call.verified pid = true) :
    matchesDigits pid = true := by
  simp only [StopCall.verified, Bool.and_eq_true] at verified
  have same := verified.1.2
  unfold Machine.samePidNamespace at same
  split at same
  · contradiction
  · next proper =>
      rw [Bool.or_eq_true, not_or, Bool.not_eq_true',
        Bool.not_eq_false] at proper
      exact proper.1

theorem isSome_pidIsRunning {machine : Machine} {number : Int}
    (isNumber : Machine.killNumber pid = some number) :
    ∃ running, machine.pidIsRunning pid = some running := by
  unfold Machine.pidIsRunning
  split
  · exact ⟨_, rfl⟩
  · split
    · exact ⟨_, rfl⟩
    · split
      · exact ⟨_, rfl⟩
      · rw [Machine.killZero, isNumber, Option.map_some]
        exact ⟨_, rfl⟩

theorem killNumber_of_pidIsRunning
    {machine : Machine} (running : machine.pidIsRunning pid = some true) :
    ∃ number, Machine.killNumber pid = some number := by
  unfold Machine.pidIsRunning at running
  split at running
  · contradiction
  · split at running
    · contradiction
    · split at running
      · contradiction
      · obtain ⟨number, isNumber, -⟩ := Option.map_eq_some_iff.mp running
        exact ⟨number, isNumber⟩

variable (call)

/--
The processes of a loop: the one that was recognised, in the namespace of the
caller, with what works for it in its process group, and its workers.
-/
def Owns (run : LoopRun) (point : StopPoint) (process : Process) : Prop :=
  (process.origin = .loop run ∧
    (call.machine point).samePidNamespace
        (Nat.repr process.pid).toList = true ∧
    ∃ pid, call.loopPid = some pid ∧ call.verified pid = true ∧
      (process.pid = stringNumber pid ∨
        process.group = stringNumber pid)) ∨
  process.origin = .worker run

/-- Everything that `kill` addresses at a point is of one loop. -/
def Hits (run : LoopRun) (point : StopPoint) (number : Int) : Prop :=
  ∀ process ∈ (call.machine point).signalled number,
    call.Owns run point process

/-- Whether a call signals one loop and its workers only. -/
def SignalsOnly (run : LoopRun) : Prop :=
  call.stopLoop.Emits fun sent => call.Hits run sent.point sent.target

def PidFits (run : LoopRun) (point : StopPoint) (pid : Text) : Prop :=
  ∀ number, Machine.killNumber pid = some number →
    call.Hits run point number

/-- Whoever is in the process group of a pid now is of the loop. -/
def GroupFits (run : LoopRun) (point : StopPoint) (pid : Text) : Prop :=
  call.isWindows = false →
    call.Hits run point (Machine.killGroupNumber pid)

def RunningFits (run : LoopRun) (point : StopPoint) (pid : Text) : Prop :=
  call.GroupFits run point pid ∧
    ((call.machine point).pidIsRunning pid = some true →
      call.PidFits run point pid)

/-- The recorded worker pids, in the order in which they are swept. -/
def sweep : List Text :=
  match call.loopPid with
  | none => []
  | some pid =>
    call.keyOrder.keys
      (if call.verified pid then call.sweptWorkers
        else call.recordedWorkers)

/-- The worker pids that the first loop comes to. -/
def termedWorkers : List Text :=
  call.sweep.takeWhile fun pid =>
    ((call.machine (.termWorker pid)).pidIsRunning pid).isSome

/-- The worker pids that the second loop comes to. -/
def killedWorkers : List Text :=
  if call.termedWorkers = call.sweep then
    call.sweep.takeWhile fun pid =>
      ((call.machine (.killWorker pid)).pidIsRunning pid).isSome
  else []

/-- The recorded worker pids are still those of one loop. -/
structure SweepFits (run : LoopRun) : Prop where
  termed :
    ∀ pid ∈ call.termedWorkers,
      (call.machine (.termWorker pid)).pidIsRunning pid = some true →
        call.GroupFits run (.termWorker pid) pid ∧
          call.PidFits run (.termWorker pid) pid
  killed :
    ∀ pid ∈ call.killedWorkers, call.RunningFits run (.killWorker pid) pid

/-- The recorded pids are still those of one loop and its workers. -/
structure RecordsFit (run : LoopRun) : Prop where
  loop :
    ∀ pid, call.loopPid = some pid → call.verified pid = true →
      call.PidFits run .termLoop pid ∧
        call.RunningFits run .killLoop pid
  workers : call.SweepFits run

section Parts

variable {call} {run : LoopRun} {point : StopPoint} {signal : Signal}

theorem emits_kill :
    (kill point signal pid).Emits
        (fun sent => call.Hits run sent.point sent.target) ↔
      call.PidFits run point pid := by
  simp [kill, Traced.emits_bind, PidFits]

theorem emits_killGroup :
    (call.killGroup point signal pid).Emits
        (fun sent => call.Hits run sent.point sent.target) ↔
      call.GroupFits run point pid := by
  unfold killGroup GroupFits
  cases call.isWindows with
  | true => simp
  | false => simp

theorem result_killGroup :
    (call.killGroup point signal pid).result = .ok () := by
  unfold killGroup
  split <;> rfl

theorem emits_killRunning :
    (call.killRunning point pid).Emits
        (fun sent => call.Hits run sent.point sent.target) ↔
      call.RunningFits run point pid := by
  rw [killRunning, Traced.emits_bind, emits_killGroup, RunningFits]
  refine and_congr_right fun _ => ?_
  simp only [result_killGroup, pidIsRunning, Traced.emits_bind,
    Traced.emits_orDie, Traced.result_orDie_eq_ok, true_and]
  constructor
  · intro later running
    have killed := later () trivial true running
    rwa [if_pos rfl, emits_kill] at killed
  · intro fits _ _ running isRunning
    cases running with
    | true => rw [if_pos rfl, emits_kill]; exact fits isRunning
    | false => exact Traced.emits_pure _

theorem result_kill :
    (kill point signal pid).result = .ok () ↔
      ∃ number, Machine.killNumber pid = some number := by
  simp [kill, Traced.result_bind_eq_ok]

theorem result_killRunning :
    (call.killRunning point pid).result = .ok () ↔
      ((call.machine point).pidIsRunning pid).isSome = true := by
  simp only [killRunning, pidIsRunning, Traced.result_bind_eq_ok,
    result_killGroup, Traced.result_orDie_eq_ok, true_and,
    Option.isSome_iff_exists]
  constructor
  · rintro ⟨_, running, isRunning, -⟩
    exact ⟨running, isRunning⟩
  · rintro ⟨running, isRunning⟩
    refine ⟨(), running, isRunning, ?_⟩
    cases running with
    | true =>
      rw [if_pos rfl, result_kill]
      exact killNumber_of_pidIsRunning isRunning
    | false => rfl

/-- The first loop, for a worker that it comes to. -/
theorem emits_termWorker :
    (call.termWorker pid).Emits
        (fun sent => call.Hits run sent.point sent.target) ↔
      ((call.machine (.termWorker pid)).pidIsRunning pid = some true →
        call.GroupFits run (.termWorker pid) pid ∧
          call.PidFits run (.termWorker pid) pid) := by
  simp only [termWorker, pidIsRunning, Traced.emits_bind,
    Traced.emits_orDie, Traced.result_orDie_eq_ok, true_and]
  constructor
  · intro later isRunning
    have termed := later true isRunning
    rw [if_pos rfl, Traced.emits_bind, emits_killGroup] at termed
    exact ⟨termed.1, emits_kill.mp (termed.2 () result_killGroup)⟩
  · intro fits running isRunning
    cases running with
    | true =>
      obtain ⟨group, own⟩ := fits isRunning
      rw [if_pos rfl, Traced.emits_bind, emits_killGroup]
      exact ⟨group, fun _ _ => emits_kill.mpr own⟩
    | false => exact Traced.emits_pure _

/-- The first loop goes on where it could ask for the worker. -/
theorem result_termWorker :
    (call.termWorker pid).result = .ok () ↔
      ((call.machine (.termWorker pid)).pidIsRunning pid).isSome =
        true := by
  simp only [termWorker, pidIsRunning, Traced.result_bind_eq_ok,
    Traced.result_orDie_eq_ok, Option.isSome_iff_exists]
  constructor
  · rintro ⟨running, isRunning, -⟩
    exact ⟨running, isRunning⟩
  · rintro ⟨running, isRunning⟩
    refine ⟨running, isRunning, ?_⟩
    cases running with
    | true =>
      rw [if_pos rfl, Traced.result_bind_eq_ok]
      exact ⟨(), result_killGroup,
        result_kill.mpr (killNumber_of_pidIsRunning isRunning)⟩
    | false => rfl

theorem emits_killWorker
    (asked :
      ((call.machine (.killWorker pid)).pidIsRunning pid).isSome = true) :
    (call.killWorker pid).Emits
        (fun sent => call.Hits run sent.point sent.target) ↔
      call.RunningFits run (.killWorker pid) pid := by
  obtain ⟨running, isRunning⟩ := Option.isSome_iff_exists.mp asked
  simp only [killWorker, pidIsRunning, Traced.emits_bind,
    Traced.emits_orDie, Traced.result_orDie_eq_ok, true_and,
    emits_killRunning]
  exact ⟨fun fits => fits running isRunning, fun fits _ _ => fits⟩

theorem result_killWorker :
    (call.killWorker pid).result = .ok () ↔
      ((call.machine (.killWorker pid)).pidIsRunning pid).isSome =
        true := by
  simp only [killWorker, pidIsRunning, Traced.result_bind_eq_ok,
    Traced.result_orDie_eq_ok, result_killRunning,
    Option.isSome_iff_exists]
  constructor
  · rintro ⟨running, isRunning, -⟩
    exact ⟨running, isRunning⟩
  · rintro ⟨running, isRunning⟩
    exact ⟨running, isRunning, running, isRunning⟩

end Parts

variable {call} {run : LoopRun}

theorem events_termWorker
    (unasked :
      ((call.machine (.termWorker pid)).pidIsRunning pid).isSome = false) :
    (call.termWorker pid).events = [] := by
  rw [Option.isSome_eq_false_iff, Option.isNone_iff_eq_none] at unasked
  rw [termWorker, pidIsRunning, unasked]
  rfl

theorem events_killWorker
    (unasked :
      ((call.machine (.killWorker pid)).pidIsRunning pid).isSome = false) :
    (call.killWorker pid).events = [] := by
  rw [Option.isSome_eq_false_iff, Option.isNone_iff_eq_none] at unasked
  rw [killWorker, pidIsRunning, unasked]
  rfl

theorem emits_terminateLoopWorkers {activeWorkers : List Text}
    (swept : call.keyOrder.keys activeWorkers = call.sweep) :
    (call.terminateLoopWorkers activeWorkers).Emits
        (fun sent => call.Hits run sent.point sent.target) ↔
      call.SweepFits run := by
  have finished :
      (forM call.sweep call.termWorker).result = .ok () ↔
        call.termedWorkers = call.sweep := by
    rw [Traced.result_forM_eq_ok, termedWorkers, List.takeWhile_eq_self_iff]
    exact forall₂_congr fun pid _ => result_termWorker
  rw [terminateLoopWorkers, Traced.emits_bind, swept,
    Traced.emits_forM (fun _ => result_termWorker)
      (fun _ => events_termWorker),
    Traced.emits_forM (fun _ => result_killWorker)
      (fun _ => events_killWorker)]
  constructor
  · rintro ⟨first, second⟩
    constructor
    · exact fun pid member => emits_termWorker.mp (first pid member)
    · intro pid member
      unfold killedWorkers at member
      split at member
      · next complete =>
          have asked := List.mem_takeWhile_imp member
          exact (emits_killWorker asked).mp
            (second () (finished.mpr complete) pid member)
      · contradiction
  · intro fits
    refine ⟨fun pid member => ?_, fun _ ended pid member => ?_⟩
    · exact emits_termWorker.mpr (fits.termed pid member)
    · have asked := List.mem_takeWhile_imp member
      refine (emits_killWorker asked).mpr (fits.killed pid ?_)
      rw [killedWorkers, if_pos (finished.mp ended)]
      exact member

theorem emits_checkStopped {allowed : SentSignal → Prop} :
    (call.checkStopped pid).Emits allowed := by
  rw [checkStopped, Traced.emits_bind]
  refine ⟨Traced.emits_orDie _ _, fun running _ => ?_⟩
  cases running with
  | true => exact Traced.emits_die _
  | false => exact Traced.emits_pure _

theorem emits_stopLoop_verified (isLoop : call.loopPid = some pid)
    (verified : call.verified pid = true) :
    call.SignalsOnly run ↔
      (call.PidFits run .termLoop pid ∧
        call.RunningFits run .killLoop pid) ∧
      call.SweepFits run := by
  have swept : call.keyOrder.keys call.sweptWorkers = call.sweep := by
    rw [sweep, isLoop]
    exact congrArg _ (if_pos verified).symm
  have isNumber :=
    killNumber_of_loopPid isLoop (matchesDigits_of_verified verified)
  have asked :
      ((call.machine .killLoop).pidIsRunning pid).isSome = true :=
    Option.isSome_iff_exists.mpr
      (isSome_pidIsRunning isNumber.choose_spec)
  have terminated :
      (kill .termLoop .term pid).result = .ok () :=
    result_kill.mpr isNumber
  unfold SignalsOnly stopLoop
  rw [isLoop]
  simp only [verified, if_true]
  rw [Traced.emits_bind, emits_kill, and_assoc]
  refine and_congr_right fun _ => ?_
  constructor
  · intro later
    have killed := later () terminated
    rw [Traced.emits_bind, emits_killRunning] at killed
    have rest := killed.2 () (result_killRunning.mpr asked)
    rw [Traced.emits_bind, emits_terminateLoopWorkers swept] at rest
    exact ⟨killed.1, rest.1⟩
  · rintro ⟨loop, workers⟩ _ _
    rw [Traced.emits_bind, emits_killRunning]
    refine ⟨loop, fun _ _ => ?_⟩
    rw [Traced.emits_bind, emits_terminateLoopWorkers swept]
    exact ⟨workers, fun _ _ => emits_checkStopped⟩

theorem emits_stopLoop_other (isLoop : call.loopPid = some pid)
    (other : call.verified pid = false) :
    call.SignalsOnly run ↔ call.SweepFits run := by
  have swept : call.keyOrder.keys call.recordedWorkers = call.sweep := by
    rw [sweep, isLoop]
    exact congrArg _ (if_neg (by simp [other])).symm
  unfold SignalsOnly stopLoop
  rw [isLoop]
  simp only [other, Bool.false_eq_true, if_false]
  rw [Traced.emits_bind, emits_terminateLoopWorkers swept]
  exact and_iff_left fun _ _ => Traced.emits_pure _

/-- A call signals one loop only when the recorded pids are still its own. -/
theorem signalsOnly_iff :
    call.SignalsOnly run ↔ call.RecordsFit run := by
  cases isLoop : call.loopPid with
  | none =>
    have nothing : call.sweep = [] := by rw [sweep, isLoop]
    unfold SignalsOnly stopLoop
    rw [isLoop]
    refine iff_of_true (Traced.emits_pure _) ⟨?_, ?_, ?_⟩
    · rw [isLoop]
      nofun
    · rw [termedWorkers, nothing]
      exact nofun
    · rw [killedWorkers, nothing]
      split <;> exact nofun
  | some pid =>
    cases verified : call.verified pid with
    | true =>
      rw [emits_stopLoop_verified isLoop verified]
      constructor
      · rintro ⟨loop, workers⟩
        refine ⟨fun other isOther _ => ?_, workers⟩
        rw [isLoop, Option.some.injEq] at isOther
        exact isOther ▸ loop
      · intro fits
        exact ⟨fits.loop pid isLoop verified, fits.workers⟩
    | false =>
      rw [emits_stopLoop_other isLoop verified]
      constructor
      · intro workers
        refine ⟨fun other isOther isVerified => ?_, workers⟩
        rw [isLoop, Option.some.injEq] at isOther
        rw [← isOther, verified] at isVerified
        contradiction
      · exact fun fits => fits.workers

def strangerProcess : Process where
  pid := 4242
  group := 4242
  pidNamespace := none
  signalable := true
  zombie := false
  child := false
  environ := some "HOME=/home/user".toList
  cmdline := some "vim".toList
  psArgs := some "vim".toList
  origin := .other

/--
A collector whose loop crashed while the worker 4242 was recorded; the loop and
the worker are gone, and 4242 is the pid of another process.
-/
def afterCrash : StopCall where
  name := "disk".toList
  isWindows := false
  keyOrder := ⟨id, fun _ => .rfl⟩
  machine _ :=
    { processes := [strangerProcess]
      ownPid := 5000
      ownGroup := 5000
      ownNamespace := none
      pidfile := some "4000".toUTF8.data.toList
      state :=
        some
          [("pid", .number "4000"), ("name", .string "disk"),
            ("process_name", .string "dashboard collector: disk"),
            ("status", .string "running"),
            ("active_worker_pids", .array [.number "4242"])] }

end StopCall

end DeveloperDashboard.Collector
