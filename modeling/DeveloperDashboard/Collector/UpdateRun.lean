import DeveloperDashboard.Commands.WaitStatus
import DeveloperDashboard.Config.CollectorJobs

namespace DeveloperDashboard.Collector.UpdateRun

open Library Commands Config

/-!
# Collectors around an update

`run` stops the collectors, runs the update scripts in the order of their names
and starts the collectors again.
-/

/-- How `system` ends for an update script. -/
inductive ScriptEnd where
  | unstarted
  | ended (child : ChildEnd)
deriving DecidableEq

/-- `$? >> 8`, where `$?` is -1 for a command that did not start. -/
def ScriptEnd.exitCode : ScriptEnd → Nat
  | .unstarted => (2 ^ 64 - 1) >>> 8
  | .ended child => shiftedStatus child.status

/-- What the loop meets at a name of the directory when its turn comes. -/
structure UpdateFile where
  file : String
  isFile : Bool
  isSupported : Bool
  command : Except String (List String)
  ended : ScriptEnd
  output : String

def UpdateFile.isRun (script : UpdateFile) : Bool :=
  script.file != "." && script.file != ".." && script.isFile &&
    script.isSupported

/-- A result, of a script that stands for its `file` and its `output`. -/
structure UpdateResult where
  script : UpdateFile
  exitCode : Nat

def UpdateFile.result (script : UpdateFile) : UpdateResult :=
  ⟨script, script.ended.exitCode⟩

/-- What `run` meets, the configuration being read when it restarts. -/
structure Surroundings where
  updatesDir : String
  hasUpdates : Bool
  running : List String
  stopLoop : String → Except String Unit
  files : Except String (List UpdateFile)
  config : ConfigHash
  entries : List SkillConfig
  filter : Option String
  startLoop : Nat → Except String Unit

inductive RunEvent where
  | stopped (name : String) (ended : Except String Unit)
  | started (name : String) (ended : Except String Unit)

def RunEvent.isStartOf (name : String) : RunEvent → Bool
  | .stopped _ _ => false
  | .started other _ => other == name

/-- `_stop_collectors` -/
def stopCollectors (world : Surroundings) : List RunEvent :=
  world.running.map fun name => .stopped name (world.stopLoop name)

/-- The loop of `run` over the names of the directory. -/
def runFiles : List UpdateFile → Except String (List UpdateResult)
  | [] => .ok []
  | script :: rest =>
    if script.isRun then
      script.command.bind fun _ =>
        (runFiles rest).map (script.result :: ·)
    else runFiles rest

section

variable (referenceText : JsonValue → String) (world : Surroundings)

/-- The name of a job that is a hash. -/
def jobName : JsonValue → Option String
  | .hash job => some (valueText referenceText (jobField job "name"))
  | _ => none

/-- The loop of `_restart_collectors` over the jobs from a place on. -/
def startJobs (place : Nat) : List JsonValue → List RunEvent
  | [] => []
  | job :: jobs =>
    (((jobName referenceText job).filter world.running.contains).map
      (RunEvent.started · (world.startLoop place))).toList ++
      startJobs (place + 1) jobs

/-- `_restart_collectors` -/
def restartCollectors : Except String (List RunEvent) :=
  if world.running = [] then .ok []
  else
    (collectors referenceText world.config world.entries world.filter).map
      (startJobs referenceText world 0)

/-- `run`: what it returns, or why it dies, and what it did to the loops. -/
def run : Except String (List UpdateResult) × List RunEvent :=
  if world.hasUpdates = false then (.ok [], [])
  else
    match world.files with
    | .error reason =>
      (.error ("Unable to open updates directory " ++ world.updatesDir ++
        ": " ++ reason), stopCollectors world)
    | .ok files =>
      match runFiles files with
      | .error reason => (.error reason, stopCollectors world)
      | .ok results =>
        match restartCollectors referenceText world with
        | .error reason => (.error reason, stopCollectors world)
        | .ok started => (.ok results, stopCollectors world ++ started)

def configured : List JsonValue :=
  configuredCollectorJobs referenceText world.config world.entries
    world.filter

def IsEnabled (name : String) : Prop :=
  ∃ job, JsonValue.hash job ∈ configured referenceText world ∧
    jobName referenceText (.hash job) = some name ∧
    collectorDisableFlag (jobField job "disable") = false

/-- What is expected of the collectors and of the report of an update. -/
structure PutsBack : Prop where
  startedOnce : ∀ name,
    .stopped name (.ok ()) ∈ (run referenceText world).2 →
    IsEnabled referenceText world name →
    (run referenceText world).2.countP (RunEvent.isStartOf name) = 1
  truthful : ∀ results, (run referenceText world).1 = .ok results →
    ∀ result ∈ results, result.exitCode = 0 →
      result.script.ended = .ended (.exited 0)
  notSilent : ∀ name reason,
    .started name (.error reason) ∈ (run referenceText world).2 →
    ∃ report, (run referenceText world).1 = .error report

/-- The directory is read, and every command line is built. -/
def ScriptsBuild : Prop :=
  ∃ files, world.files = .ok files ∧
    ∀ script ∈ files, script.isRun = true →
      ∃ command, script.command = .ok command

/-- The jobs are read, where there are collectors to start. -/
def JobsRead : Prop :=
  world.running = [] ∨
    ∃ jobs, collectors referenceText world.config world.entries
      world.filter = .ok jobs

structure Undisturbed : Prop where
  wayOut : ∀ name ∈ world.running, world.stopLoop name = .ok () →
    IsEnabled referenceText world name →
    ScriptsBuild world ∧ JobsRead referenceText world ∧
      (configured referenceText world).countP
        (jobName referenceText · == some name) = 1
  noSignal : ScriptsBuild world → JobsRead referenceText world →
    ∀ files, world.files = .ok files → ∀ script ∈ files,
      script.isRun = true → ∀ signal dumped,
        script.ended ≠ .ended (.killed signal dumped)
  starts : ScriptsBuild world → JobsRead referenceText world →
    ∀ name ∈ world.running, ∀ place job,
      (configured referenceText world)[place]? = some job →
      jobName referenceText job = some name →
      world.startLoop place = .ok ()

end

theorem runFiles_eq_ok_iff {files : List UpdateFile}
    {results : List UpdateResult} :
    runFiles files = .ok results ↔
      (∀ script ∈ files, script.isRun = true →
        ∃ command, script.command = .ok command) ∧
      results = (files.filter UpdateFile.isRun).map UpdateFile.result := by
  induction files generalizing results with
  | nil =>
    constructor
    · rintro ⟨⟩
      exact ⟨fun _ member => absurd member List.not_mem_nil, rfl⟩
    · rintro ⟨-, rfl⟩
      rfl
  | cons script rest ih =>
    rw [runFiles]
    by_cases isRun : script.isRun = true
    · cases built : script.command with
      | error reason => simp [isRun, built, Except.bind]
      | ok command =>
        rw [if_pos isRun, List.filter_cons_of_pos isRun]
        constructor
        · intro ran
          cases others : runFiles rest with
          | error reason =>
            simp [others, Except.bind, Except.map] at ran
          | ok later =>
            obtain ⟨builds, rfl⟩ := ih.mp others
            simp [others, Except.bind, Except.map] at ran
            refine ⟨List.forall_mem_cons.mpr ⟨fun _ => ⟨_, built⟩, builds⟩, ?_⟩
            rw [← ran]
            rfl
        · rintro ⟨builds, rfl⟩
          have others := ih.mpr ⟨(List.forall_mem_cons.mp builds).2, rfl⟩
          simp [others, Except.bind, Except.map]
    · rw [if_neg isRun, List.filter_cons_of_neg isRun, ih]
      simp [isRun]

variable {referenceText : JsonValue → String} {world : Surroundings}

theorem jobName_normalizeCollectorJob {job normal : JsonValue}
    (normalized : normalizeCollectorJob referenceText job = .ok normal) :
    jobName referenceText normal = jobName referenceText job := by
  have kept (fields : ConfigHash) (mode multiple : JsonValue) :
      jobName referenceText (normalizedJob fields mode multiple) =
        jobName referenceText (.hash fields) := by
    dsimp only [normalizedJob, jobName, jobField]
    rw [Entries.lookup_store_of_ne _ (by decide),
      Entries.lookup_store_of_ne _ (by decide),
      Entries.lookup_store_of_ne _ (by decide)]
  cases job with
  | hash fields =>
    unfold normalizeCollectorJob at normalized
    grind
  | _ =>
    cases normalized
    rfl

theorem map_jobName_of_collectors {jobs normal : List JsonValue}
    (read : jobs.mapM (normalizeCollectorJob referenceText) = .ok normal) :
    normal.map (jobName referenceText) = jobs.map (jobName referenceText) := by
  induction jobs generalizing normal with
  | nil =>
    cases read
    rfl
  | cons job jobs ih =>
    rw [List.mapM_cons] at read
    cases first : normalizeCollectorJob referenceText job with
    | error reason => rw [first] at read; cases read
    | ok one =>
      cases others : jobs.mapM (normalizeCollectorJob referenceText) with
      | error reason => rw [first, others] at read; cases read
      | ok rest =>
        rw [first, others] at read
        cases read
        rw [List.map_cons, List.map_cons, ih others,
          jobName_normalizeCollectorJob first]

theorem countP_startJobs {name : String} (isRunning : name ∈ world.running)
    (place : Nat) (jobs : List JsonValue) :
    (startJobs referenceText world place jobs).countP
        (RunEvent.isStartOf name) =
      jobs.countP (jobName referenceText · == some name) := by
  induction jobs generalizing place with
  | nil => rfl
  | cons job jobs ih =>
    rw [startJobs, List.countP_append, ih, List.countP_cons]
    cases jobName referenceText job with
    | none => simp
    | some other =>
      by_cases same : other = name
      · subst same
        have kept : (some other).filter world.running.contains =
            some other := by
          simp [Option.filter, isRunning]
        rw [kept, Nat.add_comm]
        simp [RunEvent.isStartOf]
      · by_cases wanted : other ∈ world.running <;>
          simp [same, wanted, RunEvent.isStartOf]

theorem mem_startJobs_iff {name : String} {ended : Except String Unit}
    {place : Nat} {jobs : List JsonValue} :
    .started name ended ∈ startJobs referenceText world place jobs ↔
      ∃ offset job, jobs[offset]? = some job ∧
        jobName referenceText job = some name ∧ name ∈ world.running ∧
        ended = world.startLoop (place + offset) := by
  induction jobs generalizing place with
  | nil => simp [startJobs]
  | cons job jobs ih =>
    rw [startJobs, List.mem_append, ih]
    constructor
    · rintro (first | ⟨offset, other, isAt, found⟩)
      · refine ⟨0, job, rfl, ?_⟩
        cases named : jobName referenceText job with
        | none => simp [named] at first
        | some other =>
          obtain ⟨isRunning, rfl, rfl⟩ : other ∈ world.running ∧
              other = name ∧ world.startLoop place = ended := by
            simpa [named] using first
          exact ⟨rfl, isRunning, rfl⟩
      · rw [Nat.add_right_comm] at found
        exact ⟨offset + 1, other, isAt, found⟩
    · rintro ⟨offset, other, isAt, named, isRunning, rfl⟩
      cases offset with
      | zero =>
        cases isAt
        exact .inl (by simp [named, isRunning])
      | succ offset =>
        exact .inr ⟨offset, other, isAt, named, isRunning,
          congrArg world.startLoop (Nat.add_right_comm place offset 1)⟩

theorem run_of_stuck (hasUpdates : world.hasUpdates = true)
    (stuck : ¬(ScriptsBuild world ∧ JobsRead referenceText world)) :
    ∃ reason, run referenceText world =
      (.error reason, stopCollectors world) := by
  unfold run
  rw [if_neg (ne_false_of_eq_true hasUpdates)]
  cases opened : world.files with
  | error reason => exact ⟨_, rfl⟩
  | ok files =>
    dsimp only
    cases ran : runFiles files with
    | error reason => exact ⟨_, rfl⟩
    | ok results =>
      have builds : ScriptsBuild world :=
        ⟨files, opened, (runFiles_eq_ok_iff.mp ran).1⟩
      cases restarted : restartCollectors referenceText world with
      | error reason => exact ⟨_, rfl⟩
      | ok started =>
        refine absurd ⟨builds, ?_⟩ stuck
        unfold restartCollectors at restarted
        split at restarted
        · next none_ => exact .inl none_
        · cases read : collectors referenceText world.config world.entries
            world.filter with
          | error reason => rw [read] at restarted; cases restarted
          | ok jobs => exact .inr ⟨jobs, read⟩

theorem stopped_not_mem_startJobs (name : String) (ended : Except String Unit)
    (place : Nat) (jobs : List JsonValue) :
    .stopped name ended ∉ startJobs referenceText world place jobs := by
  induction jobs generalizing place with
  | nil => exact List.not_mem_nil
  | cons job jobs ih =>
    rw [startJobs, List.mem_append, not_or]
    refine ⟨?_, ih _⟩
    simp

/-- What an update does that comes to its end. -/
theorem run_of_builds (hasUpdates : world.hasUpdates = true)
    {files : List UpdateFile} (opened : world.files = .ok files)
    (builds : ∀ script ∈ files, script.isRun = true →
      ∃ command, script.command = .ok command)
    (jobsRead : JobsRead referenceText world) :
    ∃ started, run referenceText world =
        (.ok ((files.filter UpdateFile.isRun).map UpdateFile.result),
          stopCollectors world ++ started) ∧
      (∀ name ended, .stopped name ended ∉ started) ∧
      (∀ name ∈ world.running,
        started.countP (RunEvent.isStartOf name) =
          (configured referenceText world).countP
            (jobName referenceText · == some name)) ∧
      ∀ name ended, .started name ended ∈ started ↔
        ∃ place job, (configured referenceText world)[place]? = some job ∧
          jobName referenceText job = some name ∧ name ∈ world.running ∧
          ended = world.startLoop place := by
  have ran := runFiles_eq_ok_iff.mpr ⟨builds, rfl⟩
  unfold run
  rw [if_neg (ne_false_of_eq_true hasUpdates), opened]
  dsimp only
  rw [ran, restartCollectors]
  dsimp only
  by_cases none_ : world.running = []
  · rw [if_pos none_]
    refine ⟨[], rfl, ?_, ?_, ?_⟩ <;> simp [none_]
  · obtain ⟨jobs, read⟩ := jobsRead.resolve_left none_
    have names := map_jobName_of_collectors read
    rw [if_neg none_, read]
    refine ⟨startJobs referenceText world 0 jobs, rfl,
      fun name ended => stopped_not_mem_startJobs name ended 0 jobs, ?_, ?_⟩
    · intro name isRunning
      rw [countP_startJobs isRunning]
      have counted := congrArg (List.countP (· == some name)) names
      rw [List.countP_map, List.countP_map] at counted
      exact counted
    · intro name ended
      have place (offset : Nat) : jobs[offset]?.map (jobName referenceText) =
          (configured referenceText world)[offset]?.map
            (jobName referenceText) := by
        rw [← List.getElem?_map, names, List.getElem?_map]
        rfl
      rw [mem_startJobs_iff]
      simp only [Nat.zero_add]
      constructor
      · rintro ⟨offset, job, isAt, named, isRunning⟩
        have same := place offset
        rw [isAt] at same
        obtain ⟨other, isOther, named'⟩ := Option.map_eq_some_iff.mp same.symm
        exact ⟨offset, other, isOther, named'.trans named, isRunning⟩
      · rintro ⟨offset, job, isAt, named, isRunning⟩
        have same := place offset
        rw [isAt] at same
        obtain ⟨other, isOther, named'⟩ := Option.map_eq_some_iff.mp same
        exact ⟨offset, other, isOther, named'.trans named, isRunning⟩

theorem stopped_mem_iff {name : String} :
    .stopped name (.ok ()) ∈ stopCollectors world ↔
      name ∈ world.running ∧ world.stopLoop name = .ok () := by
  simp [stopCollectors]

theorem started_not_mem (name : String) (ended : Except String Unit) :
    .started name ended ∉ stopCollectors world := by
  simp [stopCollectors]

theorem countP_stopCollectors (name : String) :
    (stopCollectors world).countP (RunEvent.isStartOf name) = 0 := by
  simp [stopCollectors, RunEvent.isStartOf]

theorem putsBack_iff_of_ends (hasUpdates : world.hasUpdates = true)
    (scripts : ScriptsBuild world) (jobsRead : JobsRead referenceText world) :
    PutsBack referenceText world ↔ Undisturbed referenceText world := by
  obtain ⟨files, opened, builds⟩ := scripts
  obtain ⟨started, ran, noStops, counts, starts⟩ :=
    run_of_builds hasUpdates opened builds jobsRead
  constructor
  · intro putsBack
    refine ⟨fun name isRunning stopped enabled => ?_,
      fun _ _ others isOpened script isIn isRun signal dumped killed => ?_,
      fun _ _ name isRunning place job isAt named => ?_⟩
    · have once := putsBack.startedOnce name
      rw [ran] at once
      have counted := once (List.mem_append_left _
        (stopped_mem_iff.mpr ⟨isRunning, stopped⟩)) enabled
      rw [List.countP_append, countP_stopCollectors, Nat.zero_add,
        counts name isRunning] at counted
      exact ⟨⟨files, opened, builds⟩, jobsRead, counted⟩
    · obtain rfl := Except.ok.inj (opened.symm.trans isOpened)
      have truthful := putsBack.truthful
      rw [ran] at truthful
      have reported := truthful _ rfl script.result
        (List.mem_map_of_mem (List.mem_filter.mpr ⟨isIn, isRun⟩))
      -- a signal is shifted out of the status
      have succeeded : script.result.exitCode = 0 := by
        rw [UpdateFile.result, killed]
        exact ChildEnd.shiftedStatus_killed signal dumped
      have exited : script.ended = .ended (.exited 0) := reported succeeded
      rw [killed] at exited
      cases exited
    · have notSilent := putsBack.notSilent name
      rw [ran] at notSilent
      cases failed : world.startLoop place with
      | ok => rfl
      | error reason =>
        have event := (starts name (.error reason)).mpr
          ⟨place, job, isAt, named, isRunning, failed.symm⟩
        obtain ⟨report, isError⟩ :=
          notSilent reason (List.mem_append_right _ event)
        cases isError
  · intro undisturbed
    refine ⟨?_, ?_, ?_⟩
    · rw [ran]
      intro name stopped enabled
      obtain ⟨isRunning, stopped⟩ := stopped_mem_iff.mp
        ((List.mem_append.mp stopped).resolve_right (noStops name _))
      rw [List.countP_append, countP_stopCollectors, Nat.zero_add,
        counts name isRunning]
      exact (undisturbed.wayOut name isRunning stopped enabled).2.2
    · rw [ran]
      rintro results ⟨⟩ result isIn succeeded
      obtain ⟨script, isRun, rfl⟩ := List.mem_map.mp isIn
      obtain ⟨isFile, isRun⟩ := List.mem_filter.mp isRun
      have noSignal := undisturbed.noSignal ⟨files, opened, builds⟩ jobsRead
        files opened script isFile isRun
      change script.ended.exitCode = 0 at succeeded
      change script.ended = .ended (.exited 0)
      cases ended : script.ended with
      | unstarted => rw [ended] at succeeded; cases succeeded
      | ended child =>
        rw [ended] at succeeded
        cases child with
        | killed signal dumped => exact absurd ended (noSignal signal dumped)
        | exited code =>
          have zero := (ChildEnd.shiftedStatus_exited code).symm.trans succeeded
          exact congrArg (fun code => ScriptEnd.ended (.exited code))
            (Fin.ext zero)
    · rw [ran]
      intro name reason event
      obtain ⟨place, job, isAt, named, isRunning, failed⟩ :=
        (starts name _).mp ((List.mem_append.mp event).resolve_left
          (started_not_mem name _))
      rw [undisturbed.starts ⟨files, opened, builds⟩ jobsRead name isRunning
        place job isAt named] at failed
      cases failed

/-- The collectors are put back just when nothing disturbs the update. -/
theorem putsBack_iff (referenceText : JsonValue → String)
    (world : Surroundings) :
    PutsBack referenceText world ↔
      (world.hasUpdates = true → Undisturbed referenceText world) := by
  cases hasUpdates : world.hasUpdates with
  | false =>
    have nothing : run referenceText world = (.ok [], []) := if_pos hasUpdates
    refine ⟨fun _ on => absurd on Bool.false_ne_true, fun _ => ⟨?_, ?_, ?_⟩⟩
    · rw [nothing]
      exact fun _ stopped => absurd stopped List.not_mem_nil
    · rw [nothing]
      rintro results ⟨⟩ result isIn
      exact absurd isIn List.not_mem_nil
    · rw [nothing]
      exact fun _ _ started => absurd started List.not_mem_nil
  | true =>
    refine Iff.trans ?_ ⟨fun quiet _ => quiet, fun quiet => quiet rfl⟩
    by_cases ends : ScriptsBuild world ∧ JobsRead referenceText world
    · exact putsBack_iff_of_ends hasUpdates ends.1 ends.2
    · obtain ⟨reason, ran⟩ := run_of_stuck hasUpdates ends
      constructor
      · intro putsBack
        refine ⟨fun name isRunning stopped enabled => ?_,
          fun first second => absurd ⟨first, second⟩ ends,
          fun first second => absurd ⟨first, second⟩ ends⟩
        have once := putsBack.startedOnce name
        rw [ran] at once
        have none_ := once (stopped_mem_iff.mpr ⟨isRunning, stopped⟩) enabled
        rw [countP_stopCollectors] at none_
        cases none_
      · intro undisturbed
        refine ⟨?_, ?_, ?_⟩
        · rw [ran]
          intro name stopped enabled
          obtain ⟨isRunning, stopped⟩ := stopped_mem_iff.mp stopped
          obtain ⟨first, second, -⟩ :=
            undisturbed.wayOut name isRunning stopped enabled
          exact absurd ⟨first, second⟩ ends
        · rw [ran]
          rintro results ⟨⟩
        · rw [ran]
          exact fun name error isIn => absurd isIn (started_not_mem name _)

/-- A script that a signal ends, and a command line that is not built. -/
def disturbedUpdate (command : Except String (List String)) : Surroundings where
  updatesDir := "updates"
  hasUpdates := true
  running := ["housekeeper"]
  stopLoop _ := .ok ()
  files := .ok [⟨"01-one.pl", true, true, command,
    .ended (.killed ⟨15, by decide, by decide⟩ false), ""⟩]
  config := []
  entries := []
  filter := none
  startLoop _ := .ok ()

theorem disturbedUpdate_not_putsBack :
    ¬PutsBack (fun _ => "") (disturbedUpdate (.ok ["perl"])) ∧
      ¬PutsBack (fun _ => "") (disturbedUpdate (.error "gone")) := by
  constructor
  · intro putsBack
    cases putsBack.truthful _ rfl _ List.mem_cons_self (by decide)
  · intro putsBack
    have once := putsBack.startedOnce "housekeeper" (List.mem_cons_self)
      ⟨housekeeperJob, List.mem_cons_self, rfl, rfl⟩
    cases once

end DeveloperDashboard.Collector.UpdateRun
