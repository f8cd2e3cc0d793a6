import DeveloperDashboard.Config.JsonValue
import DeveloperDashboard.Library.Transition

namespace DeveloperDashboard.Collector

open Library Config

/-!
# Scheduled collector runs

A collector loop hands its job to the workers through `job.json`:
`start_loop` writes it in full, each worker reads it, and `run_once` writes it
again field by field.  What the workers consult stays that of the configured
job except for the indicator, which the first run drops.
-/

/-- What a run asks of the paths, the file system and Perl. -/
structure RunEnvironment where
  /-- `current_working_directory` in a worker -/
  currentDirectory : String
  /-- `File::Spec->file_name_is_absolute` -/
  isAbsolute : String → Bool
  /-- the directory getters of `%RESOLVABLE_ACCESSOR` -/
  accessor : String → Option String
  /-- the aliases that `_resolve_collector_cwd_alias` knows -/
  pathAlias : String → Option String
  /-- the file test `-d` -/
  isDirectory : String → Bool
  milliseconds : JsonValue → JsonValue
  /-- the message of `_parse_cron_expression` -/
  cronError : JsonValue → Option String

def field (job : ConfigHash) (key : String) : JsonValue :=
  (job.lookup key).getD .null

def isGiven : JsonValue → Bool
  | .null => false
  | .number text => decide (text ≠ "")
  | .string text => decide (text ≠ "")
  | _ => true

/-- `_collector_source`: the mode and the source, unless both are missing. -/
def collectorSource (job : ConfigHash) : Option (String × JsonValue) :=
  if isGiven (field job "command") then
    some ("command", field job "command")
  else if isGiven (field job "code") then some ("code", field job "code")
  else none

/-- `_schedule_mode`. -/
def scheduleMode (job : ConfigHash) : JsonValue :=
  if (field job "schedule").truthy then field job "schedule"
  else if (field job "cron").truthy then .string "cron"
  else if (field job "interval").truthy then .string "interval"
  else .string "manual"

section

variable (env : RunEnvironment)

/-- `_normalize_timeout_ms`. -/
def normalizeTimeoutMs (job : ConfigHash) : JsonValue :=
  if (field job "timeout_ms").truthy then field job "timeout_ms"
  else if (field job "timeout").truthy then
    env.milliseconds (field job "timeout")
  else .null

/-- The directory that `run_once` resolves a `cwd` field to. -/
def resolvedCwd (given : JsonValue) : JsonValue :=
  let cwd := if given.truthy then given else .string env.currentDirectory
  match cwd.plainText with
  | none => cwd
  | some text =>
    if env.isAbsolute text then cwd
    else
      match env.accessor text with
      | some directory => .string directory
      | none =>
        match env.pathAlias text with
        | some directory => .string directory
        | none => cwd

/-- The file test `-d` on a resolved directory. -/
def cwdExists : JsonValue → Bool
  | .number text => env.isDirectory text
  | .string text => env.isDirectory text
  | .boolean value => env.isDirectory (if value then "1" else "0")
  | _ => false

/-- `start_loop` as far as `job.json`: what it writes, or how it dies. -/
def startLoop (job : ConfigHash) : Except String ConfigHash :=
  let name := ((field job "name").plainText).getD ""
  let mode := scheduleMode job
  if !(field job "name").truthy then
    .error "Collector job missing name"
  else if mode.plainText = some "manual" then
    .error
      ("Collector '" ++ name ++
        "' uses manual schedule and should be run on demand")
  else
    match (if mode.plainText = some "cron"
        then env.cronError (field job "cron") else none) with
    | some cronError =>
      .error
        ("Collector '" ++ name ++ "' has invalid cron expression: " ++
          cronError ++ "\n")
    | none =>
      if (collectorSource job).isNone then
        .error ("Collector '" ++ name ++ "' missing command or code")
      else
        .ok
          ((job.store "interval"
              (match field job "interval" with
              | .null => .number "30"
              | interval => interval)).store
            "schedule" mode)

/-- The hash that `run_once` writes to `job.json`. -/
def persistedJob (mode startedAt : String) (job : ConfigHash) :
    ConfigHash :=
  [("name", field job "name"), ("command", field job "command"),
    ("code", field job "code"),
    ("mode", .string mode),
    ("cwd", resolvedCwd env (field job "cwd")),
    ("interval", field job "interval"),
    ("cron", field job "cron"),
    ("schedule", field job "schedule"),
    ("timeout", field job "timeout"),
    ("timeout_ms", normalizeTimeoutMs env job),
    ("env", field job "env"),
    ("output_format", field job "output_format"),
    ("updated_at", .string startedAt)]

def declaredIndicator (job : ConfigHash) : Option ConfigHash :=
  match field job "indicator" with
  | .hash indicator => some indicator
  | _ => none

/-- What `run_once` and its indicator step consult of a job. -/
structure Consulted where
  name : JsonValue
  source : Option (String × JsonValue)
  cwd : JsonValue
  environment : JsonValue
  timeout : JsonValue
  outputFormat : JsonValue
  schedule : JsonValue
  indicator : Option ConfigHash

/-- The consulted fields of a job, the directory as it resolves. -/
def consulted (job : ConfigHash) : Consulted where
  name := field job "name"
  source := collectorSource job
  cwd := resolvedCwd env (field job "cwd")
  environment := field job "env"
  timeout := normalizeTimeoutMs env job
  outputFormat := field job "output_format"
  schedule := scheduleMode job
  indicator := declaredIndicator job

end

inductive WorkerPhase where
  | idle
  | started (job : ConfigHash)
  | persisted (job : ConfigHash)

/-- `job.json`, and the workers of the loop. -/
structure LoopState (Worker : Type) where
  file : ConfigHash
  phase : Worker → WorkerPhase

/--
How `_run_job` ends: it dies, or it exits with a code and the indicator is
materialized or not.
-/
inductive RunOutcome where
  | died
  | exited (exitCode : Int) (materialized : Bool)

inductive WorkerInput where
  | start
  | die
  | persist (startedAt : String)
  | finish (outcome : RunOutcome)

/-- What is seen of a worker; a finished run may write an indicator status. -/
inductive WorkerEvent where
  | started
  | died
  | persisted
  | finished (indicatorStatus : Option String)
  deriving DecidableEq

/-- The status that `run_once` sets for the indicator of a job. -/
def indicatorStatus (job : ConfigHash) : RunOutcome → Option String
  | .died => none
  | .exited exitCode materialized =>
    (declaredIndicator job).map fun _ =>
      if exitCode ≠ 0 ∨ materialized = false then "error" else "ok"

section

variable {Worker : Type} [DecidableEq Worker]
variable (env : RunEnvironment)

/-- `run_once` reaches its write of `job.json`, in some mode. -/
def writesJob (job : ConfigHash) : Option String :=
  if (field job "name").truthy &&
      cwdExists env (resolvedCwd env (field job "cwd")) then
    (collectorSource job).map Prod.fst
  else none

def nextWorker (state : LoopState Worker) (input : Worker × WorkerInput) :
    Option ((Worker × WorkerEvent) × LoopState Worker) :=
  match state.phase input.1, input.2 with
  | .idle, .start =>
    some
      ((input.1, .started), { state with
          phase :=
            Function.update state.phase input.1
              (.started state.file) })
  | .started job, .die =>
    match writesJob env job with
    | some _ => none
    | none =>
      some
        ((input.1, .died), { state with
            phase := Function.update state.phase input.1 .idle })
  | .started job, .persist startedAt =>
    (writesJob env job).map fun mode =>
      ((input.1, .persisted),
        { file := persistedJob env mode startedAt job
          phase :=
            Function.update state.phase input.1 (.persisted job) })
  | .persisted job, .finish outcome =>
    some
      ((input.1, .finished (indicatorStatus job outcome)), { state with
          phase := Function.update state.phase input.1 .idle })
  | _, _ => none

/-- The workers of a loop that `start_loop` has started with a file. -/
def loopSystem (initial : ConfigHash) :
    TransitionSystem (LoopState Worker) (Worker × WorkerEvent) :=
  .ofNext
    (fun state =>
      state.file = initial ∧ ∀ worker, state.phase worker = .idle)
    (nextWorker env)

def DeclaresIndicator (job : ConfigHash) : Prop :=
  declaredIndicator job ≠ none

/--
Every worker that reads `job.json` next reads a job that agrees with the
configured one, and every finished run writes a declared indicator.
-/
def RunsConfiguredJob (job initial : ConfigHash) : Prop :=
  ∀ (trace : List (Nat × WorkerEvent)) (state : LoopState Nat),
    (loopSystem env initial).Execution trace state →
      consulted env state.file = consulted env job ∧
        (DeclaresIndicator job →
          ∀ worker, (worker, .finished none) ∉ trace)

end

@[simp] theorem field_store_self
    (job : ConfigHash) (key : String) (value : JsonValue) :
    field (job.store key value) key = value := by
  rw [field, Entries.lookup_store_self]
  rfl

theorem field_store_of_ne
    (job : ConfigHash) {key other : String} (different : key ≠ other)
    (value : JsonValue) :
    field (job.store key value) other = field job other := by
  rw [field, Entries.lookup_store_of_ne _ different]
  rfl

variable {fields : Consulted}

section

variable {env : RunEnvironment} {job initial : ConfigHash}

theorem truthy_scheduleMode (job : ConfigHash) :
    (scheduleMode job).truthy = true := by
  unfold scheduleMode
  split
  · assumption
  · split
    · rfl
    · split <;> rfl

theorem scheduleMode_of_schedule
    (isSet : (field job "schedule").truthy = true) :
    scheduleMode job = field job "schedule" := by
  rw [scheduleMode, if_pos isSet]

theorem startLoop_ok (accepted : startLoop env job = .ok initial) :
    (field job "name").truthy = true ∧
      (∃ mode source, collectorSource job = some (mode, source)) ∧
        ∃ interval,
          initial =
            (job.store "interval" interval).store "schedule"
              (scheduleMode job) := by
  unfold startLoop at accepted
  dsimp only at accepted
  split at accepted
  · cases accepted
  · next named =>
      split at accepted
      · cases accepted
      · split at accepted
        · cases accepted
        · split at accepted
          · cases accepted
          · next sourced =>
              refine ⟨by simpa using named, ?_,
                ⟨_, (Except.ok.inj accepted).symm⟩⟩
              obtain ⟨⟨mode, source⟩, isSource⟩ :=
                Option.ne_none_iff_exists'.mp (by simpa using sourced)
              exact ⟨mode, source, isSource⟩

theorem consulted_of_startLoop (accepted : startLoop env job = .ok initial) :
    consulted env initial = consulted env job := by
  obtain ⟨-, -, interval, rfl⟩ := startLoop_ok accepted
  have sameSchedule :
      scheduleMode
          ((job.store "interval" interval).store "schedule"
            (scheduleMode job)) =
        scheduleMode job := by
    rw [scheduleMode_of_schedule, field_store_self]
    rw [field_store_self]
    exact truthy_scheduleMode job
  unfold consulted collectorSource normalizeTimeoutMs declaredIndicator
  rw [sameSchedule]
  simp [field_store_of_ne]

/-- What `run_once` writes has the fields of the job it ran. -/
theorem consulted_persistedJob
    (env : RunEnvironment) (mode startedAt : String) (job : ConfigHash) :
    consulted env (persistedJob env mode startedAt job) =
      { consulted env job with
        cwd := resolvedCwd env (resolvedCwd env (field job "cwd"))
        indicator := none } := by
  have fields :
      ∀ key ∈ ["name", "command", "code", "interval", "cron", "schedule",
          "timeout", "env", "output_format"],
        field (persistedJob env mode startedAt job) key =
          field job key := by
    simp [persistedJob, field, Entries.lookup]
  have noIndicator :
      declaredIndicator (persistedJob env mode startedAt job) = none := by
    simp [declaredIndicator, persistedJob, field, Entries.lookup]
  have cwd :
      field (persistedJob env mode startedAt job) "cwd" =
        resolvedCwd env (field job "cwd") := by
    simp [persistedJob, field, Entries.lookup]
  have timeout :
      field (persistedJob env mode startedAt job) "timeout_ms" =
        normalizeTimeoutMs env job := by
    simp [persistedJob, field, Entries.lookup]
  have sameTimeout :
      normalizeTimeoutMs env (persistedJob env mode startedAt job) =
        normalizeTimeoutMs env job := by
    rw [normalizeTimeoutMs, timeout, fields "timeout" (by simp)]
    unfold normalizeTimeoutMs
    by_cases given : (field job "timeout_ms").truthy
    · simp [given]
    · by_cases seconds : (field job "timeout").truthy
      · simp [given, seconds]
      · simp [given, seconds]
  have sameSource :
      collectorSource (persistedJob env mode startedAt job) =
        collectorSource job := by
    rw [collectorSource, fields "command" (by simp), fields "code" (by simp)]
    rfl
  have sameSchedule :
      scheduleMode (persistedJob env mode startedAt job) =
        scheduleMode job := by
    rw [scheduleMode, fields "schedule" (by simp), fields "cron" (by simp),
      fields "interval" (by simp)]
    rfl
  unfold consulted
  rw [noIndicator, cwd, sameTimeout, sameSource, sameSchedule,
    fields "name" (by simp), fields "env" (by simp),
    fields "output_format" (by simp)]

/-- A resolved directory resolves to itself. -/
def CwdStable (env : RunEnvironment) (job : ConfigHash) : Prop :=
  resolvedCwd env (resolvedCwd env (field job "cwd")) =
    resolvedCwd env (field job "cwd")

section

variable {Worker : Type} [DecidableEq Worker]

theorem nextWorker_cases {state next : LoopState Worker}
    {input : Worker × WorkerInput} {event : Worker × WorkerEvent}
    (taken : nextWorker env state input = some (event, next)) :
    (state.phase input.1 = .idle ∧ event = (input.1, .started) ∧
        next =
          { state with
            phase :=
              Function.update state.phase input.1
                (.started state.file) }) ∨
      (event = (input.1, .died) ∧
        next =
          { state with
            phase := Function.update state.phase input.1 .idle }) ∨
      (∃ job mode startedAt, state.phase input.1 = .started job ∧
        writesJob env job = some mode ∧ event = (input.1, .persisted) ∧
          next =
            { file := persistedJob env mode startedAt job
              phase :=
                Function.update state.phase input.1 (.persisted job) }) ∨
      (∃ job outcome, state.phase input.1 = .persisted job ∧
        event = (input.1, .finished (indicatorStatus job outcome)) ∧
          next =
            { state with
              phase := Function.update state.phase input.1 .idle }) := by
  obtain ⟨worker, action⟩ := input
  unfold nextWorker at taken
  split at taken
  · next isIdle _ =>
      obtain ⟨rfl, rfl⟩ := by simpa using taken
      exact .inl ⟨isIdle, rfl, rfl⟩
  · split at taken
    · cases taken
    · obtain ⟨rfl, rfl⟩ := by simpa using taken
      exact .inr (.inl ⟨rfl, rfl⟩)
  · next job startedAt isStarted _ =>
      obtain ⟨mode, writes, both⟩ := Option.map_eq_some_iff.mp taken
      obtain ⟨rfl, rfl⟩ := Prod.mk.inj both
      exact .inr (.inr (.inl ⟨job, mode, startedAt, isStarted, writes, rfl,
        rfl⟩))
  · next job outcome isPersisted _ =>
      obtain ⟨rfl, rfl⟩ := by simpa using taken
      exact .inr (.inr (.inr ⟨job, outcome, isPersisted, rfl, rfl⟩))
  · cases taken

theorem writesJob_congr {other : ConfigHash}
    (same : consulted env job = consulted env other) :
    writesJob env job = writesJob env other := by
  have sameName := congrArg Consulted.name same
  have sameCwd := congrArg Consulted.cwd same
  have sameSource := congrArg Consulted.source same
  dsimp only [consulted] at sameName sameCwd sameSource
  rw [writesJob, sameName, sameCwd, sameSource]
  rfl

structure AllConsult
    (env : RunEnvironment) (fields : Consulted)
    (state : LoopState Worker) : Prop where
  file : consulted env state.file = fields
  started : ∀ worker job,
    state.phase worker = .started job → consulted env job = fields

theorem AllConsult.enter {state : LoopState Worker}
    (all : AllConsult env fields state)
    {file : ConfigHash} (sameFile : consulted env file = fields)
    (worker : Worker) {phase : WorkerPhase}
    (same : ∀ job, phase = .started job → consulted env job = fields) :
    AllConsult env fields
      { file := file
        phase := Function.update state.phase worker phase } := by
  refine ⟨sameFile, fun other job isStarted => ?_⟩
  dsimp only at isStarted
  by_cases this : other = worker
  · subst this
    rw [Function.update_self] at isStarted
    exact same job isStarted
  · rw [Function.update_of_ne this] at isStarted
    exact all.started other job isStarted

theorem AllConsult.step
    (keeps : ∀ job mode startedAt,
      consulted env job = fields → writesJob env job = some mode →
        consulted env (persistedJob env mode startedAt job) = fields)
    {state next : LoopState Worker} (all : AllConsult env fields state)
    {input : Worker × WorkerInput} {event : Worker × WorkerEvent}
    (taken : nextWorker env state input = some (event, next)) :
    AllConsult env fields next := by
  obtain ⟨-, -, rfl⟩ | ⟨-, rfl⟩ | ⟨job, mode, startedAt, isStarted, writes,
    -, rfl⟩ | ⟨job, outcome, -, -, rfl⟩ := nextWorker_cases taken
  · refine all.enter all.file input.1 ?_
    rintro job ⟨⟩
    exact all.file
  · exact all.enter all.file input.1 (by rintro job ⟨⟩)
  · refine all.enter ?_ input.1 (by rintro job ⟨⟩)
    exact keeps job mode startedAt (all.started _ job isStarted) writes
  · exact all.enter all.file input.1 (by rintro job ⟨⟩)

theorem allConsult_initial (same : consulted env initial = fields)
    {state : LoopState Worker}
    (isInitial : (loopSystem env initial).initial state) :
    AllConsult env fields state := by
  obtain ⟨isFile, isIdle⟩ := isInitial
  refine ⟨by rw [isFile, same], fun worker job isStarted => ?_⟩
  rw [isIdle worker] at isStarted
  cases isStarted

end

theorem runsConfiguredJob_of_stable
    (same : consulted env initial = consulted env job)
    (noIndicator : ¬ DeclaresIndicator job) (stable : CwdStable env job) :
    RunsConfiguredJob env job initial := by
  intro trace state execution
  have undeclared : declaredIndicator job = none := by
    simpa [DeclaresIndicator] using noIndicator
  have keeps (run : ConfigHash) (mode startedAt : String)
      (sameRun : consulted env run = consulted env job)
      (_ : writesJob env run = some mode) :
      consulted env (persistedJob env mode startedAt run) =
        consulted env job := by
    have sameCwd := congrArg Consulted.cwd sameRun
    dsimp only [consulted] at sameCwd
    rw [consulted_persistedJob, sameRun, sameCwd, stable]
    unfold consulted
    rw [undeclared]
  have all :=
    execution.invariant (fun _ => AllConsult env (consulted env job))
      (allConsult_initial same)
      (fun all step => all.step keeps step.choose_spec)
  exact ⟨all.file, fun declares => absurd declares noIndicator⟩

/-- A job whose directory is missing is never written again. -/
theorem runsConfiguredJob_of_no_directory
    (same : consulted env initial = consulted env job)
    (missing :
      cwdExists env (resolvedCwd env (field job "cwd")) = false) :
    RunsConfiguredJob env job initial := by
  intro trace state execution
  have never (run : ConfigHash)
      (sameRun : consulted env run = consulted env job) :
      writesJob env run = none := by
    rw [writesJob_congr sameRun, writesJob, missing]
    simp
  have keeps (run : ConfigHash) (mode startedAt : String)
      (sameRun : consulted env run = consulted env job)
      (writes : writesJob env run = some mode) :
      consulted env (persistedJob env mode startedAt run) =
        consulted env job := by
    rw [never run sameRun] at writes
    cases writes
  have all :
      AllConsult env (consulted env job) state ∧
        (∀ worker run, state.phase worker ≠ .persisted run) ∧
          ∀ worker status, (worker, .finished status) ∉ trace := by
    refine execution.invariant
      (fun trace state =>
        AllConsult env (consulted env job) state ∧
          (∀ worker run, state.phase worker ≠ .persisted run) ∧
            ∀ worker status, (worker, .finished status) ∉ trace)
      ?_ ?_
    · intro state isInitial
      refine ⟨allConsult_initial same isInitial, fun worker run => ?_,
        fun _ _ => List.not_mem_nil⟩
      rw [isInitial.2 worker]
      rintro ⟨⟩
    · rintro trace state event next ⟨all, noneWritten, noneFinished⟩
        ⟨input, taken⟩
      have quiet (phase : WorkerPhase)
          (notWritten : ∀ run, phase ≠ .persisted run)
          (worker : Nat) (run : ConfigHash) :
          Function.update state.phase input.1 phase worker ≠
            .persisted run := by
        by_cases this : worker = input.1
        · subst this
          rw [Function.update_self]
          exact notWritten run
        · rw [Function.update_of_ne this]
          exact noneWritten worker run
      have emitted (other : WorkerEvent)
          (notFinished : ∀ status, other ≠ .finished status)
          (worker : Nat) (status : Option String) :
          (worker, .finished status) ∉ trace ++ [(input.1, other)] := by
        intro isIn
        rcases List.mem_append.mp isIn with earlier | latest
        · exact noneFinished worker status earlier
        · rw [List.mem_singleton, Prod.mk.injEq] at latest
          exact notFinished status latest.2.symm
      refine ⟨all.step keeps taken, ?_⟩
      obtain ⟨-, rfl, rfl⟩ | ⟨rfl, rfl⟩ | ⟨run, mode, _, isStarted, writes,
        -, -⟩ | ⟨run, _, isPersisted, -, -⟩ := nextWorker_cases taken
      · exact ⟨quiet _ (by rintro run ⟨⟩), emitted _ (by rintro status ⟨⟩)⟩
      · exact ⟨quiet _ (by rintro run ⟨⟩), emitted _ (by rintro status ⟨⟩)⟩
      · rw [never run (all.started _ run isStarted)] at writes
        cases writes
      · exact absurd isPersisted (noneWritten _ run)
  exact ⟨all.1.file, fun _ worker => all.2.2 worker none⟩

def idleLoop (initial : ConfigHash) : LoopState Nat where
  file := initial
  phase _ := .idle

/-- The first run of a loop writes `job.json`, if its directory exists. -/
theorem execution_persisted
    {mode : String} (writes : writesJob env initial = some mode) :
    ∃ (trace : List (Nat × WorkerEvent)) (state : LoopState Nat),
      (loopSystem env initial).Execution trace state ∧
        state.file = persistedJob env mode "" initial := by
  have isInitial : (loopSystem env initial).initial (idleLoop initial) :=
    ⟨rfl, fun _ => rfl⟩
  have starts :
      (loopSystem env initial).step (idleLoop initial) (0, .started)
        { file := initial
          phase := Function.update (idleLoop initial).phase 0 (.started initial) } :=
    ⟨(0, .start), rfl⟩
  have persists :
      (loopSystem env initial).step
        { file := initial
          phase := Function.update (idleLoop initial).phase 0 (.started initial) }
        (0, .persisted)
        { file := persistedJob env mode "" initial
          phase :=
            Function.update
              (Function.update (idleLoop initial).phase 0
                (.started initial)) 0
              (.persisted initial) } := by
    refine ⟨(0, .persist ""), ?_⟩
    simp [nextWorker, writes]
  exact
    ⟨_, _, ((TransitionSystem.Execution.start isInitial).extend
      starts).extend persists, rfl⟩

def plainEnvironment : RunEnvironment where
  currentDirectory := "/home/u"
  isAbsolute path := "/".toList.isPrefixOf path.toList
  accessor _ := none
  pathAlias _ := none
  isDirectory path := decide (path ∈ ["/home/u", "/srv"])
  milliseconds value := value
  cronError _ := none

def minuteJob : ConfigHash :=
  [("name", .string "disk"), ("command", .string "df"),
    ("cwd", .string "/srv"), ("interval", .number "60")]

def indicatorJob : ConfigHash :=
  minuteJob ++ [("indicator", .hash [("label", .string "Disk")])]

end

end DeveloperDashboard.Collector
