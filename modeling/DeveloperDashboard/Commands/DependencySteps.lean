import DeveloperDashboard.Commands.WaitStatus
import DeveloperDashboard.Perl.Text
import Mathlib.Data.List.Sort

namespace DeveloperDashboard.Commands

open Perl

/-!
# Compose runs

Before a compose command runs, `docker compose config` says which services the
base files make up, and once more what the files of these services add.  The
output of the last of them is the only file that the command is given.
-/

inductive ComposeStage where
  | baseConfig
  | finalConfig
  | operation
deriving DecidableEq

/-- What `_compose_argument_parts` makes of the arguments. -/
structure ComposeParts where
  globalArgs : List Text
  projectDirectory : List Text
  operationArgs : List Text
deriving DecidableEq

/-- What `_materialized_command` is given, and what it reads. -/
structure ResolvedCompose where
  command : List Text
  parts : Except Text ComposeParts
  /-- The keys of `services` in the output, when it parses as a mapping. -/
  loadServices : Text → Except Text (List Text)
  /-- `_gather_service_files`. -/
  serviceFiles : List Text → List Text
  /-- The name of the temporary file, given what is written to it. -/
  mergedFile : Text → Text

inductive ComposeFailure where
  | arguments (error : Text)
  /-- `Unable to materialize merged docker compose config`. -/
  | config (exit : Nat) (stderr : Text)
  | services (error : Text)
  /-- `Resolved base docker compose contains an invalid service name`. -/
  | invalidService (service : Text)
deriving DecidableEq

def isInvalidService (service : Text) : Bool :=
  service = [] || service = ['.'] || service = ['.', '.'] ||
    service.any fun letter =>
      letter = '\\' || letter = '/' || letter = '\x00'

/-- `$help_requested`. -/
def helpRequested (operationArgs : List Text) : Bool :=
  operationArgs.any (fun argument =>
      argument = "--help".toList || argument = "-h".toList) ||
    operationArgs.head? = some "help".toList

/-- A command, or why there is none, with what was said of the children. -/
structure MaterializedCommand where
  command : Except ComposeFailure (List Text)
  reports : List Report

/-- What is said of a `config` child. -/
def configReport (run : ChildRun Text) : Report :=
  { executor := .materializedCommand
    child := run.ended
    expired := false
    exitCode := shiftedStatus run.ended.status
    taken := decide (shiftedStatus run.ended.status = 0) }

namespace ResolvedCompose

variable (resolved : ResolvedCompose)

def operationCommand (parts : ComposeParts) (merged : Text) : List Text :=
  ["docker".toList, "compose".toList] ++ parts.globalArgs ++
    parts.projectDirectory ++ ["-f".toList, resolved.mergedFile merged] ++
    parts.operationArgs

/-- `_materialized_command`, once the services are known. -/
def materializeServices (children : ComposeStage → ChildRun Text)
    (parts : ComposeParts) (services : List Text) :
    MaterializedCommand :=
  let base := children .baseConfig
  let final := children .finalConfig
  match services.find? isInvalidService with
  | some service =>
    { command := .error (.invalidService service)
      reports := [configReport base] }
  | none =>
    if resolved.serviceFiles services = [] then
      { command := .ok (resolved.operationCommand parts base.stdout)
        reports := [configReport base] }
    else if shiftedStatus final.ended.status ≠ 0 then
      { command :=
          .error
            (.config (shiftedStatus final.ended.status) final.stderr)
        reports := [configReport base, configReport final] }
    else
      { command := .ok (resolved.operationCommand parts final.stdout)
        reports := [configReport base, configReport final] }

/-- `_materialized_command`, once the arguments are split. -/
def materializeParts
    (children : ComposeStage → ChildRun Text) (parts : ComposeParts) :
    MaterializedCommand :=
  let base := children .baseConfig
  if helpRequested parts.operationArgs then
    { command := .ok resolved.command, reports := [] }
  else if shiftedStatus base.ended.status ≠ 0 then
    { command :=
        .error (.config (shiftedStatus base.ended.status) base.stderr)
      reports := [configReport base] }
  else
    match resolved.loadServices base.stdout with
    | .error error =>
      { command := .error (.services error)
        reports := [configReport base] }
    | .ok services =>
      resolved.materializeServices children parts
        (services.insertionSort (· ≤ ·))

/-- `_materialized_command`. -/
def materializedCommand (children : ComposeStage → ChildRun Text) :
    MaterializedCommand :=
  if resolved.command.take 2 ≠ ["docker".toList, "compose".toList] then
    { command := .ok resolved.command, reports := [] }
  else
    match resolved.parts with
    | .error error => { command := .error (.arguments error), reports := [] }
    | .ok parts => resolved.materializeParts children parts

/-- The decoding in `run_streaming`. -/
def streamingExitCode (status : Nat) : Nat :=
  let signal := status &&& 127
  if signal ≠ 0 then 128 + signal else status >>> 8

/-- A compose run: its exit code, or why it died, and what was said. -/
structure ComposeResult where
  exitCode : Except ComposeFailure Nat
  reports : List Report

def runWith (executor : Executor) (decode : Nat → Nat)
    (children : ComposeStage → ChildRun Text) :
    ComposeResult :=
  let materialized := resolved.materializedCommand children
  let operation := children .operation
  match materialized.command with
  | .error failure =>
    { exitCode := .error failure, reports := materialized.reports }
  | .ok _ =>
    { exitCode := .ok (decode operation.ended.status)
      reports :=
        materialized.reports ++
          [{ executor := executor
             child := operation.ended
             expired := false
             exitCode := decode operation.ended.status
             taken := false }] }

/-- `run`, of a run that is not dry. -/
def run (children : ComposeStage → ChildRun Text) : ComposeResult :=
  resolved.runWith .composeRun shiftedStatus children

/-- `run_streaming`, of a run that is not dry. -/
def runStreaming (children : ComposeStage → ChildRun Text) : ComposeResult :=
  resolved.runWith .composeRunStreaming streamingExitCode children

end ResolvedCompose

/-!
# Dependency steps

The dependencies of a skill are installed by other programs, which are run one
after the other.  Each step looks at the exit code of its program and gives up
on any but zero, and the first step that gives up ends the installation.
-/

/-- The steps of `_install_skill_dependencies` that run programs. -/
inductive InstallTask where
  | aptfile
  | apkfile
  | dnfile
  | wingetfile
  | brewfile
  | packageJson
  | requirementsTxt
  | cpanfile
  | cpanfileLocal
  | makefile
  | dockerfile
deriving DecidableEq

inductive HostSystem where
  | debianLike
  | alpine
  | fedora
  | darwin
  | windows
deriving DecidableEq

/-- A program with its arguments, and the time it is given; zero is no limit. -/
structure StreamingCommand where
  argv : List Text
  timeoutMs : Nat
deriving DecidableEq

/-- What a program does: it ends, and maybe after its time. -/
structure StreamingOutcome where
  run : ChildRun Text
  late : Bool
deriving DecidableEq

/-- The result of `_run_streaming_command`. -/
structure StreamingRun where
  stdout : Text
  stderr : Text
  exit : Int
  timedOut : Bool
deriving DecidableEq

/-- `_run_streaming_command`. -/
def runStreamingCommand
    (command : StreamingCommand) (outcome : StreamingOutcome) :
    StreamingRun :=
  let timedOut := decide (command.timeoutMs ≠ 0) && outcome.late
  { stdout := outcome.run.stdout
    stderr := outcome.run.stderr
    exit := if timedOut then -1 else shiftedStatus outcome.run.ended.status
    timedOut := timedOut }

/-- What is said of a program by `_run_streaming_command`. -/
def streamingReport (command : StreamingCommand) (outcome : StreamingOutcome)
    (taken : Bool) :
    Report :=
  let run := runStreamingCommand command outcome
  { executor := .runStreamingCommand
    child := outcome.run.ended
    expired := run.timedOut
    exitCode := run.exit
    taken := taken }

inductive StepResult where
  | skipped
  | installed (stdout stderr : Text)
  | failed (error : Text)
deriving DecidableEq

structure StepRun where
  result : StepResult
  reports : List Report
deriving DecidableEq

/-- What the steps find out about a skill and its host. -/
structure SkillSetup where
  skillPath : Text
  skillName : Text
  runsOn : HostSystem → Bool
  root : Bool
  aptPackages : List Text
  apkPackages : List Text
  dnfPackages : List Text
  wingetPackages : List Text
  brewPackages : List Text
  isInstalled : Text → Bool
  /-- `_package_json_dependency_specs`, if there is such a file. -/
  nodeSpecs : List Text
  nodeModules : Text
  copyError : Text
  hasRequirements : Bool
  python : Text
  venvPython : Text
  venvDir : Text
  /-- The interpreter is there before, and after it was asked for. -/
  hasVenv : Bool
  hasVenvAfter : Bool
  hasCpanfile : Bool
  sharedRoot : Text
  hasCpanfileLocal : Bool
  localRoot : Text
  /-- `_makefile_targets`, if there is a `Makefile`. -/
  makefileTargets : Option (List Text)
  make : Text
  skipTests : Bool
  hasDockerfile : Bool
  /-- `_skill_install_timeout_ms`. -/
  timeoutMs : Nat

abbrev StepOutcomes :=
  InstallTask → Nat → StreamingOutcome

namespace SkillSetup

variable (setup : SkillSetup)

def file (name : String) : Text :=
  setup.skillPath ++ '/' :: name.toList

/-- `_skill_package_runner_prefix`. -/
def runnerPrefix : List Text :=
  if setup.root then [] else ["sudo".toList]

def singleCommand (command : StreamingCommand) (outcome : StreamingOutcome)
    (what : String) (after : StepResult → StepResult) :
    StepRun :=
  let run := runStreamingCommand command outcome
  if run.timedOut then
    { result :=
        .failed
          ("Timed out installing skill ".toList ++ what.toList ++
            " for ".toList ++ setup.skillPath ++ " after ".toList ++
            (Nat.repr setup.timeoutMs).toList ++ "ms".toList)
      reports := [streamingReport command outcome false] }
  else if run.exit ≠ 0 then
    { result :=
        .failed
          ("Failed to install skill ".toList ++ what.toList ++
            " for ".toList ++ setup.skillPath ++ ": ".toList ++ run.stderr)
      reports := [streamingReport command outcome false] }
  else
    { result := after (.installed run.stdout run.stderr)
      reports := [streamingReport command outcome true] }

def packageStep (system : HostSystem) (packages : List Text)
    (manager : List String) (what : String) (outcome : StreamingOutcome) :
    StepRun :=
  let missing := packages.filter fun package => !setup.isInstalled package
  if packages = [] ∨ setup.runsOn system = false ∨ missing = [] then
    { result := .skipped, reports := [] }
  else
    setup.singleCommand
      { argv := setup.runnerPrefix ++ manager.map String.toList ++ missing
        timeoutMs := 0 }
      outcome what id

/-- `_install_skill_aptfile`. -/
def installAptfile (outcome : Nat → StreamingOutcome) : StepRun :=
  setup.packageStep .debianLike setup.aptPackages
    ["apt-get", "install", "-y"] "apt dependencies" (outcome 0)

/-- `_install_skill_apkfile`. -/
def installApkfile (outcome : Nat → StreamingOutcome) : StepRun :=
  setup.packageStep .alpine setup.apkPackages
    ["apk", "add", "--no-cache"] "apk dependencies" (outcome 0)

/-- `_install_skill_dnfile`. -/
def installDnfile (outcome : Nat → StreamingOutcome) : StepRun :=
  setup.packageStep .fedora setup.dnfPackages
    ["dnf", "install", "-y"] "dnf dependencies" (outcome 0)

/-- `_install_skill_brewfile`, which installs what is there again. -/
def installBrewfile (outcome : Nat → StreamingOutcome) : StepRun :=
  if setup.brewPackages = [] ∨ setup.runsOn .darwin = false then
    { result := .skipped, reports := [] }
  else
    setup.singleCommand
      { argv := ["brew".toList, "install".toList] ++ setup.brewPackages
        timeoutMs := 0 }
      (outcome 0) "brew dependencies" id

/--
Programs one after the other, up to the first that fails: the loops of
`_install_skill_wingetfile` and `_install_skill_makefile`.
-/
def commandLoop (failure : StreamingCommand → StreamingRun → Text) :
    List (StreamingCommand × StreamingOutcome) → Text → Text → StepRun
  | [], stdout, stderr =>
    { result := .installed stdout stderr, reports := [] }
  | (command, outcome) :: rest, stdout, stderr =>
    let run := runStreamingCommand command outcome
    if run.exit ≠ 0 then
      { result := .failed (failure command run)
        reports := [streamingReport command outcome false] }
    else
      let after :=
        commandLoop failure rest (stdout ++ run.stdout)
          (stderr ++ run.stderr)
      { result := after.result
        reports := streamingReport command outcome true :: after.reports }

def withOutcomes
    (commands : List (List Text)) (outcome : Nat → StreamingOutcome) :
    List (StreamingCommand × StreamingOutcome) :=
  commands.zipIdx.map fun numbered =>
    ({ argv := numbered.1, timeoutMs := 0 }, outcome numbered.2)

/-- `_install_skill_wingetfile`. -/
def installWingetfile (outcome : Nat → StreamingOutcome) : StepRun :=
  if setup.wingetPackages = [] ∨ setup.runsOn .windows = false then
    { result := .skipped, reports := [] }
  else
    commandLoop
      (fun _ run =>
        "Failed to install skill winget dependencies for ".toList ++
          setup.skillPath ++ ": ".toList ++ run.stderr)
      (withOutcomes
        (setup.wingetPackages.map fun package =>
          ["winget".toList, "install".toList, "--id".toList, package,
            "--exact".toList, "--accept-package-agreements".toList,
            "--accept-source-agreements".toList,
            "--disable-interactivity".toList])
        outcome)
      [] []

/-- `_install_skill_package_json`. -/
def installPackageJson (outcome : Nat → StreamingOutcome) : StepRun :=
  if setup.nodeSpecs = [] then { result := .skipped, reports := [] }
  else
    setup.singleCommand
      { argv :=
          ["npx".toList, "--yes".toList, "npm".toList, "install".toList] ++
            setup.nodeSpecs
        timeoutMs := setup.timeoutMs }
      (outcome 0) "Node dependencies" fun installed =>
        if setup.copyError = [] then installed
        else
          .failed
            ("Failed to merge skill Node dependencies into ".toList ++
              setup.nodeModules ++ " for ".toList ++ setup.skillPath ++
              ": ".toList ++ setup.copyError)

/-- The program that makes a venv, whose failure is not fatal. -/
def venvCommand : StreamingCommand :=
  { argv := [setup.python, "-m".toList, "venv".toList, setup.venvDir]
    timeoutMs := setup.timeoutMs }

def pipCommand (venv : Bool) : StreamingCommand :=
  { argv :=
      if venv then
        [setup.venvPython, "-m".toList, "pip".toList, "install".toList,
          "--requirement".toList, setup.file "requirements.txt"]
      else
        [setup.python, "-m".toList, "pip".toList, "install".toList,
          "--user".toList, "--requirement".toList,
          setup.file "requirements.txt"]
    timeoutMs := setup.timeoutMs }

/-- `_install_skill_requirements_txt`. -/
def installRequirementsTxt (outcome : Nat → StreamingOutcome) : StepRun :=
  if !setup.hasRequirements then { result := .skipped, reports := [] }
  else if setup.hasVenv then
    setup.singleCommand (setup.pipCommand true) (outcome 0)
      "Python dependencies" id
  else
    let pip :=
      setup.singleCommand (setup.pipCommand setup.hasVenvAfter) (outcome 1)
        "Python dependencies" id
    { result := pip.result
      reports :=
        streamingReport setup.venvCommand (outcome 0) false :: pip.reports }

/-- A `cpanm` of one of the two manifests. -/
def cpanmStep (present : Bool) (target : Text) (manifest what : String)
    (outcome : StreamingOutcome) :
    StepRun :=
  if !present then { result := .skipped, reports := [] }
  else
    setup.singleCommand
      { argv :=
          ["cpanm".toList, "--notest".toList, "-L".toList, target,
            "--cpanfile".toList, setup.file manifest,
            "--installdeps".toList, ".".toList]
        timeoutMs := 0 }
      outcome what id

/-- `_install_skill_cpanfile`. -/
def installCpanfile (outcome : Nat → StreamingOutcome) : StepRun :=
  setup.cpanmStep setup.hasCpanfile setup.sharedRoot "cpanfile"
    "dependencies" (outcome 0)

/-- `_install_skill_cpanfile_local`. -/
def installCpanfileLocal (outcome : Nat → StreamingOutcome) : StepRun :=
  setup.cpanmStep setup.hasCpanfileLocal setup.localRoot "cpanfile.local"
    "local dependencies" (outcome 0)

/-- The arguments that `make` is called with. -/
def makeArguments (targets : List Text) : List (List Text) :=
  let has (name : Text) : Bool :=
    targets.any fun target => decide (target = name)
  [[]] ++
    (if setup.skipTests then []
      else if has "test".toList then [["test".toList]]
      else if has "tests".toList then [["tests".toList]]
      else []) ++
    [["install".toList]] ++
    (if has "clean".toList then [["clean".toList]] else [])

def makeFailure (command : StreamingCommand) (run : StreamingRun) : Text :=
  let arguments := command.argv.drop 1
  "Failed to run skill Makefile target '".toList ++
    (if arguments = [] then "default".toList
      else [' '].intercalate arguments) ++
    "' for ".toList ++ setup.skillPath ++ ": ".toList ++
    (if run.stderr ≠ [] then run.stderr else run.stdout)

/-- `_install_skill_makefile`. -/
def installMakefile (outcome : Nat → StreamingOutcome) : StepRun :=
  match setup.makefileTargets with
  | none => { result := .skipped, reports := [] }
  | some targets =>
    commandLoop setup.makeFailure
      (withOutcomes
        ((setup.makeArguments targets).map fun arguments =>
          setup.make :: arguments)
        outcome)
      [] []

/-- `_install_skill_dockerfile`. -/
def installDockerfile (outcome : Nat → StreamingOutcome) : StepRun :=
  if !setup.hasDockerfile then { result := .skipped, reports := [] }
  else
    let command : StreamingCommand :=
      { argv :=
          ["docker".toList, "build".toList, "-t".toList,
            setup.skillName.map Char.toLower, "-f".toList,
            setup.file "dockerfile", setup.skillPath]
        timeoutMs := 0 }
    let run := runStreamingCommand command (outcome 0)
    if run.exit ≠ 0 then
      { result :=
          .failed
            ("Failed to build Docker image for ".toList ++
              setup.skillPath ++ ": ".toList ++ run.stderr)
        reports := [streamingReport command (outcome 0) false] }
    else
      { result := .installed run.stdout run.stderr
        reports := [streamingReport command (outcome 0) true] }

def steps : List (InstallTask × ((Nat → StreamingOutcome) → StepRun)) :=
  [(.aptfile, setup.installAptfile), (.apkfile, setup.installApkfile),
    (.dnfile, setup.installDnfile), (.wingetfile, setup.installWingetfile),
    (.brewfile, setup.installBrewfile),
    (.packageJson, setup.installPackageJson),
    (.requirementsTxt, setup.installRequirementsTxt),
    (.cpanfile, setup.installCpanfile),
    (.cpanfileLocal, setup.installCpanfileLocal),
    (.makefile, setup.installMakefile),
    (.dockerfile, setup.installDockerfile)]

end SkillSetup

/-- The loop of `_install_skill_dependencies`. -/
def runSteps (outcomes : StepOutcomes) :
    List (InstallTask × ((Nat → StreamingOutcome) → StepRun)) →
    Bool → Text → Text → StepRun
  | [], ran, stdout, stderr =>
    { result := if ran then .installed stdout stderr else .skipped
      reports := [] }
  | (task, step) :: rest, ran, stdout, stderr =>
    let run := step (outcomes task)
    match run.result with
    | .failed error => { result := .failed error, reports := run.reports }
    | .skipped =>
      let after := runSteps outcomes rest ran stdout stderr
      { result := after.result
        reports := run.reports ++ after.reports }
    | .installed out err =>
      let after :=
        runSteps outcomes rest true (stdout ++ out) (stderr ++ err)
      { result := after.result
        reports := run.reports ++ after.reports }

/-- `_install_skill_dependencies`, up to the dependent skills. -/
def installSkillDependencies
    (setup : SkillSetup) (outcomes : StepOutcomes) : StepRun :=
  runSteps outcomes setup.steps false [] []

end DeveloperDashboard.Commands
