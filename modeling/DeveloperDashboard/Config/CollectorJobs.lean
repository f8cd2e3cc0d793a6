import DeveloperDashboard.Config.ApiRegistry
import DeveloperDashboard.Perl.Literal
import DeveloperDashboard.Perl.Number

namespace DeveloperDashboard.Config

open Library Perl

/-!
# Collector jobs

`collectors` and `indicator_collectors` of one snapshot: the built-in jobs, the
`collectors` of the merged configuration and those of the skills.  The first
normalizes what it resolves, the second resolves on its own, without the
built-in job that has no indicator, and projects.
-/

/-- A merged configuration: merging has named each member of a set once. -/
structure MergedConfig where
  config : ConfigHash
  isCollapsed : collapsed config = config

/-- What `merged` returns. -/
def MergedConfig.ofLayers (files : ConfigFiles) (fragments : List ConfigHash)
    (repo : ConfigHash) :
    MergedConfig where
  config := merged files fragments repo
  isCollapsed := by
    rw [merged_eq_layered, collapsed_layered]

/-- An entry of `_skill_config_entries`. -/
structure SkillConfig where
  skillName : String
  skillRoot : String
  config : ConfigHash

def jobField (job : ConfigHash) (key : String) : JsonValue :=
  (job.lookup key).getD .null

def JsonValue.isFilled : JsonValue → Bool
  | .null => false
  | .number text => decide (text ≠ "")
  | .string text => decide (text ≠ "")
  | _ => true

/-- The code of the job `housekeeper`. -/
def housekeeperCode : String :=
  "my $housekeeper = Developer::Dashboard::Housekeeper->new(\n" ++
  "    paths => Developer::Dashboard::PathRegistry->new(\n" ++
  "        workspace_roots => [ grep \x7b defined && -d \x7d " ++
  "map \x7b \"$ENV\x7bHOME\x7d/$_\" \x7d qw(projects src work) ],\n" ++
  "        project_roots   => [ grep \x7b defined && -d \x7d " ++
  "map \x7b \"$ENV\x7bHOME\x7d/$_\" \x7d qw(projects src work) ],\n" ++
  "    ),\n" ++
  ");\n" ++
  "print Developer::Dashboard::JSON::json_encode( " ++
  "$housekeeper->run );\n" ++
  "0;\n"

/-- The job of `_builtin_collectors`. -/
def housekeeperJob : ConfigHash :=
  [("name", .string "housekeeper"), ("code", .string housekeeperCode),
    ("cwd", .string "home"), ("interval", .number "900")]

/-- `_builtin_collectors`. -/
def builtinCollectors : List JsonValue :=
  [.hash housekeeperJob]

/-- The array `collectors` of a configuration; anything else has no jobs. -/
def collectorArray (config : ConfigHash) : List JsonValue :=
  match config.lookup "collectors" with
  | some (.array jobs) => jobs
  | _ => []

/-- The names of `DEVELOPER_DASHBOARD_CHECKERS`, when it is set. -/
def wantedNames (filter : Option String) : Option (List String) :=
  match filter with
  | none => none
  | some text =>
    if isTrue text.toList then
      some (((text.toList.splitOn ':').filter (· ≠ [])).map String.ofList)
    else none

/-- A hash whose name is a key of `%wanted`. -/
def isWanted (wanted : List String) (job : JsonValue) : Bool :=
  match job.identity "name" with
  | none => false
  | some name => wanted.any fun other => decide (other = name)

/-- The filter of `_configured_collector_jobs`. -/
def checkedCollectors (filter : Option String) (jobs : List JsonValue) :
    List JsonValue :=
  match wantedNames filter with
  | none => jobs
  | some wanted => jobs.filter (isWanted wanted)

def hasDefinedName : JsonValue → Bool
  | .hash job =>
    match jobField job "name" with
    | .null => false
    | _ => true
  | _ => false

/-- The filter of `_configured_indicator_jobs`. -/
def checkedIndicators (filter : Option String) (jobs : List JsonValue) :
    List JsonValue :=
  match wantedNames filter with
  | none => jobs
  | some wanted =>
    jobs.filter fun job => hasDefinedName job && isWanted wanted job

/-- `_collector_disable_flag`. -/
def collectorDisableFlag : JsonValue → Bool
  | .null => false
  | .boolean value => value
  | .number text => !isFalseText text && decide (text ≠ "")
  | .string text => !isFalseText text && decide (text ≠ "")
  | .array _ => true
  | .hash _ => true

/-- The hash `indicator` of a job with a name that is not disabled. -/
def projectIndicator : JsonValue → Option (JsonValue × JsonValue)
  | .hash job =>
    match jobField job "indicator" with
    | .hash indicator =>
      if (jobField job "name").isFilled &&
          !collectorDisableFlag (jobField job "disable") then
        some (jobField job "name", .hash indicator)
      else none
    | _ => none
  | _ => none

section

-- the string of a reference, which is its address
variable (referenceText : JsonValue → String)

def valueText (value : JsonValue) : String :=
  match value with
  | .null => ""
  | .boolean value => if value then "1" else "0"
  | .number text => text
  | .string text => text
  | reference => referenceText reference

def qualifiedName (skillName name : String) : String :=
  if (skillName.toList ++ ['.']).isPrefixOf name.toList then name
  else skillName ++ "." ++ name

/-- A job of a skill, with what `_skill_collectors` adds to it. -/
def skillJob (entry : SkillConfig) (job : ConfigHash) : ConfigHash :=
  let name :=
    qualifiedName entry.skillName
      (valueText referenceText (jobField job "name"))
  ((job.store "name" (.string name)).store "skill_name"
    (.string entry.skillName)).store "skill_root" (.string entry.skillRoot)

/-- What `_skill_collectors` pushes for a job of a skill. -/
def skillJob? (entry : SkillConfig) : JsonValue → Option JsonValue
  | .hash job =>
    if (jobField job "name").isFilled then
      some (.hash (skillJob referenceText entry job))
    else none
  | _ => none

/-- `_skill_collectors`. -/
def skillCollectors (entries : List SkillConfig) : List JsonValue :=
  entries.flatMap fun entry =>
    (collectorArray entry.config).filterMap (skillJob? referenceText entry)

def withSkillJobs (jobs skillJobs : List JsonValue) : List JsonValue :=
  if skillJobs.isEmpty then jobs
  else mergeNamedHashArray mergeHashes "name" jobs skillJobs

/-- The configured jobs, merged into the built-in ones. -/
def declaredCollectors (config : ConfigHash) : List JsonValue :=
  match config.lookup "collectors" with
  | some (.array declared) =>
    mergeNamedHashArray mergeHashes "name" builtinCollectors declared
  | _ => builtinCollectors

/-- `_configured_collector_jobs`. -/
def configuredCollectorJobs
    (config : ConfigHash) (entries : List SkillConfig)
    (filter : Option String) :
    List JsonValue :=
  checkedCollectors filter
    (withSkillJobs (declaredCollectors config)
      (skillCollectors referenceText entries))

def builtinIndicators : List JsonValue :=
  builtinCollectors.filter fun
    | .hash job =>
      match jobField job "indicator" with
      | .hash _ => true
      | _ => false
    | _ => false

/-- The configured jobs; built-in indicators are merged when there are any. -/
def declaredIndicators (config : ConfigHash) : List JsonValue :=
  match config.lookup "collectors" with
  | some (.array declared) =>
    if builtinIndicators.isEmpty then declared
    else mergeNamedHashArray mergeHashes "name" builtinIndicators declared
  | _ => builtinIndicators

/-- `_configured_indicator_jobs`. -/
def configuredIndicatorJobs
    (config : ConfigHash) (entries : List SkillConfig)
    (filter : Option String) :
    List JsonValue :=
  checkedIndicators filter
    (withSkillJobs (declaredIndicators config)
      (skillCollectors referenceText entries))

/-- The value of `multiple`: a number of jobs that run at once. -/
def multipleValue? (text : String) : Option JsonValue :=
  if matchesDigits text.toList && decide (1 ≤ stringNumber text.toList) then
    some (.number
      (String.ofList (integerText (stringNumber text.toList))))
  else none

def normalizedJob (job : ConfigHash) (mode multiple : JsonValue) :
    JsonValue :=
  let flag :=
    if collectorDisableFlag (jobField job "disable") then "1" else "0"
  .hash
    (((job.store "disable" (.number flag)).store "mode" mode).store
      "multiple" multiple)

/-- `_normalize_collector_job`. -/
def normalizeCollectorJob : JsonValue → Except String JsonValue
  | .hash job =>
    let mode :=
      if (jobField job "mode").isFilled then jobField job "mode"
      else .string "singleton"
    let name := valueText referenceText (jobField job "name")
    let modeText := valueText referenceText mode
    if modeText = "singleton" then
      .ok (normalizedJob job mode (.number "1"))
    else if modeText = "multiple" then
      let parallel :=
        match jobField job "multiple" with
        | .null => "2"
        | value => valueText referenceText value
      match multipleValue? parallel with
      | some multiple => .ok (normalizedJob job mode multiple)
      | none =>
        .error ("Collector '" ++ name ++
          "' multiple value must be a positive integer")
    else
      .error ("Collector '" ++ name ++ "' has unsupported mode '" ++
        modeText ++ "'")
  | job => .ok job

/-- `collectors`. -/
def collectors (config : ConfigHash) (entries : List SkillConfig)
    (filter : Option String) :
    Except String (List JsonValue) :=
  (configuredCollectorJobs referenceText config entries filter).mapM
    (normalizeCollectorJob referenceText)

/-- `indicator_collectors`. -/
def indicatorCollectors (config : ConfigHash) (entries : List SkillConfig)
    (filter : Option String) :
    List (JsonValue × JsonValue) :=
  (configuredIndicatorJobs referenceText config entries filter).filterMap
    projectIndicator

end

def enabledIndicator : JsonValue → Option (JsonValue × JsonValue)
  | .hash job =>
    match jobField job "indicator" with
    | .hash indicator =>
      if (jobField job "name").isFilled &&
          !(jobField job "disable").truthy then
        some (jobField job "name", .hash indicator)
      else none
    | _ => none
  | _ => none

end DeveloperDashboard.Config
