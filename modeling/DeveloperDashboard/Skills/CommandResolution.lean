import DeveloperDashboard.Library.FirstFound
import DeveloperDashboard.Skills.DisabledCommands

namespace DeveloperDashboard.Skills

open Library Perl

/-!
# Commands with any characters

A command may have slashes, so that a name of it is several names of a path.
These are the functions of the dispatcher on paths as the file system takes
them; on commands without slashes they are those of single names.
-/

/-- The names of a path below a directory, as the file system takes them. -/
def pathNames (text : Text) : List Text :=
  (text.splitOn '/').filter fun name =>
    decide (name ≠ [] ∧ name ≠ ['.'])

/-- `File::Spec->canonpath` of a name without `..`. -/
def canonPath (name : Text) : Text :=
  (if name.head? = some '/' then ['/'] else []) ++
    ['/'].intercalate (pathNames name)

/-- The suffixes of `_runnable_path_candidates`. -/
def runnableSuffixes : List Text :=
  [".pl".toList, ".py".toList, ".js".toList, ".go".toList, ".java".toList,
    ".ps1".toList, ".cmd".toList, ".bat".toList, ".sh".toList,
    ".bash".toList]

/-- The pattern `\.[^\\\/.]+\z`. -/
def endsInExtension (path : Text) : Bool :=
  hasExtension path &&
    !(((path.splitOn '.').getLast?).getD []).contains '/'

/-- `_runnable_path_candidates`, below a directory. -/
def runnablePaths (path : Text) : List Text :=
  if endsInExtension path then [path]
  else path :: runnableSuffixes.map fun suffix => path ++ suffix

variable {Content : Type}

variable {name : Text} {nested : List Text}

namespace PathRegistry

namespace AnyCommand

/-- `_nested_skill_path`. -/
def nestedSkillPath (skillPath : Path) (segments : List Text) : Path :=
  skillPath ++ segments.flatMap fun segment =>
    "skills".toList :: pathNames segment

section

variable (paths : PathRegistry Content) (executable : Content → Bool)

/--
`resolve_runnable_file` of a name in a directory.  A path that ends with a
slash is not that of a file.
-/
def resolveRunnableFile (dir : Path) (name : Text) : Option Path :=
  (((runnablePaths (canonPath name)).map pathNames).find? fun names =>
    decide (names ≠ []) &&
      (paths.tree.content? (dir ++ names)).any executable).map
    fun names => dir ++ names

/-- The `@provider_layers` of a candidate. -/
def providerLayers (layers : List Path) (nested : List Text) : List Path :=
  (layers.map fun layer => nestedSkillPath layer nested).filter
    fun provider => nested.isEmpty || paths.tree.isFolder provider

/-- The `@env_skill_layers` of a candidate. -/
def envLayers : List Path → List Text → List Path
  | frontier, [] => frontier
  | frontier, segment :: rest =>
    frontier ++
      envLayers
        ((frontier.map fun root =>
          nestedSkillPath root [segment]).filter paths.tree.isFolder)
        rest

/-- A file of a candidate, from the deepest layer on. -/
def findCommand (layers : List Path) (nested : List Text)
    (fileName commandName : Text) :
    Option CommandSpec :=
  let providers := providerLayers paths layers nested
  providers.reverse.findSome? fun provider =>
    (resolveRunnableFile paths executable (cliRoot provider) fileName).map
      fun cmdPath =>
        { cmdPath := cmdPath
          skillPath := provider
          skillLayers := providers
          envSkillLayers := envLayers paths layers nested
          commandName := commandName }

def findExplicit (layers : List Path) (spec : CommandRootSpec) :
    Option CommandSpec :=
  findCommand paths executable layers spec.nestedSegments
    spec.commandName spec.commandName

def findInitializer (layers : List Path) (spec : CommandRootSpec) :
    Option CommandSpec :=
  findCommand paths executable layers spec.nestedSegments
    "__init__".toList
    (if spec.initOnly then "__init__".toList else spec.commandName)

/-- The two loops of `_command_spec`, over the layers of the skill. -/
def commandSpecIn (layers : List Path) (segments : List Text) :
    Option CommandSpec :=
  let specs := commandRootSpecs segments
  ((specs.filter fun spec => !spec.initOnly).findSome?
      (findExplicit paths executable layers)).or
    (specs.reverse.findSome? (findInitializer paths executable layers))

/-- `_command_spec`. -/
def commandSpec (skillName command : Text) : Option CommandSpec :=
  if !isTrue skillName || !isTrue command then none
  else
    commandSpecIn paths executable (paths.dispatcherSkillLayers skillName)
      (commandSegments command)

/-- The runnable files below `cli/<command>.d` of the layers. -/
def hookPaths (layers : List Path) (commandName : Text) : List Path :=
  layers.flatMap fun layer =>
    let hooksDir := cliRoot layer ++ pathNames (commandName ++ ".d".toList)
    if !paths.tree.isFolder hooksDir then []
    else
      ((paths.sortedNames hooksDir).filter fun entry =>
          (resolveRunnableFile paths executable hooksDir entry).isSome).map
        fun entry => hooksDir ++ [entry]

/-- `command_hook_paths`. -/
def commandHookPaths (skillName command : Text) : List Path :=
  match commandSpec paths executable skillName command with
  | none => []
  | some spec =>
    hookPaths paths executable spec.skillLayers spec.commandName

/-- The hooks that `execute_hooks` runs. -/
def executeHooks (skillName command : Text) : List Path :=
  if !isTrue skillName || !isTrue command then []
  else if (paths.getSkillPath skillName).isNone then []
  else if !paths.isEnabled skillName then []
  else
    match commandSpec paths executable skillName command with
    | none =>
      hookPaths paths executable (paths.dispatcherSkillLayers skillName)
        command
    | some spec =>
      hookPaths paths executable spec.skillLayers spec.commandName

end

theorem pathNames_of_plain
    (plain : '/' ∉ name) (nonempty : name ≠ []) (noDot : name ≠ ['.']) :
    pathNames name = [name] := by
  unfold pathNames
  rw [List.splitOn_eq_singleton plain]
  exact List.filter_cons_of_pos (decide_eq_true ⟨nonempty, noDot⟩)

theorem canonPath_of_plain
    (plain : '/' ∉ name) (nonempty : name ≠ []) (noDot : name ≠ ['.']) :
    canonPath name = name := by
  unfold canonPath
  rw [pathNames_of_plain plain nonempty noDot, List.intercalate_singleton,
    if_neg]
  · rfl
  · intro first
    exact plain (List.mem_of_mem_head? first)

theorem mem_of_mem_getLast_splitOn {text : Text} {char separator : Char}
    (isIn : char ∈ ((text.splitOn separator).getLast?).getD []) :
    char ∈ text := by
  cases last : (text.splitOn separator).getLast? with
  | none =>
    rw [last] at isIn
    exact absurd isIn List.not_mem_nil
  | some part =>
    rw [last] at isIn
    have joined : [separator].intercalate (text.splitOn separator) = text :=
      List.intercalate_splitOn separator
    rw [← joined]
    exact Joined.mem_intercalate_iff.mpr
      (Or.inl ⟨part, List.mem_of_getLast? last, isIn⟩)

theorem runnablePaths_of_plain (plain : '/' ∉ name) :
    runnablePaths name = runnableCandidates name := by
  have same : endsInExtension name = hasExtension name := by
    unfold endsInExtension
    have none :
        (((name.splitOn '.').getLast?).getD []).contains '/' = false := by
      rw [Bool.eq_false_iff, ne_eq, List.contains_iff_mem]
      exact fun isIn => plain (mem_of_mem_getLast_splitOn isIn)
    rw [none, Bool.not_false, Bool.and_true]
  unfold runnablePaths runnableCandidates
  rw [same]
  rfl

theorem suffix_of_mem {suffix : Text} (isSuffix : suffix ∈ runnableSuffixes) :
    '/' ∉ suffix ∧ 2 < suffix.length := by
  have each :
      ∀ suffix ∈ runnableSuffixes, '/' ∉ suffix ∧ 2 < suffix.length := by
    decide
  exact each suffix isSuffix

theorem pathNames_candidate
    (plain : '/' ∉ name) (nonempty : name ≠ []) (noDot : name ≠ ['.'])
    {candidate : Text} (isCandidate : candidate ∈ runnableCandidates name) :
    pathNames candidate = [candidate] := by
  rw [← runnablePaths_of_plain plain] at isCandidate
  unfold runnablePaths at isCandidate
  split at isCandidate
  · rw [List.mem_singleton.mp isCandidate]
    exact pathNames_of_plain plain nonempty noDot
  · rcases List.mem_cons.mp isCandidate with rfl | suffixed
    · exact pathNames_of_plain plain nonempty noDot
    · obtain ⟨suffix, isSuffix, rfl⟩ := List.mem_map.mp suffixed
      obtain ⟨noSlash, long⟩ := suffix_of_mem isSuffix
      have longer : 2 < (name ++ suffix).length := by
        rw [List.length_append]
        omega
      refine pathNames_of_plain ?_ ?_ ?_
      · rw [List.mem_append, not_or]
        exact ⟨plain, noSlash⟩
      · intro empty
        rw [empty] at longer
        contradiction
      · intro single
        rw [single] at longer
        contradiction

theorem resolveRunnableFile_of_plain
    (paths : PathRegistry Content) (executable : Content → Bool) (dir : Path)
    (plain : '/' ∉ name) (nonempty : name ≠ []) (noDot : name ≠ ['.']) :
    resolveRunnableFile paths executable dir name =
      paths.resolveRunnableFile executable dir name := by
  have mapped :
      (runnablePaths (canonPath name)).map pathNames =
        (runnableCandidates name).map fun candidate => [candidate] := by
    rw [canonPath_of_plain plain nonempty noDot,
      runnablePaths_of_plain plain]
    exact List.map_congr_left fun candidate isCandidate =>
      pathNames_candidate plain nonempty noDot isCandidate
  unfold resolveRunnableFile PathRegistry.resolveRunnableFile
  rw [mapped, List.find?_map, List.find?_map, Option.map_map]
  rfl

theorem nestedSkillPath_of_plain (skillPath : Path) {segments : List Text}
    (plain : ∀ segment ∈ segments, IsPlainSegment segment) :
    nestedSkillPath skillPath segments =
      PathRegistry.nestedSkillPath skillPath segments := by
  unfold nestedSkillPath PathRegistry.nestedSkillPath
  congr 1
  refine List.flatMap_congr fun segment isIn => ?_
  have isPlain := plain segment isIn
  rw [pathNames_of_plain isPlain.noSlash isPlain.nonempty]
  rintro rfl
  exact isPlain.noDot List.mem_cons_self

theorem providerLayers_of_plain
    (paths : PathRegistry Content) (layers : List Path)
    (plain : ∀ segment ∈ nested, IsPlainSegment segment) :
    providerLayers paths layers nested =
      paths.providerLayers layers nested := by
  unfold providerLayers PathRegistry.providerLayers
  simp only [nestedSkillPath_of_plain _ plain]

theorem envLayers_of_plain
    (paths : PathRegistry Content) (frontier : List Path)
    (plain : ∀ segment ∈ nested, IsPlainSegment segment) :
    envLayers paths frontier nested = paths.envLayers frontier nested := by
  induction nested generalizing frontier with
  | nil => rfl
  | cons segment rest ih =>
    obtain ⟨first, later⟩ := List.forall_mem_cons.mp plain
    have single : ∀ part ∈ [segment], IsPlainSegment part :=
      fun part isIn => List.mem_singleton.mp isIn ▸ first
    unfold envLayers PathRegistry.envLayers
    simp only [nestedSkillPath_of_plain _ single]
    rw [ih _ later]

theorem findCommand_of_plain
    (paths : PathRegistry Content) (executable : Content → Bool)
    (layers : List Path) (plain : ∀ segment ∈ nested, IsPlainSegment segment)
    {fileName : Text} (noSlash : '/' ∉ fileName)
    (nonempty : fileName ≠ []) (noDot : fileName ≠ ['.'])
    (commandName : Text) :
    findCommand paths executable layers nested fileName commandName =
      paths.findCommand executable layers nested fileName commandName := by
  unfold findCommand PathRegistry.findCommand
  simp only [providerLayers_of_plain paths layers plain,
    envLayers_of_plain paths layers plain,
    resolveRunnableFile_of_plain paths executable _ noSlash nonempty noDot]

theorem joined_of_plain {segments : List Text} (some_ : segments ≠ [])
    (plain : ∀ segment ∈ segments, IsPlainSegment segment) :
    '/' ∉ ['.'].intercalate segments ∧ ['.'].intercalate segments ≠ [] ∧
      ['.'].intercalate segments ≠ ['.'] := by
  obtain ⟨first, rest, rfl⟩ := List.exists_cons_of_ne_nil some_
  have isPlain := plain first List.mem_cons_self
  obtain ⟨char, others, rfl⟩ :=
    List.exists_cons_of_ne_nil isPlain.nonempty
  have starts :
      ∃ later, ['.'].intercalate ((char :: others) :: rest) =
        char :: later := by
    cases rest with
    | nil => exact ⟨others, List.intercalate_singleton⟩
    | cons second more =>
      exact ⟨_, Joined.intercalate_cons_cons (char :: others) second more⟩
  obtain ⟨later, same⟩ := starts
  refine ⟨?_, ?_, ?_⟩
  · rw [Joined.mem_intercalate_iff]
    rintro (⟨part, isPart, isIn⟩ | ⟨slash, -⟩)
    · exact (plain part isPart).noSlash isIn
    · simp at slash
  · rw [same]
    exact List.cons_ne_nil _ _
  · rw [same]
    intro dot
    refine isPlain.noDot ?_
    rw [(List.cons.inj dot).1]
    exact List.mem_cons_self

end AnyCommand

end PathRegistry

open Library.FirstFound

/-!
# The resolution of commands

An explicit command is taken from the cut with the fewest nested skills and
from the deepest layer that has it.  When there is none at any cut, it is the
initializer of the longest way into nested skills.  Splitting on dots leaves
no parent directory in what is looked for.
-/

variable {Content : Type}

/-- The candidate that cuts a command, or takes all of it for a skill. -/
def cutSpec (segments : List Text) (count : Nat) : Option CommandRootSpec :=
  if count < segments.length then splitSpec segments count
  else terminalSpec segments

/-- The candidates are those of the cuts, in order. -/
theorem commandRootSpecs_eq {segments : List Text} (some_ : segments ≠ []) :
    commandRootSpecs segments =
      (List.range (segments.length + 1)).filterMap (cutSpec segments) := by
  have positive : 0 < segments.length := List.length_pos_of_ne_nil some_
  have counts :
      List.range segments.length =
        0 :: List.range' 1 (segments.length - 1) := by
    obtain ⟨count, same⟩ := Nat.exists_eq_succ_of_ne_zero positive.ne'
    rw [same, List.range_eq_range', List.range'_succ]
    rfl
  have early :
      (List.range segments.length).filterMap (cutSpec segments) =
        (List.range segments.length).filterMap (splitSpec segments) :=
    List.filterMap_congr fun count isIn =>
      if_pos (List.mem_range.mp isIn)
  have root :
      splitSpec segments 0 =
        some
          { nestedSegments := []
            commandName := ['.'].intercalate segments
            initOnly := false } :=
    rfl
  have terminal :
      [segments.length].filterMap (cutSpec segments) =
        (terminalSpec segments).toList := by
    have last : cutSpec segments segments.length = terminalSpec segments :=
      if_neg (Nat.lt_irrefl _)
    rw [List.filterMap_cons, last]
    cases terminalSpec segments <;> rfl
  rw [List.range_succ, List.filterMap_append, early, terminal, counts,
    List.filterMap_cons, root]
  exact if_neg some_

/-- A cut of a command: the segments before it may name nested skills. -/
structure IsCut (segments : List Text) (count : Nat) : Prop where
  nonempty : segments ≠ []
  within : count ≤ segments.length
  valid : areValidSegments (segments.take count) = true

def explicitName (segments : List Text) (count : Nat) : Text :=
  ['.'].intercalate (segments.drop count)

theorem cutSpec_eq_some_iff
    {segments : List Text} {count : Nat} {spec : CommandRootSpec}
    (nonempty : segments ≠ []) (within : count ≤ segments.length) :
    cutSpec segments count = some spec ↔
      IsCut segments count ∧
        spec =
          { nestedSegments := segments.take count
            commandName :=
              if count < segments.length then explicitName segments count
              else "__init__".toList
            initOnly := decide (count = segments.length) } := by
  have cut :
      IsCut segments count ↔
        areValidSegments (segments.take count) = true :=
    ⟨IsCut.valid, fun valid => ⟨nonempty, within, valid⟩⟩
  rw [cut]
  unfold cutSpec
  by_cases small : count < segments.length
  · rw [if_pos small, if_pos small, decide_eq_false (Nat.ne_of_lt small)]
    unfold splitSpec
    cases areValidSegments (segments.take count) with
    | false => simp
    | true => simp [explicitName, eq_comm]
  · have whole : count = segments.length := by omega
    rw [if_neg small, if_neg small, decide_eq_true whole, whole,
      List.take_length]
    unfold terminalSpec
    cases areValidSegments segments with
    | false => simp
    | true => simp [eq_comm]

variable {spec : CommandSpec}

namespace PathRegistry

namespace AnyCommand

variable (paths : PathRegistry Content) (executable : Content → Bool)

/-- A runnable file of a name among the commands of a provider. -/
def fileIn (fileName : Text) (provider : Path) : Option Path :=
  resolveRunnableFile paths executable (cliRoot provider) fileName

/-- What is found for a candidate: the file of the deepest provider. -/
structure IsDeepest
    (layers : List Path) (nested : List Text) (fileName : Text)
    (spec : CommandSpec) : Prop where
  providers : spec.skillLayers = providerLayers paths layers nested
  environment : spec.envSkillLayers = envLayers paths layers nested
  deepest :
    IsLastOf spec.skillLayers (fileIn paths executable fileName)
      spec.skillPath spec.cmdPath

theorem findCommand_eq_some_iff
    {layers : List Path} {nested : List Text} {fileName commandName : Text} :
    findCommand paths executable layers nested fileName commandName =
        some spec ↔
      IsDeepest paths executable layers nested fileName spec ∧
        spec.commandName = commandName := by
  unfold findCommand
  dsimp only
  rw [findSome?_reverse_eq_some_iff]
  constructor
  · rintro ⟨provider, before, after, whole, found, none⟩
    obtain ⟨cmdPath, resolved, rfl⟩ := Option.map_eq_some_iff.mp found
    refine ⟨⟨rfl, rfl, before, after, whole, resolved, ?_⟩, rfl⟩
    exact fun other isIn => Option.map_eq_none_iff.mp (none other isIn)
  · rintro ⟨⟨providers, environment, before, after, whole, resolved, none⟩,
      rfl⟩
    refine ⟨spec.skillPath, before, after, providers ▸ whole, ?_, ?_⟩
    · refine Option.map_eq_some_iff.mpr ⟨spec.cmdPath, resolved, ?_⟩
      rw [← providers, ← environment]
    · exact fun other isIn => Option.map_eq_none_iff.mpr (none other isIn)

theorem findCommand_eq_none_iff
    {layers : List Path} {nested : List Text} {fileName commandName : Text} :
    findCommand paths executable layers nested fileName commandName = none ↔
      ∀ provider ∈ providerLayers paths layers nested,
        fileIn paths executable fileName provider = none := by
  unfold findCommand
  dsimp only
  rw [List.findSome?_eq_none_iff]
  simp only [List.mem_reverse, Option.map_eq_none_iff, fileIn]

def HasFile (layers : List Path) (segments : List Text) (count : Nat)
    (fileName : Text) : Prop :=
  IsCut segments count ∧
    ∃ provider ∈ providerLayers paths layers (segments.take count),
      ∃ file, fileIn paths executable fileName provider = some file

def HasExplicit
    (layers : List Path) (segments : List Text) (count : Nat) : Prop :=
  count < segments.length ∧
    HasFile paths executable layers segments count
      (explicitName segments count)

def HasInitializer
    (layers : List Path) (segments : List Text) (count : Nat) : Prop :=
  HasFile paths executable layers segments count "__init__".toList

def explicitAt (layers : List Path) (segments : List Text) (count : Nat) :
    Option CommandSpec :=
  (cutSpec segments count).bind fun spec =>
    if !spec.initOnly then findExplicit paths executable layers spec
    else none

def initializerAt (layers : List Path) (segments : List Text) (count : Nat) :
    Option CommandSpec :=
  (cutSpec segments count).bind
    (findInitializer paths executable layers)

theorem commandSpecIn_eq
    (layers : List Path) {segments : List Text} (some_ : segments ≠ []) :
    commandSpecIn paths executable layers segments =
      ((List.range (segments.length + 1)).findSome?
          (explicitAt paths executable layers segments)).or
        ((List.range (segments.length + 1)).reverse.findSome?
          (initializerAt paths executable layers segments)) := by
  unfold commandSpecIn
  dsimp only
  rw [commandRootSpecs_eq some_]
  congr 1
  · rw [← List.head?_filterMap, List.filterMap_filter,
      List.filterMap_filterMap, List.head?_filterMap]
    rfl
  · rw [← List.filterMap_reverse, ← List.head?_filterMap,
      List.filterMap_filterMap, List.head?_filterMap]
    rfl

variable {paths : PathRegistry Content} {executable : Content → Bool}
variable {layers : List Path} {segments : List Text} {count : Nat}

theorem IsDeepest.hasFile {fileName : Text}
    (found :
      IsDeepest paths executable layers (segments.take count) fileName spec)
    (isCut : IsCut segments count) :
    HasFile paths executable layers segments count fileName := by
  have isProvider := found.deepest.mem
  obtain ⟨-, -, -, resolved, -⟩ := found.deepest
  rw [found.providers] at isProvider
  exact ⟨isCut, spec.skillPath, isProvider, spec.cmdPath, resolved⟩

section

variable (nonempty : segments ≠ [])

include nonempty

section

variable (within : count ≤ segments.length)

include within

theorem explicitAt_eq_some_iff :
    explicitAt paths executable layers segments count = some spec ↔
      count < segments.length ∧ IsCut segments count ∧
        IsDeepest paths executable layers (segments.take count)
          (explicitName segments count) spec ∧
        spec.commandName = explicitName segments count := by
  unfold explicitAt
  rw [Option.bind_eq_some_iff]
  simp only [cutSpec_eq_some_iff nonempty within]
  constructor
  · rintro ⟨candidate, ⟨isCut, rfl⟩, found⟩
    by_cases small : count < segments.length
    · rw [decide_eq_false (Nat.ne_of_lt small)] at found
      simp only [Bool.not_false, if_true, findExplicit, if_pos small]
        at found
      exact ⟨small, isCut, (findCommand_eq_some_iff _ _).mp found⟩
    · have whole : count = segments.length := by omega
      rw [decide_eq_true whole] at found
      simp at found
  · rintro ⟨small, isCut, found⟩
    refine ⟨_, ⟨isCut, rfl⟩, ?_⟩
    rw [decide_eq_false (Nat.ne_of_lt small)]
    simp only [Bool.not_false, if_true, findExplicit, if_pos small]
    exact (findCommand_eq_some_iff _ _).mpr found

theorem explicitAt_eq_none_iff :
    explicitAt paths executable layers segments count = none ↔
      ¬HasExplicit paths executable layers segments count := by
  constructor
  · rintro nothing ⟨small, isCut, provider, isProvider, file, found⟩
    have candidate :=
      (cutSpec_eq_some_iff nonempty within).mpr ⟨isCut, rfl⟩
    rw [explicitAt, candidate, Option.bind_some,
      decide_eq_false (Nat.ne_of_lt small)] at nothing
    simp only [Bool.not_false, if_true, findExplicit, if_pos small]
      at nothing
    rw [(findCommand_eq_none_iff _ _).mp nothing provider isProvider]
      at found
    contradiction
  · intro absent
    cases found : explicitAt paths executable layers segments count with
    | none => rfl
    | some spec =>
      obtain ⟨small, isCut, deepest, -⟩ :=
        (explicitAt_eq_some_iff nonempty within).mp found
      exact absurd ⟨small, deepest.hasFile isCut⟩ absent

def initializerName (segments : List Text) (count : Nat) : Text :=
  if count < segments.length then explicitName segments count
  else "__init__".toList

theorem initializerAt_eq_some_iff :
    initializerAt paths executable layers segments count = some spec ↔
      IsCut segments count ∧
        IsDeepest paths executable layers (segments.take count)
          "__init__".toList spec ∧
        spec.commandName = initializerName segments count := by
  have name :
      (if decide (count = segments.length) = true then "__init__".toList
        else if count < segments.length then explicitName segments count
          else "__init__".toList) = initializerName segments count := by
    unfold initializerName
    by_cases small : count < segments.length
    · rw [decide_eq_false (Nat.ne_of_lt small)]
      rfl
    · have whole : count = segments.length := by omega
      rw [decide_eq_true whole, if_neg small]
      rfl
  unfold initializerAt
  rw [Option.bind_eq_some_iff]
  simp only [cutSpec_eq_some_iff nonempty within]
  constructor
  · rintro ⟨candidate, ⟨isCut, rfl⟩, found⟩
    have both := (findCommand_eq_some_iff _ _).mp found
    exact ⟨isCut, both.1, both.2.trans name⟩
  · rintro ⟨isCut, deepest, named⟩
    refine ⟨_, ⟨isCut, rfl⟩, ?_⟩
    exact (findCommand_eq_some_iff _ _).mpr ⟨deepest, named.trans name.symm⟩

theorem initializerAt_eq_none_iff :
    initializerAt paths executable layers segments count = none ↔
      ¬HasInitializer paths executable layers segments count := by
  constructor
  · rintro nothing ⟨isCut, provider, isProvider, file, found⟩
    have candidate :=
      (cutSpec_eq_some_iff nonempty within).mpr ⟨isCut, rfl⟩
    rw [initializerAt, candidate, Option.bind_some] at nothing
    rw [(findCommand_eq_none_iff _ _).mp nothing provider isProvider]
      at found
    contradiction
  · intro absent
    cases found : initializerAt paths executable layers segments count with
    | none => rfl
    | some spec =>
      obtain ⟨isCut, deepest, -⟩ :=
        (initializerAt_eq_some_iff nonempty within).mp found
      exact absurd (deepest.hasFile isCut) absent

end

/-- The command with the fewest nested segments, from the deepest layer. -/
structure ResolvesExplicit
    (paths : PathRegistry Content) (executable : Content → Bool)
    (layers : List Path) (segments : List Text)
    (spec : CommandSpec) (count : Nat) : Prop where
  cut : count < segments.length ∧ IsCut segments count
  fewest :
    ∀ smaller < count,
      ¬HasExplicit paths executable layers segments smaller
  name : spec.commandName = explicitName segments count
  file :
    IsDeepest paths executable layers (segments.take count)
      (explicitName segments count) spec

/-- The initializer of the longest way into nested skills. -/
structure ResolvesInitializer
    (paths : PathRegistry Content) (executable : Content → Bool)
    (layers : List Path) (segments : List Text)
    (spec : CommandSpec) (count : Nat) : Prop where
  cut : IsCut segments count
  unexplicit :
    ∀ other, ¬HasExplicit paths executable layers segments other
  longest :
    ∀ longer, count < longer →
      ¬HasInitializer paths executable layers segments longer
  name : spec.commandName = initializerName segments count
  file :
    IsDeepest paths executable layers (segments.take count)
      "__init__".toList spec

theorem findSome?_explicitAt_eq_none_iff :
    (List.range (segments.length + 1)).findSome?
        (explicitAt paths executable layers segments) = none ↔
      ∀ other, ¬HasExplicit paths executable layers segments other := by
  rw [List.findSome?_eq_none_iff]
  constructor
  · intro nothing other has
    refine (explicitAt_eq_none_iff nonempty (Nat.le_of_lt has.1)).mp
      (nothing other (List.mem_range.mpr ?_)) has
    exact Nat.lt_succ_of_lt has.1
  · intro none other isIn
    exact (explicitAt_eq_none_iff nonempty
      (Nat.le_of_lt_succ (List.mem_range.mp isIn))).mpr (none other)

theorem commandSpecIn_eq_some_iff :
    commandSpecIn paths executable layers segments = some spec ↔
      (∃ count,
        ResolvesExplicit paths executable layers segments spec count) ∨
      ∃ count,
        ResolvesInitializer paths executable layers segments spec count := by
  rw [commandSpecIn_eq paths executable layers nonempty,
    Option.or_eq_some_iff, findSome?_range_eq_some_iff,
    findSome?_reverse_range_eq_some_iff,
    findSome?_explicitAt_eq_none_iff nonempty]
  refine or_congr (exists_congr fun count => ?_) ?_
  · constructor
    · rintro ⟨small, found, none⟩
      have within : count ≤ segments.length := Nat.le_of_lt_succ small
      obtain ⟨cut, isCut, deepest, name⟩ :=
        (explicitAt_eq_some_iff nonempty within).mp found
      refine ⟨⟨cut, isCut⟩, fun smaller less => ?_, name, deepest⟩
      exact (explicitAt_eq_none_iff nonempty
        (by omega)).mp (none smaller less)
    · rintro ⟨⟨cut, isCut⟩, fewest, name, deepest⟩
      refine ⟨Nat.lt_succ_of_lt cut,
        (explicitAt_eq_some_iff nonempty isCut.within).mpr
          ⟨cut, isCut, deepest, name⟩, fun smaller less => ?_⟩
      exact (explicitAt_eq_none_iff nonempty
        (by omega)).mpr (fewest smaller less)
  · constructor
    · rintro ⟨unexplicit, count, small, found, none⟩
      have within : count ≤ segments.length := Nat.le_of_lt_succ small
      obtain ⟨isCut, deepest, name⟩ :=
        (initializerAt_eq_some_iff nonempty within).mp found
      refine ⟨count, isCut, unexplicit, fun longer more has => ?_, name,
        deepest⟩
      have bound := has.1.within
      exact (initializerAt_eq_none_iff nonempty bound).mp
        (none longer more (Nat.lt_succ_of_le bound)) has
    · rintro ⟨count, isCut, unexplicit, longest, name, deepest⟩
      refine ⟨unexplicit, count, Nat.lt_succ_of_le isCut.within,
        (initializerAt_eq_some_iff nonempty isCut.within).mpr
          ⟨isCut, deepest, name⟩, fun longer more few => ?_⟩
      exact (initializerAt_eq_none_iff nonempty
        (Nat.le_of_lt_succ few)).mpr (longest longer more)

theorem commandSpecIn_eq_none_iff :
    commandSpecIn paths executable layers segments = none ↔
      (∀ count, ¬HasExplicit paths executable layers segments count) ∧
        ∀ count, ¬HasInitializer paths executable layers segments count := by
  rw [commandSpecIn_eq paths executable layers nonempty,
    Option.or_eq_none_iff, findSome?_explicitAt_eq_none_iff nonempty,
    List.findSome?_eq_none_iff]
  refine and_congr_right fun _ => ?_
  constructor
  · intro none count has
    have bound := has.1.within
    exact (initializerAt_eq_none_iff nonempty bound).mp
      (none count (List.mem_reverse.mpr
        (List.mem_range.mpr (Nat.lt_succ_of_le bound)))) has
  · intro none count isIn
    have small := List.mem_range.mp (List.mem_reverse.mp isIn)
    exact (initializerAt_eq_none_iff nonempty
      (Nat.le_of_lt_succ small)).mpr (none count)

end

theorem names_of_mem (plain : ∀ segment ∈ segments, IsPlainSegment segment)
    {spec : CommandRootSpec} (member : spec ∈ commandRootSpecs segments) :
    (∀ segment ∈ spec.nestedSegments, IsPlainSegment segment) ∧
      '/' ∉ spec.commandName ∧ spec.commandName ≠ [] ∧
        spec.commandName ≠ ['.'] := by
  have nonempty : segments ≠ [] := by
    rintro rfl
    exact absurd member List.not_mem_nil
  rw [commandRootSpecs_eq nonempty] at member
  obtain ⟨count, isIn, found⟩ := List.mem_filterMap.mp member
  have within := Nat.le_of_lt_succ (List.mem_range.mp isIn)
  obtain ⟨-, rfl⟩ := (cutSpec_eq_some_iff nonempty within).mp found
  refine ⟨fun segment isSegment =>
    plain segment (List.take_subset _ _ isSegment), ?_⟩
  dsimp only
  split
  · next small =>
      refine joined_of_plain ?_ fun segment isSegment =>
        plain segment (List.drop_subset _ _ isSegment)
      exact List.ne_nil_of_length_pos (by rw [List.length_drop]; omega)
  · exact ⟨by decide, by decide, by decide⟩

/-- A command without slashes is resolved as one of single names. -/
theorem commandSpec_of_plain
    (paths : PathRegistry Content) (executable : Content → Bool)
    (skillName : Text) (command : DottedCommand) :
    commandSpec paths executable skillName command.text =
      paths.commandSpec executable skillName command.text := by
  have plain :
      ∀ segment ∈ commandSegments command.text, IsPlainSegment segment :=
    fun segment isIn => isPlainSegment_of_mem command.plain isIn
  have explicit :
      ∀ layers, ∀ spec ∈ commandRootSpecs (commandSegments command.text),
        findExplicit paths executable layers spec =
          paths.findExplicit executable layers spec := by
    intro layers spec member
    obtain ⟨nested, noSlash, nonempty, noDot⟩ := names_of_mem plain member
    exact findCommand_of_plain paths executable layers nested noSlash
      nonempty noDot _
  have initializer :
      ∀ layers, ∀ spec ∈ commandRootSpecs (commandSegments command.text),
        findInitializer paths executable layers spec =
          paths.findInitializer executable layers spec := by
    intro layers spec member
    exact findCommand_of_plain paths executable layers
      (names_of_mem plain member).1 (by decide) (by decide) (by decide) _
  unfold commandSpec PathRegistry.commandSpec
  split
  · rfl
  · unfold commandSpecIn PathRegistry.commandSpecIn
    dsimp only
    congr 1
    · exact findSome?_congr_left fun spec member =>
        explicit _ spec (List.mem_of_mem_filter member)
    · exact findSome?_congr_left fun spec member =>
        initializer _ spec (List.mem_reverse.mp member)

end AnyCommand

end PathRegistry

end DeveloperDashboard.Skills
