import DeveloperDashboard.Skills.CommandNames
import DeveloperDashboard.Skills.SkillLayers

namespace DeveloperDashboard.Skills

open Library Perl

/-!
# Markers on the way to commands

The layers of a nested skill leave out what is disabled at any level.  The
directories where a candidate of a command is looked for are only asked
whether they are there.
-/

variable {Content : Type} {paths : PathRegistry Content}

variable {dir : Path} {nested : List Text} {layers : List Path}

namespace PathRegistry

inductive EnabledSkill (paths : PathRegistry Content) : Path → Prop where
  | root {skillsRoot : Path} {name : Text} :
      skillsRoot ∈ paths.skillsRoots →
      paths.isDisabled (skillsRoot ++ [name]) = false →
      EnabledSkill paths (skillsRoot ++ [name])
  | nested {dir : Path} {name : Text} :
      EnabledSkill paths dir →
      paths.isDisabled (nestedRoot dir ++ [name]) = false →
      EnabledSkill paths (nestedRoot dir ++ [name])

/-- Whether no skill on the way down from a directory is disabled. -/
def isUnmarked (paths : PathRegistry Content) : Path → List Text → Bool
  | _, [] => true
  | dir, segment :: rest =>
    !paths.isDisabled (nestedRoot dir ++ [segment]) &&
      paths.isUnmarked (nestedRoot dir ++ [segment]) rest

/-- Whether the way leads over folders, too. -/
def isOpen (paths : PathRegistry Content) : Path → List Text → Bool
  | _, [] => true
  | dir, segment :: rest =>
    paths.tree.isFolder (nestedRoot dir ++ [segment]) &&
      !paths.isDisabled (nestedRoot dir ++ [segment]) &&
      paths.isOpen (nestedRoot dir ++ [segment]) rest

theorem nestedSkillPath_cons (dir : Path) (segment : Text) (rest : List Text) :
    nestedSkillPath dir (segment :: rest) =
      nestedSkillPath (nestedRoot dir ++ [segment]) rest := by
  simp [nestedSkillPath, nestedRoot]

theorem nestedSkillPath_injective (nested : List Text) :
    Function.Injective fun dir => nestedSkillPath dir nested :=
  fun _ _ same => List.append_cancel_right same

theorem foldl_nestedLayers (layers : List Path) (nested : List Text) :
    nested.foldl paths.nestedLayers layers =
      (layers.filter fun layer => paths.isOpen layer nested).map
        fun layer => nestedSkillPath layer nested := by
  induction nested generalizing layers with
  | nil => simp [isOpen, nestedSkillPath]
  | cons segment rest ih =>
    rw [List.foldl_cons, ih, nestedLayers,
      List.filter_map, List.filter_map, List.filter_filter, List.map_map]
    simp only [nestedSkillPath_cons, isOpen]
    refine congrArg (List.map _) (List.filter_congr fun layer _ => ?_)
    exact Bool.and_comm _ _

theorem isOpen_eq_isUnmarked
    (isFolder : paths.tree.isFolder (nestedSkillPath dir nested) = true) :
    paths.isOpen dir nested = paths.isUnmarked dir nested := by
  induction nested generalizing dir with
  | nil => rfl
  | cons segment rest ih =>
    rw [nestedSkillPath_cons] at isFolder
    have here :
        paths.tree.isFolder (nestedRoot dir ++ [segment]) = true :=
      FileTree.isFolder_of_append isFolder
    rw [isOpen, isUnmarked, here, ih isFolder, Bool.true_and]

theorem isFolder_of_isOpen
    (isOpen : paths.isOpen dir nested = true) (some_ : nested ≠ []) :
    paths.tree.isFolder (nestedSkillPath dir nested) = true := by
  induction nested generalizing dir with
  | nil => contradiction
  | cons segment rest ih =>
    obtain ⟨here, later⟩ := Bool.and_eq_true_iff.mp isOpen
    rw [nestedSkillPath_cons]
    cases rest with
    | nil =>
      rw [nestedSkillPath, List.flatMap_nil, List.append_nil]
      exact (Bool.and_eq_true_iff.mp here).1
    | cons second others =>
      exact ih later (List.cons_ne_nil _ _)

/-- No marker is on a way that leads from a layer to a folder. -/
def Unmarked (paths : PathRegistry Content) (layers : List Path)
    (nested : List Text) :
    Prop :=
  ∀ layer ∈ layers,
    paths.tree.isFolder (nestedSkillPath layer nested) = true →
      paths.isUnmarked layer nested = true

theorem providerLayers_eq (layers : List Path) (nested : List Text) :
    paths.providerLayers layers nested =
      (layers.filter fun layer =>
          nested.isEmpty ||
            paths.tree.isFolder (nestedSkillPath layer nested)).map
        fun layer => nestedSkillPath layer nested :=
  List.filter_map

theorem providerLayers_eq_iff (layers : List Path) (nested : List Text) :
    paths.providerLayers layers nested =
        nested.foldl paths.nestedLayers layers ↔
      paths.Unmarked layers nested := by
  rw [providerLayers_eq, foldl_nestedLayers,
    (List.map_injective_iff.mpr (nestedSkillPath_injective nested)).eq_iff]
  cases nested with
  | nil => simp [Unmarked, isOpen, isUnmarked]
  | cons segment rest =>
    constructor
    · intro same layer member isFolder
      rw [← isOpen_eq_isUnmarked isFolder]
      have kept :
          layer ∈
            layers.filter fun layer =>
              paths.isOpen layer (segment :: rest) := by
        rw [← same]
        exact List.mem_filter.mpr ⟨member, isFolder⟩
      exact (List.mem_filter.mp kept).2
    · intro unmarked
      refine List.filter_congr fun layer member => ?_
      change paths.tree.isFolder _ = _
      rw [Bool.eq_iff_iff]
      constructor
      · intro isFolder
        rw [isOpen_eq_isUnmarked isFolder]
        exact unmarked layer member isFolder
      · exact fun open_ => isFolder_of_isOpen open_ (List.cons_ne_nil _ _)

theorem EnabledSkill.descend (enabled : EnabledSkill paths dir)
    (unmarked : paths.isUnmarked dir nested = true) :
    EnabledSkill paths (nestedSkillPath dir nested) := by
  induction nested generalizing dir with
  | nil =>
    rw [nestedSkillPath, List.flatMap_nil, List.append_nil]
    exact enabled
  | cons segment rest ih =>
    obtain ⟨here, later⟩ := Bool.and_eq_true_iff.mp unmarked
    rw [nestedSkillPath_cons]
    exact ih
      (.nested enabled (Bool.not_eq_true' _ |>.mp here)) later

theorem isUnmarked_of_isOpen (isOpen : paths.isOpen dir nested = true) :
    paths.isUnmarked dir nested = true := by
  induction nested generalizing dir with
  | nil => rfl
  | cons segment rest ih =>
    obtain ⟨here, later⟩ := Bool.and_eq_true_iff.mp isOpen
    exact Bool.and_eq_true_iff.mpr
      ⟨(Bool.and_eq_true_iff.mp here).2, ih later⟩

theorem enabledSkill_of_mem_skillLayers {name : Text} {layer : Path}
    (member : layer ∈ paths.skillLayers false name) :
    EnabledSkill paths layer := by
  unfold skillLayers at member
  split at member
  · contradiction
  · obtain ⟨skillsRoot, isRoot, rfl⟩ :=
      List.mem_map.mp (mem_of_mem_layersOf member)
    refine .root isRoot ?_
    rw [layersOf, List.mem_reverse] at member
    cases found :
        paths.collectLayers false false
          (paths.skillsRoots.map fun root => root ++ [name]) with
    | none =>
      rw [found] at member
      contradiction
    | some layers =>
      rw [found] at member
      exact isDisabled_of_mem_collectLayers found member

theorem enabledSkill_of_mem_layers {skillName : Text} {layer : Path}
    (member : layer ∈ paths.dispatcherSkillLayers skillName) :
    EnabledSkill paths layer := by
  unfold dispatcherSkillLayers at member
  split at member
  · contradiction
  · split at member
    · contradiction
    · next rootSkill nested _ =>
        rw [foldl_nestedLayers] at member
        obtain ⟨top, isTop, rfl⟩ := List.mem_map.mp member
        obtain ⟨isLayer, isOpen⟩ := List.mem_filter.mp isTop
        exact (enabledSkill_of_mem_skillLayers isLayer).descend
          (isUnmarked_of_isOpen isOpen)

theorem enabledSkill_of_mem_providerLayers {provider : Path}
    (enabled : ∀ layer ∈ layers, EnabledSkill paths layer)
    (unmarked : paths.Unmarked layers nested)
    (member : provider ∈ paths.providerLayers layers nested) :
    EnabledSkill paths provider := by
  rw [(providerLayers_eq_iff layers nested).mpr unmarked,
    foldl_nestedLayers] at member
  obtain ⟨layer, isLayer, rfl⟩ := List.mem_map.mp member
  obtain ⟨isTop, isOpen⟩ := List.mem_filter.mp isLayer
  exact (enabled layer isTop).descend (isUnmarked_of_isOpen isOpen)

structure IsSkillName (skillName : Text) : Prop where
  given : isTrue skillName = true
  valid : validatedPathSegments skillName ≠ []

theorem dispatcherSkillLayers_qualified {skillName : Text}
    (named : IsSkillName skillName)
    (plain : ∀ segment ∈ nested, IsPlainSegment segment)
    (clean : nested.all isClean = true) :
    paths.dispatcherSkillLayers (qualifiedSkillName skillName nested) =
      nested.foldl paths.nestedLayers
        (paths.dispatcherSkillLayers skillName) := by
  have segments := validatedPathSegments_qualified named.valid plain clean
  obtain ⟨rootSkill, inner, split⟩ := List.exists_cons_of_ne_nil named.valid
  unfold dispatcherSkillLayers
  rw [isTrue_qualifiedSkillName named.given, named.given, segments, split,
    List.cons_append]
  exact List.foldl_append

variable {executable : Content → Bool}

theorem prefix_of_resolveRunnableFile {cmdPath : Path} {name : Text}
    (found :
      paths.resolveRunnableFile executable dir name = some cmdPath) :
    dir <+: cmdPath := by
  obtain ⟨candidate, -, rfl⟩ :=
    List.mem_map.mp (List.mem_of_find?_eq_some found)
  exact List.prefix_append dir _

theorem of_findCommand {fileName commandName : Text} {spec : CommandSpec}
    (found :
      paths.findCommand executable layers nested fileName commandName =
        some spec) :
    spec.skillLayers = paths.providerLayers layers nested ∧
      spec.skillPath ∈ spec.skillLayers ∧
      cliRoot spec.skillPath <+: spec.cmdPath := by
  obtain ⟨provider, isProvider, taken⟩ := List.exists_of_findSome?_eq_some found
  obtain ⟨cmdPath, resolved, rfl⟩ := Option.map_eq_some_iff.mp taken
  exact ⟨rfl, List.mem_reverse.mp isProvider,
    prefix_of_resolveRunnableFile resolved⟩

theorem of_commandSpecIn {segments : List Text} {spec : CommandSpec}
    (found : paths.commandSpecIn executable layers segments = some spec) :
    ∃ candidate ∈ commandRootSpecs segments,
      spec.skillLayers =
          paths.providerLayers layers candidate.nestedSegments ∧
        spec.skillPath ∈ spec.skillLayers ∧
        cliRoot spec.skillPath <+: spec.cmdPath := by
  rcases Option.or_eq_some_iff.mp found with explicit | ⟨-, initializer⟩
  · obtain ⟨candidate, member, taken⟩ :=
      List.exists_of_findSome?_eq_some explicit
    exact ⟨candidate, (List.mem_filter.mp member).1, of_findCommand taken⟩
  · obtain ⟨candidate, member, taken⟩ :=
      List.exists_of_findSome?_eq_some initializer
    exact ⟨candidate, List.mem_reverse.mp member, of_findCommand taken⟩

end PathRegistry

end DeveloperDashboard.Skills
