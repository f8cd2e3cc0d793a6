import DeveloperDashboard.Skills.CommandResolution
import Mathlib.Data.List.Chain

namespace DeveloperDashboard.Skills

open Library Perl

/-!
# Resolved commands

Where the file of a command lies, whatever characters the command has, and
which hooks run before it.
-/

variable {Content : Type}

def parentName : Text :=
  ['.', '.']

def HasNoDoubleDot (text : Text) : Prop :=
  text.IsChain fun one other => ¬(one = '.' ∧ other = '.')

variable {text : Text}

theorem hasNoDoubleDot_of_noDot (noDot : '.' ∉ text) :
    HasNoDoubleDot text := by
  refine (List.pairwise_of_forall_mem_list ?_).isChain
  rintro one isOne other - ⟨rfl, -⟩
  exact noDot isOne

/-- Names that are joined with dots have no two dots side by side. -/
theorem hasNoDoubleDot_intercalate {segments : List Text}
    (plain : ∀ segment ∈ segments, segment ≠ [] ∧ '.' ∉ segment) :
    HasNoDoubleDot (['.'].intercalate segments) ∧
      (['.'].intercalate segments).head? ≠ some '.' := by
  induction segments with
  | nil => exact ⟨List.IsChain.nil, by simp⟩
  | cons first rest ih =>
    obtain ⟨⟨nonempty, noDot⟩, later⟩ := List.forall_mem_cons.mp plain
    have notFirst : first.head? ≠ some '.' :=
      fun isFirst => noDot (List.mem_of_mem_head? isFirst)
    cases rest with
    | nil =>
      rw [List.intercalate_singleton]
      exact ⟨hasNoDoubleDot_of_noDot noDot, notFirst⟩
    | cons second others =>
      obtain ⟨chain, head⟩ := ih later
      rw [Joined.intercalate_cons_cons]
      refine ⟨List.isChain_append.mpr
        ⟨hasNoDoubleDot_of_noDot noDot, ?_, ?_⟩, ?_⟩
      · refine List.isChain_cons.mpr ⟨?_, chain⟩
        rintro next isNext ⟨-, rfl⟩
        exact head isNext
      · rintro last isLast next - ⟨rfl, -⟩
        exact noDot (List.mem_of_getLast? isLast)
      · obtain ⟨char, more, rfl⟩ := List.exists_cons_of_ne_nil nonempty
        exact notFirst

theorem mem_splitOn_of_mem_pathNames {name : Text}
    (isName : name ∈ pathNames text) :
    name ∈ text.splitOn '/' :=
  List.mem_of_mem_filter isName

theorem parentName_not_mem (chain : HasNoDoubleDot text) :
    parentName ∉ pathNames text := by
  intro isName
  have dots :=
    chain.infix (Joined.infix_of_mem_splitOn (mem_splitOn_of_mem_pathNames isName))
  exact (List.isChain_pair.mp dots) ⟨rfl, rfl⟩

theorem pathNames_of_names {names : List Text}
    (plain : ∀ name ∈ names, '/' ∉ name ∧ name ≠ [] ∧ name ≠ ['.']) :
    pathNames (['/'].intercalate names) = names := by
  by_cases empty : names = []
  · rw [empty]
    rfl
  · unfold pathNames
    rw [List.splitOn_intercalate '/' (fun name isIn => (plain name isIn).1)
      empty]
    exact List.filter_eq_self.mpr fun name isIn =>
      decide_eq_true (plain name isIn).2

theorem pathNames_canonPath (name : Text) :
    pathNames (canonPath name) = pathNames name := by
  have plain :
      ∀ part ∈ pathNames name, '/' ∉ part ∧ part ≠ [] ∧ part ≠ ['.'] := by
    intro part isIn
    exact ⟨Joined.not_mem_of_mem_splitOn (mem_splitOn_of_mem_pathNames isIn),
      of_decide_eq_true (List.mem_filter.mp isIn).2⟩
  have joined := pathNames_of_names plain
  unfold canonPath
  split
  · rw [← joined]
    conv => lhs; rw [joined]
    unfold pathNames
    rw [List.singleton_append, List.splitOn_cons_eq_if_modifyHead,
      if_pos (beq_self_eq_true '/')]
    rfl
  · exact joined

theorem intercalate_concat_append (separator : Char)
    (front : List Text) (last suffix : Text) :
    [separator].intercalate (front ++ [last ++ suffix]) =
      [separator].intercalate (front ++ [last]) ++ suffix := by
  induction front with
  | nil =>
    rw [List.nil_append, List.nil_append, List.intercalate_singleton,
      List.intercalate_singleton]
  | cons first rest ih =>
    cases rest with
    | nil =>
      simp only [List.cons_append, List.nil_append,
        Joined.intercalate_cons_cons, List.intercalate_singleton,
        List.append_assoc]
    | cons second others =>
      simp only [List.cons_append] at ih ⊢
      rw [Joined.intercalate_cons_cons, Joined.intercalate_cons_cons,
        ih, List.append_assoc, List.cons_append]

theorem mem_splitOn_append {suffix part : Text} (plain : '/' ∉ suffix)
    (isPart : part ∈ (text ++ suffix).splitOn '/') :
    part ∈ text.splitOn '/' ∨ ∃ front, part = front ++ suffix := by
  have some_ := List.splitOn_ne_nil '/' text
  have joined : ['/'].intercalate (text.splitOn '/') = text :=
    List.intercalate_splitOn '/'
  have plainParts : ∀ part ∈ text.splitOn '/', '/' ∉ part :=
    fun part isIn => Joined.not_mem_of_mem_splitOn isIn
  rw [← List.dropLast_append_getLast some_] at joined plainParts ⊢
  generalize (text.splitOn '/').dropLast = front at *
  generalize (text.splitOn '/').getLast some_ = last at *
  have split : (text ++ suffix).splitOn '/' = front ++ [last ++ suffix] := by
    rw [← joined, ← intercalate_concat_append]
    refine List.splitOn_intercalate '/' ?_ (by simp)
    intro part isIn
    rcases List.mem_append.mp isIn with early | isLast
    · exact plainParts part (List.mem_append_left _ early)
    · rw [List.mem_singleton.mp isLast, List.mem_append, not_or]
      exact ⟨plainParts last (by simp), plain⟩
  rw [split, List.mem_append, List.mem_singleton] at isPart
  rcases isPart with early | rfl
  · exact Or.inl (List.mem_append_left _ early)
  · exact Or.inr ⟨last, rfl⟩

theorem parentName_not_mem_runnablePaths {name candidate : Text}
    (none : parentName ∉ pathNames name)
    (isCandidate : candidate ∈ runnablePaths (canonPath name)) :
    parentName ∉ pathNames candidate := by
  have canonical : parentName ∉ pathNames (canonPath name) := by
    rw [pathNames_canonPath]
    exact none
  unfold runnablePaths at isCandidate
  split at isCandidate
  · rw [List.mem_singleton.mp isCandidate]
    exact canonical
  · rcases List.mem_cons.mp isCandidate with rfl | suffixed
    · exact canonical
    · obtain ⟨suffix, isSuffix, rfl⟩ := List.mem_map.mp suffixed
      obtain ⟨plain, long⟩ := PathRegistry.AnyCommand.suffix_of_mem isSuffix
      intro isName
      rcases mem_splitOn_append plain
          (mem_splitOn_of_mem_pathNames isName) with here | ⟨front, same⟩
      · exact canonical (List.mem_filter.mpr ⟨here, by decide⟩)
      · have lengths := congrArg List.length same
        rw [List.length_append] at lengths
        have two : parentName.length = 2 := rfl
        omega

namespace PathRegistry

namespace AnyCommand

variable {paths : PathRegistry Content} {executable : Content → Bool}

theorem below_of_resolveRunnableFile {dir file : Path} {name : Text}
    (none : parentName ∉ pathNames name)
    (found : resolveRunnableFile paths executable dir name = some file) :
    ∃ rest, file = dir ++ rest ∧ rest ≠ [] ∧ parentName ∉ rest := by
  obtain ⟨names, isFound, rfl⟩ := Option.map_eq_some_iff.mp found
  obtain ⟨candidate, isCandidate, rfl⟩ :=
    List.mem_map.mp (List.mem_of_find?_eq_some isFound)
  have holds := List.find?_some isFound
  rw [Bool.and_eq_true, decide_eq_true_eq] at holds
  exact ⟨_, rfl, holds.1, parentName_not_mem_runnablePaths none isCandidate⟩

theorem segment_of_mem {command segment : Text}
    (isIn : segment ∈ commandSegments command) :
    segment ≠ [] ∧ '.' ∉ segment := by
  obtain ⟨isPart, nonempty⟩ := List.mem_filter.mp isIn
  exact ⟨of_decide_eq_true nonempty, Joined.not_mem_of_mem_splitOn isPart⟩

theorem below_of_nestedSkillPath (layer : Path) {nested : List Text}
    (plain : ∀ segment ∈ nested, '.' ∉ segment) :
    ∃ below,
      nestedSkillPath layer nested = layer ++ below ∧
        parentName ∉ below := by
  refine ⟨_, rfl, fun isIn => ?_⟩
  obtain ⟨segment, isSegment, isName⟩ := List.mem_flatMap.mp isIn
  rcases List.mem_cons.mp isName with same | isPart
  · exact absurd same (by decide)
  · have dot : '.' ∈ parentName := List.mem_cons_self
    exact plain segment isSegment
      ((Joined.infix_of_mem_splitOn (mem_splitOn_of_mem_pathNames isPart)).subset
        dot)

/--
The file of a command lies below the commands of a provider, and the provider
below a layer of the skill; no parent directory is on the way.
-/
def LiesInProvider (layers : List Path) (spec : CommandSpec) : Prop :=
  spec.skillPath ∈ spec.skillLayers ∧
    (∃ layer ∈ layers, ∃ below,
      spec.skillPath = layer ++ below ∧ parentName ∉ below) ∧
    ∃ rest,
      spec.cmdPath = cliRoot spec.skillPath ++ rest ∧ rest ≠ [] ∧
        parentName ∉ rest

theorem liesInProvider_of_isDeepest
    {layers : List Path} {command fileName : Text} {count : Nat}
    {spec : CommandSpec} (none : parentName ∉ pathNames fileName)
    (found :
      IsDeepest paths executable layers
        ((commandSegments command).take count) fileName spec) :
    LiesInProvider layers spec := by
  have isProvider := found.deepest.mem
  obtain ⟨-, -, -, resolved, -⟩ := found.deepest
  refine ⟨isProvider, ?_, below_of_resolveRunnableFile none resolved⟩
  rw [found.providers] at isProvider
  obtain ⟨layer, isLayer, same⟩ :=
    List.mem_map.mp (List.mem_of_mem_filter isProvider)
  obtain ⟨below, whole, noParent⟩ := below_of_nestedSkillPath layer
    fun segment isIn => (segment_of_mem (List.take_subset _ _ isIn)).2
  exact ⟨layer, isLayer, below, same.symm.trans whole, noParent⟩

theorem parentName_not_mem_explicitName (command : Text) (count : Nat) :
    parentName ∉
      pathNames (explicitName (commandSegments command) count) :=
  parentName_not_mem (hasNoDoubleDot_intercalate fun _ isIn =>
    segment_of_mem (List.drop_subset _ _ isIn)).1

structure Resolves
    (paths : PathRegistry Content) (executable : Content → Bool)
    (skillName command : Text) : Prop where
  explicit :
    let layers := paths.dispatcherSkillLayers skillName
    let segments := commandSegments command
    ∀ count, HasExplicit paths executable layers segments count →
      (∀ smaller < count,
        ¬HasExplicit paths executable layers segments smaller) →
      ∃ spec,
        commandSpec paths executable skillName command = some spec ∧
          ResolvesExplicit paths executable layers segments spec count
  initializer :
    let layers := paths.dispatcherSkillLayers skillName
    let segments := commandSegments command
    (∀ count, ¬HasExplicit paths executable layers segments count) →
      ∀ count, HasInitializer paths executable layers segments count →
        (∀ longer, count < longer →
          ¬HasInitializer paths executable layers segments longer) →
        ∃ spec,
          commandSpec paths executable skillName command = some spec ∧
            ResolvesInitializer paths executable layers segments spec count
  nothing :
    let layers := paths.dispatcherSkillLayers skillName
    let segments := commandSegments command
    commandSpec paths executable skillName command = none ↔
      (∀ count, ¬HasExplicit paths executable layers segments count) ∧
        ∀ count, ¬HasInitializer paths executable layers segments count
  contained :
    ∀ spec,
      commandSpec paths executable skillName command = some spec →
        LiesInProvider (paths.dispatcherSkillLayers skillName) spec
  hooks :
    ∀ spec,
      commandSpec paths executable skillName command = some spec →
        paths.isEnabled skillName = true →
          commandHookPaths paths executable skillName command =
            executeHooks paths executable skillName command

theorem getSkillPath_of_isEnabled {skillName : Text}
    (enabled : paths.isEnabled skillName = true) :
    (paths.getSkillPath skillName).isNone = false := by
  unfold isEnabled at enabled
  cases found : paths.getSkillPath skillName with
  | none =>
    rw [found] at enabled
    contradiction
  | some skillPath => rfl

/--
Every command of a skill is resolved to the explicit command with the fewest
nested segments, or else to the initializer of the longest way, in the deepest
layer; it lies in a provider, and its hooks are those that are listed.
-/
theorem commandSpec_resolves
    (paths : PathRegistry Content) (executable : Content → Bool)
    (skillName command : Text)
    (named : isTrue skillName = true) (given : isTrue command = true) :
    Resolves paths executable skillName command := by
  have unfolded :
      commandSpec paths executable skillName command =
        commandSpecIn paths executable
          (paths.dispatcherSkillLayers skillName)
          (commandSegments command) := by
    rw [commandSpec, named, given]
    rfl
  by_cases empty : commandSegments command = []
  · have nothing :
        commandSpec paths executable skillName command = none := by
      rw [unfolded, empty]
      rfl
    refine ⟨?_, ?_, ?_, ?_, ?_⟩
    · intro layers segments count has
      exact absurd empty has.2.1.nonempty
    · intro layers segments none count has
      exact absurd empty has.1.nonempty
    · intro layers segments
      exact ⟨fun _ => ⟨fun _ has => has.2.1.nonempty empty,
        fun _ has => has.1.nonempty empty⟩, fun _ => nothing⟩
    · intro spec found
      rw [nothing] at found
      contradiction
    · intro spec found
      rw [nothing] at found
      contradiction
  · refine ⟨?_, ?_, ?_, ?_, ?_⟩
    · intro layers segments count has least
      cases found : commandSpec paths executable skillName command with
      | none =>
        rw [unfolded] at found
        exact absurd has
          (((commandSpecIn_eq_none_iff empty).mp found).1 count)
      | some spec =>
        refine ⟨spec, rfl, ?_⟩
        rw [unfolded] at found
        rcases (commandSpecIn_eq_some_iff empty).mp found with
          ⟨other, resolves⟩ | ⟨other, resolves⟩
        · have here : HasExplicit paths executable layers segments other :=
            ⟨resolves.cut.1, resolves.file.hasFile resolves.cut.2⟩
          have same : other = count := by
            rcases Nat.lt_trichotomy other count with less | same | more
            · exact absurd here (least other less)
            · exact same
            · exact absurd has (resolves.fewest count more)
          exact same ▸ resolves
        · exact absurd has (resolves.unexplicit count)
    · intro layers segments none count has longest
      cases found : commandSpec paths executable skillName command with
      | none =>
        rw [unfolded] at found
        exact absurd has
          (((commandSpecIn_eq_none_iff empty).mp found).2 count)
      | some spec =>
        refine ⟨spec, rfl, ?_⟩
        rw [unfolded] at found
        rcases (commandSpecIn_eq_some_iff empty).mp found with
          ⟨other, resolves⟩ | ⟨other, resolves⟩
        · exact absurd
            ⟨resolves.cut.1, resolves.file.hasFile resolves.cut.2⟩
            (none other)
        · have here :
              HasInitializer paths executable layers segments other :=
            resolves.file.hasFile resolves.cut
          have same : other = count := by
            rcases Nat.lt_trichotomy other count with less | same | more
            · exact absurd has (resolves.longest count less)
            · exact same
            · exact absurd here (longest other more)
          exact same ▸ resolves
    · intro layers segments
      rw [unfolded]
      exact commandSpecIn_eq_none_iff empty
    · intro spec found
      rw [unfolded] at found
      rcases (commandSpecIn_eq_some_iff empty).mp found with
        ⟨count, resolves⟩ | ⟨count, resolves⟩
      · exact liesInProvider_of_isDeepest
          (parentName_not_mem_explicitName command count) resolves.file
      · exact liesInProvider_of_isDeepest (by decide) resolves.file
    · intro spec found enabled
      rw [commandHookPaths, executeHooks, named, given,
        getSkillPath_of_isEnabled enabled, enabled, found]
      rfl

/-- A skill `foo` with a hook of a command `run` that is not there. -/
def hookedPaths : PathRegistry Unit where
  tree :=
    { entries :=
        [([], .folder), ([['h']], .folder), ([['h'], "foo".toList], .folder),
          ([['h'], "foo".toList, "cli".toList], .folder),
          ([['h'], "foo".toList, "cli".toList, ['0']], .file ()),
          ([['h'], "foo".toList, "cli".toList, "list".toList], .file ()),
          ([['h'], "foo".toList, "cli".toList, "run.d".toList], .folder),
          ([['h'], "foo".toList, "cli".toList, "run.d".toList,
            "before".toList], .file ())]
      closed := by decide }
  skillsRoots := [[['h']]]

theorem commandSpec_resolves_slashed :
    let cli := [['h'], "foo".toList, "cli".toList]
    (commandSpec hookedPaths (fun _ => true) "foo".toList
          "../..//list".toList).map CommandSpec.cmdPath =
        some (cli ++ ["list".toList]) ∧
      Resolves hookedPaths (fun _ => true) "foo".toList
        "../..//list".toList :=
  ⟨by decide +kernel,
    commandSpec_resolves hookedPaths (fun _ => true) "foo".toList
      "../..//list".toList (by decide) (by decide)⟩

/--
The hook of a command that does not resolve is run and not listed, and a
command of the name `0` is not resolved.
-/
theorem hook_of_missing_command_runs :
    let hook :=
      [['h'], "foo".toList, "cli".toList, "run.d".toList, "before".toList]
    (executeHooks hookedPaths (fun _ => true) "foo".toList "run".toList =
          [hook] ∧
        commandHookPaths hookedPaths (fun _ => true) "foo".toList
            "run".toList = []) ∧
      HasExplicit hookedPaths (fun _ => true)
          (hookedPaths.dispatcherSkillLayers "foo".toList)
          (commandSegments ['0']) 0 ∧
        commandSpec hookedPaths (fun _ => true) "foo".toList ['0'] =
          none := by
  refine ⟨⟨by decide +kernel, by decide +kernel⟩, ?_, by decide +kernel⟩
  refine ⟨by decide, ⟨by decide, Nat.zero_le _, rfl⟩,
    [['h'], "foo".toList], by decide +kernel,
    [['h'], "foo".toList, "cli".toList, ['0']], by decide +kernel⟩

end AnyCommand

end PathRegistry

end DeveloperDashboard.Skills
