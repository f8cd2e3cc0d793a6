import DeveloperDashboard.Skills.CommandMarkers

namespace DeveloperDashboard.Skills

open Library Perl

/-!
# Commands of disabled skills

Nothing of a disabled skill is found or run, and both addresses of a nested
skill are the same, exactly when no marker lies on the way to a directory where
a candidate is looked for.
-/

theorem findSome?_congr_left
    {Item Result : Type} {first second : Item → Option Result}
    {items : List Item} (same : ∀ item ∈ items, first item = second item) :
    items.findSome? first = items.findSome? second := by
  induction items with
  | nil => rfl
  | cons item rest ih =>
    obtain ⟨here, later⟩ := List.forall_mem_cons.mp same
    rw [List.findSome?_cons, List.findSome?_cons, here, ih later]

theorem findSome?_cons_or
    {Item Result : Type} (search : Item → Option Result)
    (item : Item) (rest : List Item) :
    (item :: rest).findSome? search =
      (search item).or (rest.findSome? search) := by
  rw [List.findSome?_cons]
  cases search item <;> rfl

variable {Content : Type}

/-- What a resolved command is, apart from its environment. -/
def CommandSpec.answer (spec : CommandSpec) :
    Path × Path × List Path × Text :=
  (spec.cmdPath, spec.skillPath, spec.skillLayers, spec.commandName)

variable {layers : List Path} {commandName skillName first : Text}
  {file : Path} {command : DottedCommand} {nested : List Text}

namespace PathRegistry

variable (paths : PathRegistry Content) (executable : Content → Bool)

def reachedFiles (skillName command : Text) : List Path :=
  (paths.commandPath executable skillName command).toList ++
    paths.commandHookPaths executable skillName command ++
    paths.executeHooks executable skillName command ++
    (paths.dispatch executable skillName command).files ++
    (paths.execCommand executable skillName command).files

def InEnabledSkill (file : Path) : Prop :=
  ∃ dir, EnabledSkill paths dir ∧ cliRoot dir <+: file

/--
A command of a nested skill is the one that the nested skill has by its own
name; only the explicit command of the whole name comes before it, and the
initializer of the outer skill after it.
-/
def AddressedAlike (skillName first rest : Text) : Prop :=
  let layers := paths.dispatcherSkillLayers skillName
  let own := ownSpec (commandSegments (first ++ '.' :: rest))
  (paths.commandSpec executable skillName
        (first ++ '.' :: rest)).map CommandSpec.answer =
    ((paths.findExplicit executable layers own).or
        ((paths.commandSpec executable (skillName ++ '/' :: first) rest).or
          (paths.findInitializer executable layers own))).map
      CommandSpec.answer

structure RespectsMarkers
    (skillName : Text) (command : DottedCommand) :
    Prop where
  candidates :
    IsSkillName skillName →
      ∀ spec ∈ commandRootSpecs (commandSegments command.text),
        paths.providerLayers (paths.dispatcherSkillLayers skillName)
            spec.nestedSegments =
          paths.dispatcherSkillLayers
            (qualifiedSkillName skillName spec.nestedSegments)
  files :
    ∀ file ∈ paths.reachedFiles executable skillName command.text,
      paths.InEnabledSkill file
  addresses :
    IsSkillName skillName →
      ∀ first rest,
        command.text = first ++ '.' :: rest →
        first ≠ [] → '.' ∉ first →
        isTrue rest = true → commandSegments rest ≠ [] →
        (∀ segment ∈ commandSegments command.text,
          hasDrivePrefix segment = false) →
          paths.AddressedAlike executable skillName first rest

def NoMarkerOnTheWay (skillName : Text) (command : DottedCommand) : Prop :=
  ∀ spec ∈ commandRootSpecs (commandSegments command.text),
    paths.Unmarked (paths.dispatcherSkillLayers skillName)
      spec.nestedSegments

variable {paths executable}

theorem inEnabledSkill_of_hook
    (enabled : ∀ layer ∈ layers, EnabledSkill paths layer)
    (member : file ∈ paths.hookPaths executable layers commandName) :
    paths.InEnabledSkill file := by
  obtain ⟨layer, isLayer, isIn⟩ := List.mem_flatMap.mp member
  dsimp only at isIn
  split at isIn
  · contradiction
  · obtain ⟨entry, -, rfl⟩ := List.mem_map.mp isIn
    refine ⟨layer, enabled layer isLayer, ?_⟩
    rw [List.append_assoc]
    exact List.prefix_append _ _

theorem mem_hookPaths_of_streaming
    (member :
      file ∈
        paths.executeHooksStreaming executable skillName layers
          commandName) :
    file ∈ paths.hookPaths executable layers commandName := by
  unfold executeHooksStreaming at member
  split at member
  · contradiction
  · exact member

theorem enabled_of_commandSpec {spec : CommandSpec}
    (unmarked : paths.NoMarkerOnTheWay skillName command)
    (found :
      paths.commandSpec executable skillName command.text = some spec) :
    (∀ layer ∈ spec.skillLayers, EnabledSkill paths layer) ∧
      paths.InEnabledSkill spec.cmdPath := by
  unfold commandSpec at found
  split at found
  · contradiction
  · obtain ⟨candidate, member, layers, isLayer, below⟩ :=
      of_commandSpecIn found
    have enabled : ∀ layer ∈ spec.skillLayers, EnabledSkill paths layer := by
      intro layer isIn
      rw [layers] at isIn
      exact enabledSkill_of_mem_providerLayers
        (fun top isTop => enabledSkill_of_mem_layers isTop)
        (unmarked candidate member) isIn
    exact ⟨enabled, _, enabled _ isLayer, below⟩

theorem mem_files_dispatchWith
    {command : Text} {hooks : CommandSpec → List Path}
    (member :
      file ∈
        (paths.dispatchWith executable skillName command hooks).files) :
    ∃ spec,
      paths.commandSpec executable skillName command = some spec ∧
        (file ∈ hooks spec ∨ file = spec.cmdPath) := by
  unfold dispatchWith at member
  split at member
  · contradiction
  · split at member
    · contradiction
    · split at member
      · contradiction
      · split at member
        · contradiction
        · split at member
          · split at member <;> contradiction
          · next spec found =>
              refine ⟨spec, found, ?_⟩
              rcases List.mem_append.mp member with isHook | isCommand
              · exact Or.inl isHook
              · exact Or.inr (List.mem_singleton.mp isCommand)

theorem inEnabledSkill_of_executed
    (unmarked : paths.NoMarkerOnTheWay skillName command)
    (member :
      file ∈ paths.executeHooks executable skillName command.text) :
    paths.InEnabledSkill file := by
  unfold executeHooks at member
  split at member
  · contradiction
  · split at member
    · contradiction
    · split at member
      · contradiction
      · split at member
        · exact inEnabledSkill_of_hook
            (fun layer isLayer => enabledSkill_of_mem_layers isLayer) member
        · next spec found =>
            exact inEnabledSkill_of_hook
              (enabled_of_commandSpec unmarked found).1 member

theorem inEnabledSkill_of_reached
    (unmarked : paths.NoMarkerOnTheWay skillName command)
    (member :
      file ∈ paths.reachedFiles executable skillName command.text) :
    paths.InEnabledSkill file := by
  unfold reachedFiles at member
  simp only [List.mem_append] at member
  rcases member with (((isPath | isHook) | isRun) | isDispatched) | isExec
  · obtain ⟨spec, found, rfl⟩ :=
      Option.map_eq_some_iff.mp (Option.mem_toList.mp isPath)
    exact (enabled_of_commandSpec unmarked found).2
  · unfold commandHookPaths at isHook
    split at isHook
    · contradiction
    · next spec found =>
        exact inEnabledSkill_of_hook
          (enabled_of_commandSpec unmarked found).1 isHook
  · exact inEnabledSkill_of_executed unmarked isRun
  · obtain ⟨spec, found, isHook | rfl⟩ := mem_files_dispatchWith isDispatched
    · exact inEnabledSkill_of_executed unmarked isHook
    · exact (enabled_of_commandSpec unmarked found).2
  · obtain ⟨spec, found, isHook | rfl⟩ := mem_files_dispatchWith isExec
    · exact inEnabledSkill_of_hook
        (enabled_of_commandSpec unmarked found).1
        (mem_hookPaths_of_streaming isHook)
    · exact (enabled_of_commandSpec unmarked found).2

theorem findCommand_answer_congr {others : List Path} {inner : List Text}
    {fileName : Text}
    (same :
      paths.providerLayers layers nested =
        paths.providerLayers others inner) :
    (paths.findCommand executable layers nested fileName commandName).map
        CommandSpec.answer =
      (paths.findCommand executable others inner fileName commandName).map
        CommandSpec.answer := by
  unfold findCommand
  dsimp only
  rw [same, List.map_findSome?, List.map_findSome?]
  refine congrArg (List.findSome? · _) (funext fun provider => ?_)
  rw [Function.comp_apply, Function.comp_apply, Option.map_map,
    Option.map_map]
  rfl

theorem commandSpecIn_answer (layers : List Path) (segments : List Text) :
    (paths.commandSpecIn executable layers segments).map
        CommandSpec.answer =
      (((commandRootSpecs segments).filter fun spec =>
          !spec.initOnly).findSome? fun spec =>
            (paths.findExplicit executable layers spec).map
              CommandSpec.answer).or
        ((commandRootSpecs segments).reverse.findSome? fun spec =>
          (paths.findInitializer executable layers spec).map
            CommandSpec.answer) := by
  unfold commandSpecIn
  rw [Option.map_or, List.map_findSome?, List.map_findSome?]
  rfl

theorem commandSpecIn_nil (segments : List Text) :
    paths.commandSpecIn executable [] segments = none := by
  have nothing (spec : CommandRootSpec) :
      paths.findExplicit executable [] spec = none ∧
        paths.findInitializer executable [] spec = none :=
    ⟨rfl, rfl⟩
  unfold commandSpecIn
  rw [Option.or_eq_none_iff, List.findSome?_eq_none_iff,
    List.findSome?_eq_none_iff]
  exact ⟨fun spec _ => (nothing spec).1, fun spec _ => (nothing spec).2⟩

theorem Unmarked.below (unmarked : paths.Unmarked layers (first :: nested)) :
    paths.Unmarked (paths.nestedLayers layers first) nested := by
  intro layer member isFolder
  obtain ⟨parent, isParent, rfl⟩ :=
    List.mem_map.mp (List.mem_filter.mp member).1
  rw [← nestedSkillPath_cons] at isFolder
  exact (Bool.and_eq_true_iff.mp (unmarked parent isParent isFolder)).2

theorem providerLayers_below
    (unmarked : paths.Unmarked layers (first :: nested)) :
    paths.providerLayers layers (first :: nested) =
      paths.providerLayers (paths.nestedLayers layers first) nested := by
  rw [(providerLayers_eq_iff layers _).mpr unmarked,
    (providerLayers_eq_iff _ nested).mpr unmarked.below]
  rfl

/-- The two loops over a command that may begin with a nested skill. -/
theorem commandSpecIn_cons {rest : List Text}
    (plain : ∀ part ∈ first :: rest, IsPlainSegment part)
    (noDrive : ∀ part ∈ first :: rest, hasDrivePrefix part = false)
    (some_ : rest ≠ [])
    (unmarked :
      ∀ spec ∈ commandRootSpecs (first :: rest),
        paths.Unmarked layers spec.nestedSegments) :
    (paths.commandSpecIn executable layers (first :: rest)).map
        CommandSpec.answer =
      ((paths.findExplicit executable layers (ownSpec (first :: rest))).or
          ((if isClean first then
              paths.commandSpecIn executable
                (paths.nestedLayers layers first) rest
            else none).or
            (paths.findInitializer executable layers
              (ownSpec (first :: rest))))).map
        CommandSpec.answer := by
  have specs := commandRootSpecs_cons plain noDrive some_
  rw [commandSpecIn_answer, Option.map_or, Option.map_or]
  cases clean : isClean first with
  | false =>
    rw [clean] at specs
    rw [specs]
    simp [ownSpec]
  | true =>
    rw [clean] at specs
    have deeper (spec : CommandRootSpec)
        (member : spec ∈ commandRootSpecs rest) :
        paths.Unmarked layers (first :: spec.nestedSegments) := by
      have isIn : spec.below first ∈ commandRootSpecs (first :: rest) := by
        rw [specs]
        exact List.mem_cons_of_mem _ (List.mem_map_of_mem member)
      exact unmarked _ isIn
    have explicit (spec : CommandRootSpec)
        (member :
          spec ∈ (commandRootSpecs rest).filter fun spec =>
            !spec.initOnly) :
        (paths.findExplicit executable layers (spec.below first)).map
            CommandSpec.answer =
          (paths.findExplicit executable
              (paths.nestedLayers layers first) spec).map
            CommandSpec.answer :=
      findCommand_answer_congr
        (providerLayers_below (deeper spec (List.mem_filter.mp member).1))
    have initializer (spec : CommandRootSpec)
        (member : spec ∈ (commandRootSpecs rest).reverse) :
        (paths.findInitializer executable layers (spec.below first)).map
            CommandSpec.answer =
          (paths.findInitializer executable
              (paths.nestedLayers layers first) spec).map
            CommandSpec.answer :=
      findCommand_answer_congr
        (providerLayers_below (deeper spec (List.mem_reverse.mp member)))
    have shifted :
        ((commandRootSpecs rest).map
            (CommandRootSpec.below first)).filter
              (fun spec => !spec.initOnly) =
          ((commandRootSpecs rest).filter fun spec =>
            !spec.initOnly).map (CommandRootSpec.below first) :=
      List.filter_map
    rw [specs, if_pos rfl, if_pos rfl, commandSpecIn_answer,
      List.filter_cons_of_pos (by rfl), shifted, findSome?_cons_or,
      List.findSome?_map, List.reverse_cons, List.findSome?_append,
      ← List.map_reverse, List.findSome?_map]
    simp only [Function.comp_def]
    rw [findSome?_congr_left explicit, findSome?_congr_left initializer,
      findSome?_cons_or, List.findSome?_nil, Option.or_none,
      Option.or_assoc, Option.or_assoc]

theorem dispatcherSkillLayers_unclean (unclean : isClean first = false) :
    paths.dispatcherSkillLayers (skillName ++ '/' :: first) = [] := by
  have invalid : validatedPathSegments (skillName ++ '/' :: first) = [] := by
    by_contra valid
    obtain ⟨-, -, clean, -⟩ := validated_of_ne_nil valid
    have joined :
        skillName ++ '/' :: first = ['/'].intercalate [skillName, first] := by
      rw [Joined.intercalate_cons_cons, List.intercalate_singleton]
    rw [joined, isClean_intercalate] at clean
    simp [unclean] at clean
  unfold dispatcherSkillLayers
  rw [invalid]
  exact ite_self _

theorem addressedAlike_of_unmarked {rest : Text}
    (unmarked : paths.NoMarkerOnTheWay skillName command)
    (named : IsSkillName skillName)
    (whole : command.text = first ++ '.' :: rest)
    (nonempty : first ≠ []) (noDot : '.' ∉ first)
    (restGiven : isTrue rest = true) (some_ : commandSegments rest ≠ [])
    (noDrive :
      ∀ segment ∈ commandSegments command.text,
        hasDrivePrefix segment = false) :
    paths.AddressedAlike executable skillName first rest := by
  have plain :
      ∀ part ∈ first :: commandSegments rest, IsPlainSegment part := by
    intro part member
    rw [← commandSegments_append nonempty noDot, ← whole] at member
    exact isPlainSegment_of_mem command.plain member
  unfold NoMarkerOnTheWay at unmarked
  rw [whole, commandSegments_append nonempty noDot] at unmarked noDrive
  have wholeGiven : isTrue (first ++ '.' :: rest) = true := by
    refine decide_eq_true ⟨List.append_ne_nil_of_left_ne_nil nonempty _, ?_⟩
    intro zero
    have dot : '.' ∈ first ++ '.' :: rest :=
      List.mem_append_right _ List.mem_cons_self
    rw [zero] at dot
    exact absurd dot (by decide)
  have nestedGiven : isTrue (qualifiedSkillName skillName [first]) = true :=
    isTrue_qualifiedSkillName named.given
  rw [qualifiedSkillName, List.foldl_cons, List.foldl_nil] at nestedGiven
  have nestedSpec :
      paths.commandSpec executable (skillName ++ '/' :: first) rest =
        if isClean first then
          paths.commandSpecIn executable
            (paths.nestedLayers (paths.dispatcherSkillLayers skillName) first)
            (commandSegments rest)
        else none := by
    unfold commandSpec
    rw [nestedGiven, restGiven]
    cases clean : isClean first with
    | false =>
      rw [dispatcherSkillLayers_unclean clean, commandSpecIn_nil]
      rfl
    | true =>
      have qualified :
          paths.dispatcherSkillLayers
              (qualifiedSkillName skillName [first]) =
            [first].foldl paths.nestedLayers
              (paths.dispatcherSkillLayers skillName) :=
        dispatcherSkillLayers_qualified named
          (fun part member => by
            rw [List.mem_singleton.mp member]
            exact plain first List.mem_cons_self)
          (by simp [clean])
      rw [qualifiedSkillName, List.foldl_cons, List.foldl_nil] at qualified
      rw [qualified]
      rfl
  unfold AddressedAlike
  dsimp only
  rw [nestedSpec, commandSegments_append nonempty noDot,
    ← commandSpecIn_cons plain noDrive some_ unmarked]
  unfold commandSpec
  rw [named.given, wholeGiven, commandSegments_append nonempty noDot]
  rfl

/-- Markers are respected exactly when none lies on the way. -/
theorem respectsMarkers_iff (paths : PathRegistry Content)
    (executable : Content → Bool) (skillName : Text)
    (command : DottedCommand) :
    paths.RespectsMarkers executable skillName command ↔
      paths.NoMarkerOnTheWay skillName command := by
  have qualified (named : IsSkillName skillName) (spec : CommandRootSpec)
      (member : spec ∈ commandRootSpecs (commandSegments command.text)) :
      paths.dispatcherSkillLayers
          (qualifiedSkillName skillName spec.nestedSegments) =
        spec.nestedSegments.foldl paths.nestedLayers
          (paths.dispatcherSkillLayers skillName) := by
    obtain ⟨valid, isFront⟩ := nestedSegments_of_mem member
    have plain : ∀ part ∈ spec.nestedSegments, IsPlainSegment part :=
      fun part isIn =>
        isPlainSegment_of_mem command.plain (isFront.subset isIn)
    exact dispatcherSkillLayers_qualified named plain
      (all_isClean_of_valid plain valid)
  constructor
  · intro respects spec member
    by_cases named : IsSkillName skillName
    · rw [← providerLayers_eq_iff, ← qualified named spec member]
      exact respects.candidates named spec member
    · have noLayers : paths.dispatcherSkillLayers skillName = [] := by
        unfold dispatcherSkillLayers
        split
        · rfl
        · next given =>
            split
            · rfl
            · next rootSkill nested valid =>
                refine absurd ⟨by simpa using given, ?_⟩ named
                rw [valid]
                exact List.cons_ne_nil _ _
      rw [noLayers]
      exact fun layer isLayer => absurd isLayer List.not_mem_nil
  · intro unmarked
    refine ⟨fun named spec member => ?_, fun file member =>
      inEnabledSkill_of_reached unmarked member,
      fun named first rest whole nonempty noDot restGiven some_ noDrive =>
        addressedAlike_of_unmarked unmarked named whole nonempty noDot
          restGiven some_ noDrive⟩
    rw [qualified named spec member]
    exact (providerLayers_eq_iff _ _).mpr (unmarked spec member)

/-- A skill `foo` with a command of a nested skill `bar` that is disabled. -/
def maskedNestedPaths : PathRegistry Unit where
  tree :=
    { entries :=
        [([], .folder), ([['h']], .folder), ([['h'], "foo".toList], .folder),
          ([['h'], "foo".toList, "skills".toList], .folder),
          ([['h'], "foo".toList, "skills".toList, "bar".toList], .folder),
          ([['h'], "foo".toList, "skills".toList, "bar".toList,
            ".disabled".toList], .file ()),
          ([['h'], "foo".toList, "skills".toList, "bar".toList,
            "cli".toList], .folder),
          ([['h'], "foo".toList, "skills".toList, "bar".toList,
            "cli".toList, "baz".toList], .file ())]
      closed := by decide }
  skillsRoots := [[['h']]]

/-- The command is run by one address, and not found by the other. -/
theorem dispatch_runs_disabled :
    let bar := [['h'], "foo".toList, "skills".toList, "bar".toList]
    let command : DottedCommand := ⟨"bar.baz".toList, by decide⟩
    maskedNestedPaths.isDisabled bar = true ∧
      maskedNestedPaths.dispatch (fun _ => true) "foo".toList command.text =
        .run [] (cliRoot bar ++ ["baz".toList]) ∧
      maskedNestedPaths.commandPath (fun _ => true) "foo/bar".toList
          "baz".toList = none ∧
      ¬maskedNestedPaths.RespectsMarkers (fun _ => true) "foo".toList
        command := by
  refine ⟨by decide +kernel, by decide +kernel, by decide +kernel,
    fun respects => ?_⟩
  have named : IsSkillName "foo".toList := ⟨by decide, by decide +kernel⟩
  have same :
      maskedNestedPaths.providerLayers
          (maskedNestedPaths.dispatcherSkillLayers "foo".toList)
          ["bar".toList] =
        maskedNestedPaths.dispatcherSkillLayers "foo/bar".toList :=
    respects.candidates named ⟨["bar".toList], "baz".toList, false⟩
      (by decide +kernel)
  exact absurd same (by decide +kernel)

end PathRegistry

end DeveloperDashboard.Skills
