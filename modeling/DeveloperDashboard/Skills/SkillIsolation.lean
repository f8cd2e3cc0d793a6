import DeveloperDashboard.Skills.NavLocality

namespace DeveloperDashboard.Skills

open Library Perl Config

/-!
# What one skill can do to the others

Two contents of the files of one skill, with everything else alike.  The other
skills keep their routes, pages and configurations; but the search and the
loop over all pages die with the skill that dies.
-/

variable {Content Page : Type}

variable {other : Text}

namespace Dispatcher

variable (dispatcher : Dispatcher Content)

def withTree (tree : FileTree Text Content) : Dispatcher Content :=
  { dispatcher with paths := ⟨tree, dispatcher.paths.skillsRoots⟩ }

/-- The installed skills with the layers of their pages. -/
def navPairs : List (Text × List Path) :=
  (dispatcher.paths.entries false).flatMap dispatcher.paths.navSkills

/-- The directories that anything of a skill is read from. -/
def skillDirs (skillName : Text) : List Path :=
  dispatcher.paths.dispatcherSkillLayers skillName ++
    (dispatcher.navPairs.filter fun pair =>
      decide (pair.1 = skillName)).flatMap Prod.snd

/-- A directory of a skill that no other installed skill reads. -/
def IsOwnDir (skillName : Text) (dir : Path) : Prop :=
  ∀ other ∈ dispatcher.allInstalledSkillNames,
    dir ∈ dispatcher.skillDirs other → other = skillName

def configNames : List Text :=
  ["routes.json".toList, "config.json".toList]

/-- What is read for something else than a skill's own files. -/
inductive IsRestPath (skillName : Text) : Path → Prop where
  | skills {path : Path} :
      IsSkillPath dispatcher.paths.skillsRoots path →
      IsRestPath skillName path
  | runtime {root : Path} :
      root ∈ dispatcher.configLayers →
      IsRestPath skillName (routesFile root)
  | config {dir : Path} {name : Text} :
      ¬ dispatcher.IsOwnDir skillName dir →
      name ∈ configNames →
      IsRestPath skillName (configRoot dir ++ [name])
  | nav {dir path : Path} :
      ¬ dispatcher.IsOwnDir skillName dir →
      PathRegistry.navRoot dir <+: path →
      IsRestPath skillName path

/-- Files that are alike but for the own files of a skill. -/
def SameRest (skillName : Text) (tree : FileTree Text Content) : Prop :=
  ∀ path,
    dispatcher.IsRestPath skillName path →
      dispatcher.paths.tree.entries.lookup path = tree.entries.lookup path

theorem allInstalledSkillNames_eq :
    dispatcher.allInstalledSkillNames = dispatcher.navPairs.map Prod.fst := by
  unfold allInstalledSkillNames navPairs
  rw [PathRegistry.roots_eq_map_entries, List.flatMap_map, List.map_flatMap]
  refine List.flatMap_congr fun entry member => ?_
  rw [PathRegistry.getLast?_skillRoot member]
  unfold PathRegistry.navSkills
  rw [List.map_map]
  exact (List.map_id _).symm

variable {dispatcher} {skillName : Text} {tree : FileTree Text Content}

section

variable (rest : dispatcher.SameRest skillName tree)

include rest

theorem SameRest.skills :
    SkillsAgree dispatcher.paths.skillsRoots dispatcher.paths.tree tree := by
  intro path isSkillPath
  exact rest path (.skills isSkillPath)

theorem SameRest.dispatcherSkillLayers (name : Text) :
    (dispatcher.withTree tree).paths.dispatcherSkillLayers name =
      dispatcher.paths.dispatcherSkillLayers name :=
  (PathRegistry.dispatcherSkillLayers_agree rest.skills name).1.symm

theorem SameRest.entries :
    (dispatcher.withTree tree).paths.entries false =
      dispatcher.paths.entries false :=
  (PathRegistry.installedSkillEntries_agree rest.skills).symm

theorem SameRest.navPairs :
    (dispatcher.withTree tree).navPairs = dispatcher.navPairs := by
  unfold Dispatcher.navPairs
  rw [rest.entries]
  refine List.flatMap_congr fun entry member => ?_
  exact (PathRegistry.navSkills_agree rest.skills
    (PathRegistry.areSkillDirs_entry member).2).symm

theorem SameRest.allInstalledSkillNames :
    (dispatcher.withTree tree).allInstalledSkillNames =
      dispatcher.allInstalledSkillNames := by
  rw [allInstalledSkillNames_eq, allInstalledSkillNames_eq, rest.navPairs]

omit rest in
theorem not_isOwnDir_of_mem {dir : Path}
    (isInstalled : other ∈ dispatcher.allInstalledSkillNames)
    (different : other ≠ skillName)
    (isDir : dir ∈ dispatcher.skillDirs other) :
    ¬ dispatcher.IsOwnDir skillName dir := by
  intro isOwn
  exact different (isOwn other isInstalled isDir)

theorem SameRest.content?_config
    (isInstalled : other ∈ dispatcher.allInstalledSkillNames)
    (different : other ≠ skillName) {layer : Path}
    (isLayer : layer ∈ dispatcher.paths.dispatcherSkillLayers other)
    {name : Text} (isConfig : name ∈ configNames) :
    tree.content? (configRoot layer ++ [name]) =
      dispatcher.paths.tree.content? (configRoot layer ++ [name]) := by
  have isDir : layer ∈ dispatcher.skillDirs other :=
    List.mem_append_left _ isLayer
  exact (FileTree.content?_congr (rest _
    (.config (not_isOwnDir_of_mem isInstalled different isDir)
      isConfig))).symm

omit rest in
theorem foldlM_congr_left {Item State : Type}
    {first second : State → Item → Except Text State} {items : List Item}
    (same : ∀ state, ∀ item ∈ items, first state item = second state item)
    (state : State) :
    items.foldlM first state = items.foldlM second state := by
  induction items generalizing state with
  | nil => rfl
  | cons item rest ih =>
    have later :
        ∀ state, ∀ item ∈ rest, first state item = second state item := by
      intro state item member
      exact same state item (List.mem_cons_of_mem _ member)
    rw [List.foldlM_cons, List.foldlM_cons,
      same state item List.mem_cons_self]
    exact congrArg _ (funext fun next => ih later next)

theorem SameRest.skillRoutesFor
    (isInstalled : other ∈ dispatcher.allInstalledSkillNames)
    (different : other ≠ skillName) (kind : RouteKind) :
    (dispatcher.withTree tree).skillRoutesFor other kind =
      dispatcher.skillRoutesFor other kind := by
  unfold Dispatcher.skillRoutesFor
  rw [rest.dispatcherSkillLayers]
  refine congrArg _ (foldlM_congr_left ?_ _)
  intro collected layer isLayer
  unfold addLayerRoutes sections?
  have isConfig : "routes.json".toList ∈ configNames := List.mem_cons_self
  have same :=
    rest.content?_config isInstalled different (List.mem_reverse.mp isLayer)
      isConfig
  rw [show (dispatcher.withTree tree).paths.tree.content?
      (routesFile (configRoot layer)) = _ from same]
  rfl

theorem SameRest.getSkillConfig
    (isInstalled : other ∈ dispatcher.allInstalledSkillNames)
    (different : other ≠ skillName) :
    (dispatcher.withTree tree).getSkillConfig other =
      dispatcher.getSkillConfig other := by
  have isConfig : "config.json".toList ∈ configNames := by
    simp [configNames]
  have merged (layers : List Path)
      (areLayers :
        ∀ layer ∈ layers,
          layer ∈ dispatcher.paths.dispatcherSkillLayers other)
      (config : ConfigHash) :
      (dispatcher.withTree tree).mergeLayers config layers =
        dispatcher.mergeLayers config layers := by
    induction layers generalizing config with
    | nil => rfl
    | cons layer later ih =>
      obtain ⟨here, others⟩ := List.forall_mem_cons.mp areLayers
      have same :
          (dispatcher.withTree tree).paths.tree.content?
              (configRoot layer ++ ["config.json".toList]) =
            dispatcher.paths.tree.content?
              (configRoot layer ++ ["config.json".toList]) :=
        rest.content?_config isInstalled different here isConfig
      unfold mergeLayers
      rw [same]
      cases dispatcher.paths.tree.content?
          (configRoot layer ++ ["config.json".toList]) with
      | none => exact ih others config
      | some content =>
        dsimp only
        rw [show (dispatcher.withTree tree).layerConfig content =
          dispatcher.layerConfig content from rfl]
        cases dispatcher.layerConfig content with
        | none => rfl
        | some given => exact ih others _
  unfold Dispatcher.getSkillConfig
  rw [rest.dispatcherSkillLayers]
  exact merged _ (fun _ isLayer => isLayer) []

theorem SameRest.runtimeCustomRouteSpecs :
    (dispatcher.withTree tree).runtimeCustomRouteSpecs =
      dispatcher.runtimeCustomRouteSpecs := by
  have same (root : Path) (isRoot : root ∈ dispatcher.configLayers) :
      (dispatcher.withTree tree).layerSpecs root =
        dispatcher.layerSpecs root := by
    unfold layerSpecs sections?
    rw [show (dispatcher.withTree tree).paths.tree.content?
        (routesFile root) = dispatcher.paths.tree.content? (routesFile root)
      from (FileTree.content?_congr (rest _ (.runtime isRoot))).symm]
    rfl
  have all (roots : List Path)
      (areRoots : ∀ root ∈ roots, root ∈ dispatcher.configLayers) :
      roots.mapM (dispatcher.withTree tree).layerSpecs =
        roots.mapM dispatcher.layerSpecs := by
    induction roots with
    | nil => rfl
    | cons root later ih =>
      obtain ⟨here, others⟩ := List.forall_mem_cons.mp areRoots
      rw [List.mapM_cons, List.mapM_cons, same root here, ih others]
  unfold Dispatcher.runtimeCustomRouteSpecs
  exact congrArg _ (all _ fun _ isRoot => isRoot)

end

theorem SameRest.navPagesForLayers (reader : NavReader Content Page)
    (rest : dispatcher.SameRest skillName tree)
    {pair : Text × List Path} (isPair : pair ∈ dispatcher.navPairs)
    (different : pair.1 ≠ skillName) :
    (dispatcher.withTree tree).paths.navPagesForLayers reader pair.1 pair.2 =
      dispatcher.paths.navPagesForLayers reader pair.1 pair.2 := by
  have isInstalled : pair.1 ∈ dispatcher.allInstalledSkillNames := by
    rw [allInstalledSkillNames_eq]
    exact List.mem_map_of_mem isPair
  refine (PathRegistry.navPagesForLayers_agree reader ?_ pair.1).symm
  intro layer isLayer path below
  have isDir : layer ∈ dispatcher.skillDirs pair.1 := by
    refine List.mem_append_right _ (List.mem_flatMap.mpr ⟨pair, ?_, isLayer⟩)
    exact List.mem_filter.mpr ⟨isPair, decide_eq_true rfl⟩
  exact rest path
    (.nav (not_isOwnDir_of_mem isInstalled different isDir) below)

variable (dispatcher)

def Claims (skillName path : Text) : Prop :=
  ∃ kind routes,
    dispatcher.skillRoutesFor skillName kind = .ok routes ∧
      ∃ entry ∈ routes, entry.2.claims path = true

def LoadsRoutes (skillName : Text) : Prop :=
  ∀ kind, ∃ routes, dispatcher.skillRoutesFor skillName kind = .ok routes

/-- The loop of `all_skill_nav_pages`, with the skill of each page. -/
def namedNavPages (reader : NavReader Content Page) :
    Option (List (Text × List Page)) :=
  if (dispatcher.paths.entries false).any fun entry =>
      !Perl.isTrue entry.skillName then none
  else
    dispatcher.navPairs.mapM fun pair =>
      (dispatcher.paths.navPagesForLayers reader pair.1 pair.2).map
        (Prod.mk pair.1)

def otherNavPages (reader : NavReader Content Page) (skillName : Text) :
    Option (List Page) :=
  (dispatcher.namedNavPages reader).map fun named =>
    (named.filter fun pages => decide (pages.1 ≠ skillName)).flatMap Prod.snd

def LoadsNav (reader : NavReader Content Page) (skillName : Text) : Prop :=
  ∀ pair ∈ dispatcher.navPairs,
    pair.1 = skillName →
      ∃ pages,
        dispatcher.paths.navPagesForLayers reader pair.1 pair.2 = some pages

/-- Two contents of a skill that make no difference to the others. -/
structure CannotBreak (reader : NavReader Content Page) (skillName : Text)
    (tree : FileTree Text Content) : Prop where
  routes :
    ∀ path,
      ¬ dispatcher.Claims skillName path →
      ¬ (dispatcher.withTree tree).Claims skillName path →
        (dispatcher.resolveCustomRoutePath path).toOption =
          ((dispatcher.withTree tree).resolveCustomRoutePath path).toOption
  nav :
    dispatcher.otherNavPages reader skillName =
      (dispatcher.withTree tree).otherNavPages reader skillName
  config :
    ∀ other ∈ dispatcher.allInstalledSkillNames,
      other ≠ skillName →
        dispatcher.getSkillConfig other =
          (dispatcher.withTree tree).getSkillConfig other

/--
The search for a path gets to the skill, and would end well without it:
neither the runtime nor a skill before it ends the search, and no skill after
it dies.
-/
def ReachesSkill (skillName path : Text) : Prop :=
  path ≠ [] ∧
    skillName ∈ dispatcher.allInstalledSkillNames ∧
      (∃ specs, dispatcher.runtimeCustomRouteSpecs = .ok specs ∧
          (specs.reverse.find? fun spec => spec.claims path) = none) ∧
        findFirst (dispatcher.findOfSkill path)
            (before skillName dispatcher.allInstalledSkillNames) = .ok none ∧
          ∃ found,
            findFirst (dispatcher.findOfSkill path)
              (after skillName dispatcher.allInstalledSkillNames) = .ok found

/-- The other skills let the loop over all pages end. -/
def OthersLoadNav (reader : NavReader Content Page) (skillName : Text) :
    Prop :=
  ((dispatcher.paths.entries false).any fun entry =>
      !Perl.isTrue entry.skillName) = false ∧
    ∀ pair ∈ dispatcher.navPairs,
      pair.1 ≠ skillName →
        ∃ pages,
          dispatcher.paths.navPagesForLayers reader pair.1 pair.2 =
            some pages

variable {dispatcher} {path : Text}

/-- `all_skill_nav_pages` returns these pages, skill by skill. -/
theorem map_pages_loadNav (reader : NavReader Content Page) :
    (dispatcher.paths.loadNav reader).map PathRegistry.LoadedNav.pages =
      (dispatcher.namedNavPages reader).map fun named =>
        named.flatMap Prod.snd := by
  have together (pairs : List (Text × List Path)) :
      (pairs.mapM fun pair =>
          dispatcher.paths.navPagesForLayers reader pair.1 pair.2).map
          List.flatten =
        (pairs.mapM fun pair =>
          (dispatcher.paths.navPagesForLayers reader pair.1 pair.2).map
            (Prod.mk pair.1)).map fun named => named.flatMap Prod.snd := by
    induction pairs with
    | nil => rfl
    | cons pair rest ih =>
      rw [List.mapM_cons, List.mapM_cons]
      cases dispatcher.paths.navPagesForLayers reader pair.1 pair.2 with
      | none => rfl
      | some pages =>
        revert ih
        cases rest.mapM fun pair =>
            dispatcher.paths.navPagesForLayers reader pair.1 pair.2 <;>
          cases rest.mapM fun pair =>
            (dispatcher.paths.navPagesForLayers reader pair.1
              pair.2).map (Prod.mk pair.1) <;>
          simp +contextual
  unfold PathRegistry.loadNav namedNavPages
  dsimp only
  split
  · rfl
  · rw [Option.map_map]
    exact together dispatcher.navPairs

theorem findOfKind_of_not_claims
    (unclaimed : ¬ dispatcher.Claims skillName path) (kind : RouteKind) :
    (dispatcher.findOfKind path skillName kind = .ok none ↔
        ∃ routes, dispatcher.skillRoutesFor skillName kind = .ok routes) ∧
      (dispatcher.findOfKind path skillName kind = .ok none ∨
        ∃ reason,
          dispatcher.findOfKind path skillName kind = .error reason) := by
  unfold findOfKind
  cases loaded : dispatcher.skillRoutesFor skillName kind with
  | error reason => exact ⟨by simp [Except.map], .inr ⟨reason, rfl⟩⟩
  | ok routes =>
    have nothing :
        (((routes.map Prod.fst).insertionSort (· ≤ ·)).findSome?
          fun target =>
            (routes.lookup target).filter fun spec => spec.claims path) =
          none := by
      rw [List.findSome?_eq_none_iff]
      intro target _
      rw [Option.filter_eq_none_iff]
      intro spec found isClaimed
      exact unclaimed
        ⟨kind, routes, loaded, _, Entries.mem_of_lookup found, isClaimed⟩
    rw [Except.map, nothing]
    exact ⟨by simp, .inl rfl⟩

theorem findOfSkill_of_not_claims
    (unclaimed : ¬ dispatcher.Claims skillName path) :
    (dispatcher.findOfSkill path skillName = .ok none ↔
        dispatcher.LoadsRoutes skillName) ∧
      (dispatcher.findOfSkill path skillName = .ok none ∨
        ∃ reason, dispatcher.findOfSkill path skillName = .error reason) := by
  have kinds :
      ∀ kind ∈ RouteKind.all,
        dispatcher.findOfKind path skillName kind = .ok none ∨
          ∃ reason,
            dispatcher.findOfKind path skillName kind = .error reason := by
    intro kind _
    exact (findOfKind_of_not_claims unclaimed kind).2
  have quiet := findFirst_of_quiet kinds
  refine ⟨quiet.1.trans ?_, quiet.2⟩
  constructor
  · intro all kind
    have isKind : kind ∈ RouteKind.all := by
      cases kind <;> simp [RouteKind.all]
    exact (findOfKind_of_not_claims unclaimed kind).1.mp (all kind isKind)
  · intro loads kind _
    exact (findOfKind_of_not_claims unclaimed kind).1.mpr (loads kind)

section

variable (rest : dispatcher.SameRest skillName tree)

include rest

theorem SameRest.findOfSkill
    (isInstalled : other ∈ dispatcher.allInstalledSkillNames)
    (different : other ≠ skillName) (path : Text) :
    (dispatcher.withTree tree).findOfSkill path other =
      dispatcher.findOfSkill path other := by
  refine findFirst_congr fun kind _ => ?_
  unfold findOfKind
  rw [rest.skillRoutesFor isInstalled different]

omit rest in
theorem resolveCustomRoutePath_eq
    {specs : List RouteSpec} (given : path ≠ [])
    (loaded : dispatcher.runtimeCustomRouteSpecs = .ok specs)
    (nothing : (specs.reverse.find? fun spec => spec.claims path) = none) :
    dispatcher.resolveCustomRoutePath path =
      findFirst (dispatcher.findOfSkill path)
        dispatcher.allInstalledSkillNames := by
  unfold resolveCustomRoutePath
  rw [if_neg given, loaded, Except.bind, nothing]

omit rest in
theorem resolveCustomRoutePath_of_loads
    (reaches : dispatcher.ReachesSkill skillName path)
    (unclaimed : ¬ dispatcher.Claims skillName path)
    (loads : dispatcher.LoadsRoutes skillName) :
    ∃ found,
      dispatcher.resolveCustomRoutePath path = .ok found ∧
        findFirst (dispatcher.findOfSkill path)
          (after skillName dispatcher.allInstalledSkillNames) = .ok found := by
  obtain ⟨given, _, ⟨specs, loaded, nothing⟩, noneBefore, found, ended⟩ :=
    reaches
  refine ⟨found, ?_, ended⟩
  rw [resolveCustomRoutePath_eq given loaded nothing,
    findFirst_of_passes noneBefore
      ((findOfSkill_of_not_claims unclaimed).1.mpr loads), ended]

omit rest in
theorem resolveCustomRoutePath_of_not_loads
    (reaches : dispatcher.ReachesSkill skillName path)
    (unclaimed : ¬ dispatcher.Claims skillName path)
    (fails : ¬ dispatcher.LoadsRoutes skillName) :
    ∃ reason, dispatcher.resolveCustomRoutePath path = .error reason := by
  obtain ⟨given, isInstalled, ⟨specs, loaded, nothing⟩, noneBefore, _⟩ :=
    reaches
  obtain ⟨iffLoads, ends⟩ := findOfSkill_of_not_claims unclaimed
  obtain ⟨reason, died⟩ := ends.resolve_left (mt iffLoads.mp fails)
  exact ⟨reason, by
    rw [resolveCustomRoutePath_eq given loaded nothing,
      findFirst_of_dies noneBefore isInstalled died]⟩

theorem SameRest.findFirst {names : List Text}
    (areOthers :
      ∀ name ∈ names,
        name ∈ dispatcher.allInstalledSkillNames ∧ name ≠ skillName)
    (path : Text) :
    Dispatcher.findFirst ((dispatcher.withTree tree).findOfSkill path) names =
      Dispatcher.findFirst (dispatcher.findOfSkill path) names := by
  refine findFirst_congr fun name isName => ?_
  obtain ⟨isInstalled, different⟩ := areOthers name isName
  exact rest.findOfSkill isInstalled different path

omit rest in
theorem areOthers_before (names : List Text) :
    ∀ name ∈ before skillName names, name ∈ names ∧ name ≠ skillName := by
  intro name isBefore
  exact ⟨(List.takeWhile_sublist _).subset isBefore, ne_of_mem_before isBefore⟩

omit rest in
theorem areOthers_after (names : List Text) :
    ∀ name ∈ after skillName names, name ∈ names ∧ name ≠ skillName := by
  intro name isAfter
  exact ⟨(List.dropWhile_sublist _).subset (List.mem_filter.mp isAfter).1,
    ne_of_mem_after isAfter⟩

theorem SameRest.reachesSkill
    (reaches : dispatcher.ReachesSkill skillName path) :
    (dispatcher.withTree tree).ReachesSkill skillName path := by
  unfold ReachesSkill at reaches ⊢
  rw [rest.allInstalledSkillNames, rest.runtimeCustomRouteSpecs,
    rest.findFirst (areOthers_before _), rest.findFirst (areOthers_after _)]
  exact reaches

omit rest in
theorem findFirst_of_dies_after {names : List Text} {reason : Text}
    (unclaimed : ¬ dispatcher.Claims skillName path)
    (isIn : skillName ∈ names)
    (noneBefore :
      findFirst (dispatcher.findOfSkill path) (before skillName names) =
        .ok none)
    (died :
      findFirst (dispatcher.findOfSkill path) (after skillName names) =
        .error reason) :
    (findFirst (dispatcher.findOfSkill path) names).toOption = none := by
  rcases (findOfSkill_of_not_claims unclaimed).2 with quiet | ⟨other, dies⟩
  · rw [findFirst_of_passes noneBefore quiet, died]
    rfl
  · rw [findFirst_of_dies noneBefore isIn dies]
    rfl

/-- A search that does not get to the skill, or dies after it. -/
theorem SameRest.toOption_of_not_reachesSkill
    (unclaimed : ¬ dispatcher.Claims skillName path)
    (otherUnclaimed : ¬ (dispatcher.withTree tree).Claims skillName path)
    (notReached : ¬ dispatcher.ReachesSkill skillName path) :
    (dispatcher.resolveCustomRoutePath path).toOption =
      ((dispatcher.withTree tree).resolveCustomRoutePath path).toOption := by
  by_cases given : path = []
  · rw [given]
    rfl
  cases loaded : dispatcher.runtimeCustomRouteSpecs with
  | error reason =>
    unfold resolveCustomRoutePath
    rw [rest.runtimeCustomRouteSpecs, loaded, if_neg given, if_neg given]
    rfl
  | ok specs =>
    have otherLoaded := rest.runtimeCustomRouteSpecs.trans loaded
    cases matched : specs.reverse.find? fun spec => spec.claims path with
    | some spec =>
      unfold resolveCustomRoutePath
      rw [loaded, otherLoaded, if_neg given, if_neg given, Except.bind,
        Except.bind, matched]
    | none =>
      rw [resolveCustomRoutePath_eq given loaded matched,
        resolveCustomRoutePath_eq given otherLoaded matched,
        rest.allInstalledSkillNames]
      have sameBefore := rest.findFirst (areOthers_before _) path
      have sameAfter := rest.findFirst (areOthers_after _) path
      by_cases noneBefore :
          Dispatcher.findFirst (dispatcher.findOfSkill path)
            (before skillName dispatcher.allInstalledSkillNames) =
          .ok none
      · by_cases isIn : skillName ∈ dispatcher.allInstalledSkillNames
        · cases ended :
              Dispatcher.findFirst (dispatcher.findOfSkill path)
                (after skillName dispatcher.allInstalledSkillNames) with
          | ok found =>
            exact absurd ⟨given, isIn, ⟨specs, loaded, matched⟩,
              noneBefore, found, ended⟩ notReached
          | error reason =>
            rw [findFirst_of_dies_after unclaimed isIn noneBefore
                ended,
              findFirst_of_dies_after otherUnclaimed isIn
                (sameBefore.trans noneBefore) (sameAfter.trans ended)]
        · refine congrArg Except.toOption
            (rest.findFirst (fun name isName => ?_) path).symm
          refine ⟨isName, ?_⟩
          rintro rfl
          exact isIn isName
      · have otherBefore := sameBefore ▸ noneBefore
        rw [findFirst_of_before noneBefore,
          findFirst_of_before otherBefore, sameBefore]

theorem SameRest.resolveCustomRoutePath_iff
    (unclaimed : ¬ dispatcher.Claims skillName path)
    (otherUnclaimed : ¬ (dispatcher.withTree tree).Claims skillName path) :
    (dispatcher.resolveCustomRoutePath path).toOption =
        ((dispatcher.withTree tree).resolveCustomRoutePath path).toOption ↔
      (dispatcher.ReachesSkill skillName path →
        (dispatcher.LoadsRoutes skillName ↔
          (dispatcher.withTree tree).LoadsRoutes skillName)) := by
  by_cases reaches : dispatcher.ReachesSkill skillName path
  · have alsoReaches := rest.reachesSkill reaches
    have sameAfter :=
      rest.findFirst
        (areOthers_after dispatcher.allInstalledSkillNames) path
    rw [forall_prop_of_true reaches]
    by_cases loads : dispatcher.LoadsRoutes skillName
    · obtain ⟨found, resolved, ended⟩ :=
        resolveCustomRoutePath_of_loads reaches unclaimed loads
      by_cases otherLoads : (dispatcher.withTree tree).LoadsRoutes skillName
      · obtain ⟨other, otherResolved, otherEnded⟩ :=
          resolveCustomRoutePath_of_loads alsoReaches otherUnclaimed
            otherLoads
        rw [rest.allInstalledSkillNames, sameAfter, ended] at otherEnded
        obtain rfl := Except.ok.inj otherEnded
        simp [resolved, otherResolved, loads, otherLoads]
      · obtain ⟨reason, died⟩ :=
          resolveCustomRoutePath_of_not_loads alsoReaches otherUnclaimed
            otherLoads
        simp [Except.toOption, resolved, died, loads, otherLoads]
    · obtain ⟨reason, died⟩ :=
        resolveCustomRoutePath_of_not_loads reaches unclaimed loads
      by_cases otherLoads : (dispatcher.withTree tree).LoadsRoutes skillName
      · obtain ⟨other, otherResolved, _⟩ :=
          resolveCustomRoutePath_of_loads alsoReaches otherUnclaimed
            otherLoads
        simp [Except.toOption, died, otherResolved, loads, otherLoads]
      · obtain ⟨otherReason, otherDied⟩ :=
          resolveCustomRoutePath_of_not_loads alsoReaches otherUnclaimed
            otherLoads
        simp [Except.toOption, died, otherDied, loads, otherLoads]
  · exact iff_of_true
      (rest.toOption_of_not_reachesSkill unclaimed otherUnclaimed reaches)
      fun reached => absurd reached reaches

end

theorem exists_mapM_iff {Item Result : Type} {step : Item → Option Result}
    {items : List Item} :
    (∃ results, items.mapM step = some results) ↔
      ∀ item ∈ items, ∃ result, step item = some result := by
  induction items with
  | nil => simp
  | cons item rest ih =>
    rw [List.forall_mem_cons, ← ih, List.mapM_cons]
    cases step item with
    | none => simp
    | some result =>
      cases rest.mapM step with
      | none => simp
      | some results => simp

/-- What is left of two lists that differ in what is left out. -/
theorem filter_mapM_eq {Item Result : Type}
    {first second : Item → Option Result} {keep : Result → Bool}
    {items : List Item} {results others : List Result}
    (same :
      ∀ item ∈ items, ∀ result other,
        first item = some result → second item = some other →
          result = other ∨ keep result = false ∧ keep other = false)
    (mapped : items.mapM first = some results)
    (otherMapped : items.mapM second = some others) :
    results.filter keep = others.filter keep := by
  induction items generalizing results others with
  | nil =>
    cases mapped
    cases otherMapped
    rfl
  | cons item rest ih =>
    rw [List.mapM_cons] at mapped otherMapped
    obtain ⟨result, here, mapped⟩ := Option.bind_eq_some_iff.mp mapped
    obtain ⟨later, there, mapped⟩ := Option.bind_eq_some_iff.mp mapped
    obtain ⟨other, otherHere, otherMapped⟩ :=
      Option.bind_eq_some_iff.mp otherMapped
    obtain ⟨otherLater, otherThere, otherMapped⟩ :=
      Option.bind_eq_some_iff.mp otherMapped
    cases mapped
    cases otherMapped
    obtain ⟨alike, rest⟩ := List.forall_mem_cons.mp same
    have sameLater := ih rest there otherThere
    rcases alike result other here otherHere with rfl | ⟨dropped, also⟩
    · rw [List.filter_cons, List.filter_cons, sameLater]
    · rw [List.filter_cons, List.filter_cons, dropped, also]
      exact sameLater

section

variable (reader : NavReader Content Page)

include reader

/-- The loop ends when every skill lets it. -/
theorem exists_namedNavPages_iff :
    (∃ named, dispatcher.namedNavPages reader = some named) ↔
      dispatcher.OthersLoadNav reader skillName ∧
        dispatcher.LoadsNav reader skillName := by
  unfold namedNavPages OthersLoadNav LoadsNav
  by_cases isNameless :
      ((dispatcher.paths.entries false).any fun entry =>
        !Perl.isTrue entry.skillName) = true
  · rw [if_pos isNameless, isNameless]
    simp
  · rw [if_neg isNameless, exists_mapM_iff]
    have isNamed := Bool.eq_false_iff.mpr isNameless
    constructor
    · intro all
      have each :
          ∀ pair ∈ dispatcher.navPairs,
            ∃ pages,
              dispatcher.paths.navPagesForLayers reader pair.1 pair.2 =
                some pages := by
        intro pair isPair
        obtain ⟨named, mapped⟩ := all pair isPair
        obtain ⟨pages, loaded, _⟩ := Option.map_eq_some_iff.mp mapped
        exact ⟨pages, loaded⟩
      exact ⟨⟨isNamed, fun pair isPair _ => each pair isPair⟩,
        fun pair isPair _ => each pair isPair⟩
    · rintro ⟨⟨_, others⟩, own⟩ pair isPair
      have loads :
          ∃ pages,
            dispatcher.paths.navPagesForLayers reader pair.1 pair.2 =
              some pages := by
        by_cases isOwn : pair.1 = skillName
        · exact own pair isPair isOwn
        · exact others pair isPair isOwn
      obtain ⟨pages, loaded⟩ := loads
      exact ⟨(pair.1, pages), by rw [loaded]; rfl⟩

section

variable (rest : dispatcher.SameRest skillName tree)

include rest

theorem SameRest.othersLoadNav_iff :
    (dispatcher.withTree tree).OthersLoadNav reader skillName ↔
      dispatcher.OthersLoadNav reader skillName := by
  unfold OthersLoadNav
  rw [rest.entries, rest.navPairs]
  refine and_congr_right fun _ => ?_
  refine forall₃_congr fun pair isPair different => ?_
  rw [rest.navPagesForLayers reader isPair different]

theorem SameRest.otherNavPages_of_some
    {named others : List (Text × List Page)}
    (loaded : dispatcher.namedNavPages reader = some named)
    (otherLoaded :
      (dispatcher.withTree tree).namedNavPages reader = some others) :
    dispatcher.otherNavPages reader skillName =
      (dispatcher.withTree tree).otherNavPages reader skillName := by
  unfold Dispatcher.otherNavPages
  rw [loaded, otherLoaded, Option.map_some, Option.map_some]
  refine congrArg (fun left : List (Text × List Page) =>
    some (left.flatMap Prod.snd)) ?_
  unfold namedNavPages at loaded otherLoaded
  rw [rest.entries, rest.navPairs] at otherLoaded
  split at loaded
  · cases loaded
  · next isNamed =>
      rw [if_neg isNamed] at otherLoaded
      refine filter_mapM_eq ?_ loaded otherLoaded
      intro pair isPair result other mapped otherMapped
      by_cases isOwn : pair.1 = skillName
      · obtain ⟨pages, _, rfl⟩ := Option.map_eq_some_iff.mp mapped
        obtain ⟨otherPages, _, rfl⟩ := Option.map_eq_some_iff.mp otherMapped
        right
        simp [isOwn]
      · left
        rw [rest.navPagesForLayers reader isPair isOwn, mapped] at otherMapped
        exact Option.some.inj otherMapped

theorem SameRest.otherNavPages_eq_iff :
    dispatcher.otherNavPages reader skillName =
        (dispatcher.withTree tree).otherNavPages reader skillName ↔
      ((∃ named, dispatcher.namedNavPages reader = some named) ↔
        ∃ named,
          (dispatcher.withTree tree).namedNavPages reader = some named) := by
  cases loaded : dispatcher.namedNavPages reader with
  | some named =>
    cases otherLoaded : (dispatcher.withTree tree).namedNavPages reader with
    | some others =>
      exact iff_of_true
        (rest.otherNavPages_of_some reader loaded otherLoaded) (by simp)
    | none =>
      unfold Dispatcher.otherNavPages
      simp [loaded, otherLoaded]
  | none =>
    unfold Dispatcher.otherNavPages
    cases otherLoaded : (dispatcher.withTree tree).namedNavPages reader with
    | some others => simp [loaded]
    | none => simp [loaded]

theorem SameRest.otherNavPages_iff :
    dispatcher.otherNavPages reader skillName =
        (dispatcher.withTree tree).otherNavPages reader skillName ↔
      (dispatcher.OthersLoadNav reader skillName →
        (dispatcher.LoadsNav reader skillName ↔
          (dispatcher.withTree tree).LoadsNav reader skillName)) := by
  rw [rest.otherNavPages_eq_iff reader, exists_namedNavPages_iff reader,
    exists_namedNavPages_iff reader, rest.othersLoadNav_iff reader]
  exact and_congr_right_iff

end

end

/--
The contents of a skill make no difference to the others exactly when its
routes load under both or under neither, as far as a search gets to them, and
so do its pages, as far as those of the others load.
-/
theorem cannotBreak_iff
    (dispatcher : Dispatcher Content) (reader : NavReader Content Page)
    (skillName : Text) (tree : FileTree Text Content)
    (rest : dispatcher.SameRest skillName tree) :
    dispatcher.CannotBreak reader skillName tree ↔
      (∀ path, ¬ dispatcher.Claims skillName path →
        ¬ (dispatcher.withTree tree).Claims skillName path →
        dispatcher.ReachesSkill skillName path →
          (dispatcher.LoadsRoutes skillName ↔
            (dispatcher.withTree tree).LoadsRoutes skillName)) ∧
        (dispatcher.OthersLoadNav reader skillName →
          (dispatcher.LoadsNav reader skillName ↔
            (dispatcher.withTree tree).LoadsNav reader skillName)) := by
  constructor
  · intro cannot
    refine ⟨fun path unclaimed otherUnclaimed => ?_,
      (rest.otherNavPages_iff reader).mp cannot.nav⟩
    exact (rest.resolveCustomRoutePath_iff unclaimed otherUnclaimed).mp
      (cannot.routes path unclaimed otherUnclaimed)
  · rintro ⟨routes, nav⟩
    constructor
    · intro path unclaimed otherUnclaimed
      exact (rest.resolveCustomRoutePath_iff unclaimed otherUnclaimed).mpr
        (routes path unclaimed otherUnclaimed)
    · exact (rest.otherNavPages_iff reader).mpr nav
    · intro other isInstalled different
      exact (rest.getSkillConfig isInstalled different).symm

/-- The folder of the skill `a`. -/
def brokenSkill : Path :=
  ["skills".toList, "a".toList]

/-- The skills `a` and `b`; `false` stands for a file that is not JSON. -/
def brokenTree (content : Bool) : FileTree Text Bool where
  entries :=
    [([], .folder), (["skills".toList], .folder), (brokenSkill, .folder),
      (configRoot brokenSkill, .folder),
      (["skills".toList, "b".toList], .folder),
      (routesFile (configRoot brokenSkill), .file content)]
  closed := by
    cases content <;> decide

/-- Both skills, with a routes file without routes. -/
def brokenDispatcher : Dispatcher Bool where
  paths := ⟨brokenTree true, [["skills".toList]]⟩
  configLayers := []
  decode := fun content =>
    if content then .ok (.hash []) else .error "malformed".toList

theorem isOwnDir_brokenSkill :
    brokenDispatcher.IsOwnDir "a".toList brokenSkill := by
  have names :
      brokenDispatcher.allInstalledSkillNames =
        ["a".toList, "b".toList] := by
    decide +kernel
  have otherDirs :
      brokenDispatcher.skillDirs "b".toList =
        [["skills".toList, "b".toList], ["skills".toList, "b".toList]] := by
    decide +kernel
  intro other isInstalled isDir
  rw [names, List.mem_cons, List.mem_singleton] at isInstalled
  rcases isInstalled with rfl | rfl
  · rfl
  · rw [otherDirs, List.mem_cons, List.mem_singleton, or_self] at isDir
    exact absurd isDir (by decide)

theorem getLast?_of_isSkillsFolder {skillsRoots : List Path} {folder : Path}
    (isSkills : IsSkillsFolder skillsRoots folder) :
    folder ∈ skillsRoots ∨ folder.getLast? = some "skills".toList := by
  cases isSkills with
  | root isRoot => exact .inl isRoot
  | nested _ => exact .inr (by simp [PathRegistry.nestedRoot])

theorem not_isSkillPath_brokenSkill :
    ¬ IsSkillPath [["skills".toList]]
      (routesFile (configRoot brokenSkill)) := by
  intro isSkillPath
  generalize isFile : routesFile (configRoot brokenSkill) = path
    at isSkillPath
  cases isSkillPath with
  | skillsFolder isSkills =>
    rcases getLast?_of_isSkillsFolder isSkills with isRoot | isLast
    · rw [List.mem_singleton.mp isRoot] at isFile
      exact absurd isFile (by decide)
    · rw [← isFile] at isLast
      exact absurd isLast (by decide)
  | skill isSkill =>
    obtain ⟨folder, name, isSkills, rfl⟩ := isSkill
    obtain ⟨isFolder, _⟩ := List.append_inj' isFile rfl
    rcases getLast?_of_isSkillsFolder isSkills with isRoot | isLast
    · rw [List.mem_singleton.mp isRoot] at isFolder
      exact absurd isFolder (by decide)
    · rw [← isFolder] at isLast
      exact absurd isLast (by decide)
  | marker _ =>
    obtain ⟨_, isMarker⟩ := List.append_inj' isFile rfl
    exact absurd isMarker (by decide)

theorem not_isRestPath_brokenSkill :
    ¬ brokenDispatcher.IsRestPath "a".toList
      (routesFile (configRoot brokenSkill)) := by
  intro isRest
  generalize isFile : routesFile (configRoot brokenSkill) = path at isRest
  cases isRest with
  | skills isSkillPath =>
    rw [← isFile] at isSkillPath
    exact not_isSkillPath_brokenSkill isSkillPath
  | runtime isLayer => exact absurd isLayer List.not_mem_nil
  | config notOwn _ =>
    obtain ⟨isRoot, _⟩ := List.append_inj' isFile rfl
    obtain ⟨isDir, _⟩ := List.append_inj' isRoot rfl
    rw [← isDir] at notOwn
    exact notOwn isOwnDir_brokenSkill
  | @nav dir _ _ isBelow =>
    rw [← isFile] at isBelow
    have isPart : "dashboards".toList ∈ PathRegistry.navRoot dir :=
      List.mem_append_right dir List.mem_cons_self
    exact absurd (isBelow.subset isPart) (by decide)

theorem sameRest_brokenTree :
    brokenDispatcher.SameRest "a".toList (brokenTree false) := by
  intro path isRest
  have notFile : routesFile (configRoot brokenSkill) ≠ path := by
    rintro rfl
    exact not_isRestPath_brokenSkill isRest
  simp only [brokenDispatcher, brokenTree, Entries.lookup, if_neg notFile]

def noPages : NavReader Bool Unit where
  read := fun _ _ _ _ _ => none
  literalBytes := fun _ => none

theorem not_claims_brokenTree (content : Bool) (path : Text) :
    ¬ (brokenDispatcher.withTree (brokenTree content)).Claims "a".toList
      path := by
  have noRoutes :
      ∀ content,
        ∀ kind ∈ RouteKind.all,
          ((brokenDispatcher.withTree (brokenTree content)).skillRoutesFor
            "a".toList kind).toOption.getD [] = [] := by
    decide +kernel
  rintro ⟨kind, routes, loaded, entry, isEntry, _⟩
  have none := noRoutes content kind (by cases kind <;> decide)
  rw [loaded] at none
  rw [show routes = [] from none] at isEntry
  exact List.not_mem_nil isEntry

/-- The broken file of `a` ends the search for a path that it has nothing of. -/
theorem search_dies_with_broken_skill :
    brokenDispatcher.SameRest "a".toList (brokenTree false) ∧
      ¬ brokenDispatcher.CannotBreak noPages "a".toList
        (brokenTree false) := by
  refine ⟨sameRest_brokenTree, fun cannot => ?_⟩
  have same :=
    cannot.routes "/x".toList (not_claims_brokenTree true _)
      (not_claims_brokenTree false _)
  have differ :
      (brokenDispatcher.resolveCustomRoutePath "/x".toList).toOption ≠
        ((brokenDispatcher.withTree
          (brokenTree false)).resolveCustomRoutePath
            "/x".toList).toOption := by
    decide +kernel
  exact differ same

/-- The condition of the files of `a`, when the file breaks. -/
theorem cannotBreak_iff_brokenTree :
    brokenDispatcher.CannotBreak noPages "a".toList (brokenTree false) ↔
      (∀ path, ¬ brokenDispatcher.Claims "a".toList path →
        ¬ (brokenDispatcher.withTree (brokenTree false)).Claims "a".toList
          path →
        brokenDispatcher.ReachesSkill "a".toList path →
          (brokenDispatcher.LoadsRoutes "a".toList ↔
            (brokenDispatcher.withTree (brokenTree false)).LoadsRoutes
              "a".toList)) ∧
        (brokenDispatcher.OthersLoadNav noPages "a".toList →
          (brokenDispatcher.LoadsNav noPages "a".toList ↔
            (brokenDispatcher.withTree (brokenTree false)).LoadsNav noPages
              "a".toList)) :=
  cannotBreak_iff brokenDispatcher noPages "a".toList (brokenTree false)
    sameRest_brokenTree

end Dispatcher

end DeveloperDashboard.Skills
