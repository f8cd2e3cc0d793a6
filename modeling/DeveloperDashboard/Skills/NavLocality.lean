import DeveloperDashboard.Skills.SkillLayers
import Mathlib.Data.List.Find
import DeveloperDashboard.Skills.SkillRoutes

namespace DeveloperDashboard.Skills

open Library Perl

/-!
# What the navigation pages are read from

Loading asks for the folders of skills, for their markers, and for what is
below their navigation folders.  Trees that agree there give the same pages,
whatever else is in them.
-/

variable {Content Page : Type}

inductive IsSkillsFolder (skillsRoots : List Path) : Path → Prop where
  | root {folder : Path} :
      folder ∈ skillsRoots → IsSkillsFolder skillsRoots folder
  | nested {folder : Path} {name : Text} :
      IsSkillsFolder skillsRoots folder →
      IsSkillsFolder skillsRoots
        (PathRegistry.nestedRoot (folder ++ [name]))

def IsSkillDir (skillsRoots : List Path) (dir : Path) : Prop :=
  ∃ folder name, IsSkillsFolder skillsRoots folder ∧ dir = folder ++ [name]

inductive IsNavPath (skillsRoots : List Path) : Path → Prop where
  | skillsFolder {folder : Path} :
      IsSkillsFolder skillsRoots folder → IsNavPath skillsRoots folder
  | skill {dir : Path} :
      IsSkillDir skillsRoots dir → IsNavPath skillsRoots dir
  | marker {dir : Path} :
      IsSkillDir skillsRoots dir →
      IsNavPath skillsRoots (dir ++ [".disabled".toList])
  | nav {dir path : Path} :
      IsSkillDir skillsRoots dir →
      PathRegistry.navRoot dir <+: path →
      IsNavPath skillsRoots path

def NavAgree (skillsRoots : List Path) (one other : FileTree Text Content) :
    Prop :=
  ∀ path, IsNavPath skillsRoots path →
    one.entries.lookup path = other.entries.lookup path

inductive IsSkillPath (skillsRoots : List Path) : Path → Prop where
  | skillsFolder {folder : Path} :
      IsSkillsFolder skillsRoots folder → IsSkillPath skillsRoots folder
  | skill {dir : Path} :
      IsSkillDir skillsRoots dir → IsSkillPath skillsRoots dir
  | marker {dir : Path} :
      IsSkillDir skillsRoots dir →
      IsSkillPath skillsRoots (dir ++ [".disabled".toList])

def SkillsAgree (skillsRoots : List Path)
    (one other : FileTree Text Content) : Prop :=
  ∀ path, IsSkillPath skillsRoots path →
    one.entries.lookup path = other.entries.lookup path

def AgreeBelow (root : Path) (one other : FileTree Text Content) : Prop :=
  ∀ path, root <+: path →
    one.entries.lookup path = other.entries.lookup path

theorem NavAgree.skills {skillsRoots : List Path}
    {one other : FileTree Text Content}
    (agree : NavAgree skillsRoots one other) :
    SkillsAgree skillsRoots one other := by
  intro path isSkillPath
  cases isSkillPath with
  | skillsFolder isSkills => exact agree _ (.skillsFolder isSkills)
  | skill isSkill => exact agree _ (.skill isSkill)
  | marker isSkill => exact agree _ (.marker isSkill)

variable {dir : Path}

theorem NavAgree.below {skillsRoots : List Path}
    {one other : FileTree Text Content}
    (agree : NavAgree skillsRoots one other)
    (isSkill : IsSkillDir skillsRoots dir) :
    AgreeBelow (PathRegistry.navRoot dir) one other := by
  intro path below
  exact agree path (.nav isSkill below)

theorem insertionSort_eq_of_perm {one other : List Text}
    (same : one.Perm other) :
    one.insertionSort (· ≤ ·) = other.insertionSort (· ≤ ·) :=
  List.Perm.eq_of_pairwise'
    (List.pairwise_insertionSort (· ≤ ·) one)
    (List.pairwise_insertionSort (· ≤ ·) other)
    ((List.perm_insertionSort _ _).trans
      (same.trans (List.perm_insertionSort _ _).symm))

theorem mapM_congr_left
    {Item Result : Type} {first second : Item → Option Result}
    {items : List Item} (same : ∀ item ∈ items, first item = second item) :
    items.mapM first = items.mapM second := by
  induction items with
  | nil => rfl
  | cons item rest ih =>
    obtain ⟨here, later⟩ := List.forall_mem_cons.mp same
    rw [List.mapM_cons, List.mapM_cons, here, ih later]

variable {tree : FileTree Text Content} {layers : List Path}
  {entry : SkillEntry}

namespace PathRegistry

variable {skillsRoots : List Path} {one other : FileTree Text Content}

abbrev registry (skillsRoots : List Path) (tree : FileTree Text Content) :
    PathRegistry Content :=
  ⟨tree, skillsRoots⟩

section

variable (agree : SkillsAgree skillsRoots one other)

include agree

theorem folderNames_agree {folder : Path}
    (isSkills : IsSkillsFolder skillsRoots folder) :
    (registry skillsRoots one).folderNames folder =
      (registry skillsRoots other).folderNames folder := by
  have same (name : Text) :
      one.entries.lookup (folder ++ [name]) =
        other.entries.lookup (folder ++ [name]) :=
    agree _ (.skill ⟨folder, name, isSkills, rfl⟩)
  unfold folderNames
  dsimp only
  refine insertionSort_eq_of_perm ?_
  have folders :
      (one.names folder).filter
          (fun name => one.isFolder (folder ++ [name])) =
        (one.names folder).filter
          fun name => other.isFolder (folder ++ [name]) :=
    List.filter_congr fun name _ => FileTree.isFolder_congr (same name)
  rw [folders]
  exact (FileTree.names_perm same).filter _

theorem isDisabled_agree (isSkill : IsSkillDir skillsRoots dir) :
    (registry skillsRoots one).isDisabled dir =
      (registry skillsRoots other).isDisabled dir :=
  FileTree.isFile_congr (agree _ (.marker isSkill))

theorem isFolder_agree (isSkill : IsSkillDir skillsRoots dir) :
    one.isFolder dir = other.isFolder dir :=
  FileTree.isFolder_congr (agree _ (.skill isSkill))

theorem isFolder_skillsFolder_agree {folder : Path}
    (isSkills : IsSkillsFolder skillsRoots folder) :
    one.isFolder folder = other.isFolder folder :=
  FileTree.isFolder_congr (agree _ (.skillsFolder isSkills))

theorem directoryInventory_agree :
    (registry skillsRoots one).directoryInventory =
      (registry skillsRoots other).directoryInventory := by
  unfold directoryInventory
  dsimp only
  have folders :
      skillsRoots.filter one.isFolder = skillsRoots.filter other.isFolder :=
    List.filter_congr fun root isRoot =>
      isFolder_skillsFolder_agree agree (.root isRoot)
  rw [folders]
  refine List.map_congr_left fun root member => ?_
  rw [folderNames_agree agree (.root (List.mem_filter.mp member).1)]

omit agree in
theorem isSkillDir_of_listed {listed : Text × Path}
    (member :
      listed ∈
        listedRoots (registry skillsRoots one).directoryInventory) :
    IsSkillDir skillsRoots listed.2 := by
  obtain ⟨directory, isDirectory, isIn⟩ := List.mem_flatMap.mp member
  obtain ⟨name, -, rfl⟩ := List.mem_map.mp isIn
  obtain ⟨root, isRoot, rfl⟩ := List.mem_map.mp isDirectory
  exact ⟨root, name, .root (List.mem_filter.mp isRoot).1, rfl⟩

theorem installedSkillEntries_agree :
    (registry skillsRoots one).installedSkillEntries false
        (registry skillsRoots one).directoryInventory =
      (registry skillsRoots other).installedSkillEntries false
        (registry skillsRoots other).directoryInventory := by
  unfold installedSkillEntries
  rw [← directoryInventory_agree agree]
  refine congrArg (List.filterMap visibleEntry) ?_
  refine List.foldl_ext _ _ _ fun entries listed member => ?_
  have marker := isDisabled_agree agree (isSkillDir_of_listed member)
  unfold addEntry newEntry CollectedEntry.addLayer
  rw [marker]

theorem skillLayers_agree_tree (name : Text) :
    (registry skillsRoots one).skillLayers false name =
      (registry skillsRoots other).skillLayers false name := by
  have collected (seen : Bool) (roots : List Path)
      (skills : ∀ root ∈ roots, IsSkillDir skillsRoots root) :
      (registry skillsRoots one).collectLayers false seen roots =
        (registry skillsRoots other).collectLayers false seen roots := by
    induction roots generalizing seen with
    | nil => rfl
    | cons root rest ih =>
      obtain ⟨here, later⟩ := List.forall_mem_cons.mp skills
      rw [collectLayers, collectLayers, isDisabled_agree agree here,
        ih _ later, ih _ later]
      dsimp only
      rw [isFolder_agree agree here]
  unfold skillLayers layersOf
  rw [collected]
  intro root member
  obtain ⟨skillsRoot, isRoot, rfl⟩ := List.mem_map.mp member
  exact ⟨skillsRoot, name, .root isRoot, rfl⟩

theorem descendantSkillNames_agree {root : Path}
    (isSkill : IsSkillDir skillsRoots root) (skillName : Text)
    {fuel otherFuel : Nat} (enough : one.weight root ≤ fuel)
    (otherEnough : other.weight root ≤ otherFuel) :
    (registry skillsRoots one).descendantSkillNames fuel skillName root =
      (registry skillsRoots other).descendantSkillNames otherFuel skillName
        root := by
  have nestedWeight (tree : FileTree Text Content) {dir : Path}
      (isFolder : tree.isFolder (nestedRoot dir) = true) (entry : Text) :
      tree.weight (nestedRoot dir ++ [entry]) + 1 < tree.weight dir := by
    have inner := FileTree.weight_child_lt isFolder entry
    have outer : tree.weight (nestedRoot dir) < tree.weight dir :=
      FileTree.weight_child_lt (FileTree.isFolder_parent isFolder) _
    exact Nat.lt_of_le_of_lt inner outer
  have same := isFolder_agree agree isSkill
  induction fuel generalizing root skillName otherFuel with
  | zero =>
    have absent : one.isFolder root = false :=
      FileTree.not_isFolder_of_weight (Nat.le_zero.mp enough)
    cases otherFuel with
    | zero => rfl
    | succ otherFuel =>
      rw [descendantSkillNames, descendantSkillNames, ← same, absent]
      simp
  | succ fuel ih =>
    cases otherFuel with
    | zero =>
      have absent : other.isFolder root = false :=
        FileTree.not_isFolder_of_weight (Nat.le_zero.mp otherEnough)
      rw [descendantSkillNames, descendantSkillNames, same, absent]
      simp
    | succ otherFuel =>
      obtain ⟨folder, name, isSkills, rfl⟩ := isSkill
      have nested :
          IsSkillsFolder skillsRoots (nestedRoot (folder ++ [name])) :=
        .nested isSkills
      have sameNested := isFolder_skillsFolder_agree agree nested
      rw [descendantSkillNames, descendantSkillNames]
      dsimp only
      rw [same, sameNested, folderNames_agree agree nested]
      split
      · rfl
      · split
        · rfl
        · next notTop notBare =>
            have hasNested :
                other.isFolder (nestedRoot (folder ++ [name])) = true := by
              simpa using notBare
            have child (entry : Text) :
                IsSkillDir skillsRoots
                  (nestedRoot (folder ++ [name]) ++ [entry]) :=
              ⟨_, entry, nested, rfl⟩
            refine congrArg (skillName :: ·)
              (List.flatMap_congr fun entry member => ?_)
            rw [isDisabled_agree agree (child entry)]
            split
            · rfl
            · refine ih (child entry) _ ?_ ?_
                (isFolder_agree agree (child entry))
              · have lighter :=
                  nestedWeight one (sameNested.trans hasNested) entry
                omega
              · have lighter := nestedWeight other hasNested entry
                omega

def AreSkillDirs (skillsRoots layers : List Path) : Prop :=
  ∀ layer ∈ layers, IsSkillDir skillsRoots layer

omit agree in
theorem areSkillDirs_skillLayers (name : Text) :
    AreSkillDirs skillsRoots
      ((registry skillsRoots tree).skillLayers false name) := by
  intro layer member
  unfold skillLayers at member
  split at member
  · contradiction
  · obtain ⟨root, isRoot, rfl⟩ :=
      List.mem_map.mp (mem_of_mem_layersOf member)
    exact ⟨root, name, .root isRoot, rfl⟩

omit agree in
theorem areSkillDirs_nestedLayers {segment : Text}
    (skills : AreSkillDirs skillsRoots layers) :
    AreSkillDirs skillsRoots
      ((registry skillsRoots tree).nestedLayers layers segment) := by
  intro layer member
  obtain ⟨parent, isParent, rfl⟩ :=
    List.mem_map.mp (List.mem_filter.mp member).1
  obtain ⟨folder, name, isSkills, rfl⟩ := skills parent isParent
  exact ⟨_, segment, .nested isSkills, rfl⟩

theorem nestedLayers_agree {segment : Text}
    (skills : AreSkillDirs skillsRoots layers) :
    (registry skillsRoots one).nestedLayers layers segment =
      (registry skillsRoots other).nestedLayers layers segment := by
  refine List.filter_congr fun layer member => ?_
  obtain ⟨parent, isParent, rfl⟩ := List.mem_map.mp member
  obtain ⟨folder, name, isSkills, rfl⟩ := skills parent isParent
  have isSkill :
      IsSkillDir skillsRoots
        (nestedRoot (folder ++ [name]) ++ [segment]) :=
    ⟨_, segment, .nested isSkills, rfl⟩
  rw [isDisabled_agree agree isSkill]
  exact congrArg (· && _) (isFolder_agree agree isSkill)

theorem dispatcherSkillLayers_agree (skillName : Text) :
    (registry skillsRoots one).dispatcherSkillLayers skillName =
        (registry skillsRoots other).dispatcherSkillLayers skillName ∧
      AreSkillDirs skillsRoots
        ((registry skillsRoots one).dispatcherSkillLayers skillName) := by
  have deeper (segments : List Text) {layers : List Path}
      (skills : AreSkillDirs skillsRoots layers) :
      segments.foldl (registry skillsRoots one).nestedLayers layers =
          segments.foldl (registry skillsRoots other).nestedLayers layers ∧
        AreSkillDirs skillsRoots
          (segments.foldl (registry skillsRoots one).nestedLayers layers) := by
    induction segments generalizing layers with
    | nil => exact ⟨rfl, skills⟩
    | cons segment rest ih =>
      rw [List.foldl_cons, List.foldl_cons, ← nestedLayers_agree agree skills]
      exact ih (areSkillDirs_nestedLayers skills)
  unfold dispatcherSkillLayers
  split
  · exact ⟨rfl, List.forall_mem_nil _⟩
  · split
    · exact ⟨rfl, List.forall_mem_nil _⟩
    · next rootSkill nested _ =>
        rw [← skillLayers_agree_tree agree]
        exact deeper nested (areSkillDirs_skillLayers rootSkill)

omit agree in
theorem relativeFiles_agree
    {root : Path} (lookups : AgreeBelow root one other)
    {fuel otherFuel : Nat} (enough : one.weight root ≤ fuel)
    (otherEnough : other.weight root ≤ otherFuel) :
    (registry skillsRoots one).relativeFiles fuel root =
      (registry skillsRoots other).relativeFiles otherFuel root := by
  have same : one.isFolder root = other.isFolder root :=
    FileTree.isFolder_congr (lookups root List.prefix_rfl)
  induction fuel generalizing root otherFuel with
  | zero =>
    have absent := FileTree.not_isFolder_of_weight (Nat.le_zero.mp enough)
    cases otherFuel with
    | zero => rfl
    | succ otherFuel =>
      rw [relativeFiles, relativeFiles, ← same, absent]
      simp
  | succ fuel ih =>
    cases otherFuel with
    | zero =>
      have absent := FileTree.not_isFolder_of_weight (Nat.le_zero.mp otherEnough)
      rw [relativeFiles, relativeFiles, same, absent]
      simp
    | succ otherFuel =>
      rw [relativeFiles, relativeFiles]
      dsimp only
      rw [same]
      split
      · rfl
      · next notAbsent =>
          have isFolder : other.isFolder root = true := by
            simpa using notAbsent
          have names :
              (registry skillsRoots one).sortedNames root =
                (registry skillsRoots other).sortedNames root :=
            insertionSort_eq_of_perm (FileTree.names_perm fun name =>
              lookups _ (List.prefix_append root [name]))
          rw [names]
          refine List.flatMap_congr fun entry _ => ?_
          have inside := List.prefix_append root [entry]
          have sameEntry := lookups _ inside
          rw [FileTree.isFolder_congr sameEntry,
            FileTree.isFile_congr sameEntry]
          split
          · refine congrArg (List.map _)
              (ih
                (fun path deeper => lookups path (inside.trans deeper))
                ?_ ?_ (FileTree.isFolder_congr sameEntry))
            · have lighter :=
                FileTree.weight_child_lt (same.trans isFolder) entry
              omega
            · have lighter := FileTree.weight_child_lt isFolder entry
              omega
          · rfl

omit agree in
theorem navRoutes_agree
    (below : ∀ layer ∈ layers, AgreeBelow (navRoot layer) one other) :
    (registry skillsRoots one).navRoutes layers =
      (registry skillsRoots other).navRoutes layers := by
  unfold navRoutes
  refine congrArg (fun routes : List Text => routes.dedup.insertionSort (· ≤ ·))
    (List.flatMap_congr fun layer member => ?_)
  exact relativeFiles_agree (below layer (List.mem_reverse.mp member))
    (Nat.le_refl _) (Nat.le_refl _)

variable (reader : NavReader Content Page)

omit agree in
theorem loadNavPage_agree
    (below : ∀ layer ∈ layers, AgreeBelow (navRoot layer) one other)
    (skillName file : Text) :
    (registry skillsRoots one).loadNavPage reader skillName layers file =
      (registry skillsRoots other).loadNavPage reader skillName layers
        file := by
  have lookups (layer : Path) (member : layer ∈ layers) :
      one.entries.lookup
          (navRoot layer ++ validatedPathSegments file) =
        other.entries.lookup
          (navRoot layer ++ validatedPathSegments file) :=
    below layer member _ (List.prefix_append _ _)
  have found :
      (layers.reverse.find? fun layer =>
          one.isFile (navRoot layer ++ validatedPathSegments file)) =
        layers.reverse.find? fun layer =>
          other.isFile (navRoot layer ++ validatedPathSegments file) :=
    List.find?_congr fun layer member =>
      FileTree.isFile_congr (lookups layer (List.mem_reverse.mp member))
  unfold loadNavPage
  dsimp only
  split
  · rfl
  · rw [found]
    cases shown :
        layers.reverse.find? fun layer =>
          other.isFile (navRoot layer ++ validatedPathSegments file) with
    | none => rfl
    | some layer =>
      have member := List.mem_reverse.mp (List.mem_of_find?_eq_some shown)
      rw [Option.bind_some, Option.bind_some,
        FileTree.content?_congr (lookups layer member)]

omit agree in
theorem navPagesForLayers_agree
    (below : ∀ layer ∈ layers, AgreeBelow (navRoot layer) one other)
    (skillName : Text) :
    (registry skillsRoots one).navPagesForLayers reader skillName layers =
      (registry skillsRoots other).navPagesForLayers reader skillName
        layers := by
  unfold navPagesForLayers
  rw [navRoutes_agree below,
    funext (loadNavPage_agree reader below skillName)]

omit agree in
theorem areSkillDirs_entry
    (member : entry ∈ (registry skillsRoots tree).entries false) :
    AreSkillDirs skillsRoots entry.layers ∧
      IsSkillDir skillsRoots entry.skillRoot := by
  obtain ⟨layers, -, deepest⟩ := mem_entries_iff.mp member
  have skills : AreSkillDirs skillsRoots entry.layers := by
    intro layer isLayer
    rw [layers] at isLayer
    obtain ⟨root, isRoot, rfl⟩ :=
      List.mem_map.mp (List.mem_filter.mp (mem_of_mem_layersOf isLayer)).1
    exact ⟨root, _, .root isRoot, rfl⟩
  exact ⟨skills, skills _ (List.mem_of_getLast? deepest)⟩

theorem navSkills_agree (isSkill : IsSkillDir skillsRoots entry.skillRoot) :
    (registry skillsRoots one).navSkills entry =
      (registry skillsRoots other).navSkills entry := by
  unfold navSkills
  rw [descendantSkillNames_agree agree isSkill _ (Nat.le_refl _)
      (Nat.le_refl _)]
  refine List.map_congr_left fun skillName _ => ?_
  rw [(dispatcherSkillLayers_agree agree skillName).1]

theorem areSkillDirs_navSkills
    (member : entry ∈ (registry skillsRoots one).entries false)
    {skill : Text × List Path}
    (isSkill : skill ∈ (registry skillsRoots one).navSkills entry) :
    AreSkillDirs skillsRoots skill.2 := by
  obtain ⟨skillName, -, rfl⟩ := List.mem_map.mp isSkill
  dsimp only
  split
  · exact (areSkillDirs_entry member).1
  · exact (dispatcherSkillLayers_agree agree skillName).2

end

theorem loadNav_agree (reader : NavReader Content Page)
    (agree : NavAgree skillsRoots one other) :
    (registry skillsRoots one).loadNav reader =
      (registry skillsRoots other).loadNav reader := by
  have sameEntries := installedSkillEntries_agree agree.skills
  have sameSkills (entry : SkillEntry)
      (member : entry ∈ (registry skillsRoots one).entries false) :=
    navSkills_agree agree.skills (areSkillDirs_entry member).2
  have samePages (skill : Text × List Path)
      (member :
        skill ∈
          ((registry skillsRoots one).entries false).flatMap
            (registry skillsRoots one).navSkills) :
      (registry skillsRoots one).navPagesForLayers reader skill.1 skill.2 =
        (registry skillsRoots other).navPagesForLayers reader skill.1
          skill.2 := by
    obtain ⟨entry, isEntry, isSkill⟩ := List.mem_flatMap.mp member
    have dirs := areSkillDirs_navSkills agree.skills isEntry isSkill
    exact navPagesForLayers_agree reader
      (fun layer isLayer => agree.below (dirs layer isLayer)) skill.1
  unfold loadNav
  dsimp only
  rw [← sameEntries]
  split
  · rfl
  · rw [← List.flatMap_congr sameSkills, mapM_congr_left samePages]
    refine congrArg (Option.map · _) (funext fun pages => ?_)
    refine congrArg (LoadedNav.mk _ _) (List.flatMap_congr ?_)
    intro entry member
    rw [sameSkills entry member]

end PathRegistry

open Config

/-!
# Searches that may die

The search for a path asks one skill after the other.  What it finds depends
on a skill that does not have the path in one way only: whether that skill's
routes can be loaded.
-/

namespace Dispatcher

variable {Item : Type} {search : Item → Except Text (Option RouteSpec)}

theorem findFirst_append_of_none {front back : List Item}
    (nothing : findFirst search front = .ok none) :
    findFirst search (front ++ back) = findFirst search back := by
  induction front with
  | nil => rfl
  | cons item rest ih =>
    rw [findFirst] at nothing
    rw [List.cons_append, findFirst]
    cases found : search item with
    | error reason =>
      rw [found] at nothing
      cases nothing
    | ok result =>
      rw [found, Except.bind] at nothing
      cases result with
      | some spec => cases nothing
      | none => exact ih nothing

theorem findFirst_append_of_ne_none {front : List Item} (back : List Item)
    (ended : findFirst search front ≠ .ok none) :
    findFirst search (front ++ back) = findFirst search front := by
  induction front with
  | nil => exact absurd rfl ended
  | cons item rest ih =>
    rw [findFirst] at ended ⊢
    rw [List.cons_append, findFirst]
    cases found : search item with
    | error reason => rfl
    | ok result =>
      rw [found, Except.bind] at ended
      cases result with
      | some spec => rfl
      | none => exact ih ended

theorem findFirst_congr
    {other : Item → Except Text (Option RouteSpec)} {items : List Item}
    (same : ∀ item ∈ items, search item = other item) :
    findFirst search items = findFirst other items := by
  induction items with
  | nil => rfl
  | cons item rest ih =>
    obtain ⟨here, later⟩ := List.forall_mem_cons.mp same
    rw [findFirst, findFirst, here, ih later]

theorem findFirst_filter (keep : Item → Bool) {items : List Item}
    (nothing :
      ∀ item ∈ items, keep item = false → search item = .ok none) :
    findFirst search (items.filter keep) = findFirst search items := by
  induction items with
  | nil => rfl
  | cons item rest ih =>
    obtain ⟨here, later⟩ := List.forall_mem_cons.mp nothing
    rw [List.filter_cons, findFirst]
    split
    · rw [findFirst, ih later]
    · next isLeftOut =>
        rw [here (by simpa using isLeftOut)]
        exact ih later

theorem findFirst_of_quiet {items : List Item}
    (quiet :
      ∀ item ∈ items,
        search item = .ok none ∨ ∃ reason, search item = .error reason) :
    (findFirst search items = .ok none ↔
        ∀ item ∈ items, search item = .ok none) ∧
      (findFirst search items = .ok none ∨
        ∃ reason, findFirst search items = .error reason) := by
  induction items with
  | nil => exact ⟨by simp [findFirst], .inl rfl⟩
  | cons item rest ih =>
    obtain ⟨here, later⟩ := List.forall_mem_cons.mp quiet
    rw [findFirst, List.forall_mem_cons]
    rcases here with nothing | ⟨reason, died⟩
    · rw [nothing, Except.bind]
      simpa using ih later
    · rw [died, Except.bind]
      simp

section

variable [DecidableEq Item]

def before (one : Item) (items : List Item) : List Item :=
  items.takeWhile fun item => decide (item ≠ one)

def after (one : Item) (items : List Item) : List Item :=
  (items.dropWhile fun item => decide (item ≠ one)).filter fun item =>
    decide (item ≠ one)

theorem ne_of_mem_before {one item : Item} {items : List Item}
    (isBefore : item ∈ before one items) : item ≠ one := by
  unfold before at isBefore
  simpa using List.mem_takeWhile_imp isBefore

theorem ne_of_mem_after {one item : Item} {items : List Item}
    (isAfter : item ∈ after one items) : item ≠ one :=
  of_decide_eq_true (List.mem_filter.mp isAfter).2

theorem findFirst_of_before {one : Item} {items : List Item}
    (ended : findFirst search (before one items) ≠ .ok none) :
    findFirst search items = findFirst search (before one items) := by
  have whole :
      before one items ++
        items.dropWhile (fun item => decide (item ≠ one)) = items :=
    List.takeWhile_append_dropWhile
  rw [← findFirst_append_of_ne_none _ ended, whole]

theorem findFirst_of_passes {one : Item} {items : List Item}
    (nothing : findFirst search (before one items) = .ok none)
    (quiet : search one = .ok none) :
    findFirst search items = findFirst search (after one items) := by
  have whole :
      before one items ++
        items.dropWhile (fun item => decide (item ≠ one)) = items :=
    List.takeWhile_append_dropWhile
  conv_lhs => rw [← whole, findFirst_append_of_none nothing]
  unfold after
  rw [findFirst_filter]
  intro item _ isOne
  obtain rfl : item = one := by simpa using isOne
  exact quiet

theorem findFirst_of_dies {one : Item} {items : List Item} {reason : Text}
    (nothing : findFirst search (before one items) = .ok none)
    (isIn : one ∈ items) (died : search one = .error reason) :
    findFirst search items = .error reason := by
  have whole :
      before one items ++
        items.dropWhile (fun item => decide (item ≠ one)) = items :=
    List.takeWhile_append_dropWhile
  conv_lhs => rw [← whole, findFirst_append_of_none nothing]
  cases rest : items.dropWhile fun item => decide (item ≠ one) with
  | nil =>
    have never := List.dropWhile_eq_nil_iff.mp rest one isIn
    simp at never
  | cons first later =>
    have stops := List.head?_dropWhile_not
      (fun item => decide (item ≠ one)) items
    rw [rest] at stops
    obtain rfl : first = one := by simpa using stops
    rw [findFirst, died]
    rfl

end

end Dispatcher

end DeveloperDashboard.Skills
