import DeveloperDashboard.Skills.InstalledSkills

namespace DeveloperDashboard.Skills

open Library Perl

/-!
# The lookups of skill layers

A lookup, fresh or in a scope, and the enumerations go over the same
directories of a name.  They differ in how they remember that the deepest one
is disabled.
-/

variable {Content : Type} {paths : PathRegistry Content}
variable {includeDisabled : Bool} {name : Text}

variable {roots rest : List Path} {root layer : Path} {entry : CollectedEntry}

namespace PathRegistry

theorem mem_folderNames_iff {folder : Path} :
    name ∈ paths.folderNames folder ↔
      paths.tree.isFolder (folder ++ [name]) = true := by
  rw [folderNames, List.mem_insertionSort, List.mem_filter]
  exact and_iff_right_of_imp FileTree.mem_names_of_isFolder

theorem nodup_folderNames (paths : PathRegistry Content) (folder : Path) :
    (paths.folderNames folder).Nodup := by
  rw [folderNames, (List.perm_insertionSort _ _).nodup_iff]
  exact (FileTree.nodup_names paths.tree folder).filter _

theorem hasName_inventory {directory : SkillsDirectory}
    (member : directory ∈ paths.directoryInventory) :
    directory.hasName name =
      paths.tree.isFolder (directory.skillsRoot ++ [name]) := by
  obtain ⟨root, -, rfl⟩ := List.mem_map.mp member
  rw [SkillsDirectory.hasName, Bool.eq_iff_iff, List.any_eq_true,
    ← mem_folderNames_iff]
  constructor
  · rintro ⟨other, isIn, same⟩
    rw [← of_decide_eq_true same]
    exact isIn
  · exact fun isIn => ⟨name, isIn, decide_eq_true rfl⟩

def rootsOf (paths : PathRegistry Content) (name : Text) : List Path :=
  (paths.skillsRoots.map fun root => root ++ [name]).filter
    paths.tree.isFolder

theorem roots_inventory :
    ((paths.directoryInventory.filter fun directory =>
        directory.hasName name).map fun directory =>
      directory.skillsRoot ++ [name]) =
      paths.rootsOf name := by
  have filtered :
      (paths.directoryInventory.filter fun directory =>
          directory.hasName name) =
        paths.directoryInventory.filter fun directory =>
          paths.tree.isFolder (directory.skillsRoot ++ [name]) :=
    List.filter_congr fun directory member => hasName_inventory member
  rw [filtered, directoryInventory, rootsOf, List.filter_map,
    List.map_map, List.filter_map, List.filter_filter]
  refine congrArg (List.map _) (List.filter_congr fun root _ => ?_)
  rw [Bool.eq_iff_iff, Bool.and_eq_true]
  exact and_iff_left_of_imp FileTree.isFolder_parent

/-- Whether a layer takes part once the deepest one is seen. -/
def takesPart
    (paths : PathRegistry Content) (includeDisabled : Bool) (root : Path) :
    Bool :=
  includeDisabled || !paths.isDisabled root

theorem collectLayers_filter (sawEffective : Bool) (roots : List Path) :
    paths.collectLayers includeDisabled sawEffective
        (roots.filter paths.tree.isFolder) =
      paths.collectLayers includeDisabled sawEffective roots := by
  induction roots generalizing sawEffective with
  | nil => rfl
  | cons root rest ih =>
    rw [List.filter_cons]
    cases isFolder : paths.tree.isFolder root with
    | true =>
      rw [if_pos rfl]
      simp only [collectLayers, isFolder, ih]
    | false =>
      rw [if_neg Bool.false_ne_true]
      simp only [collectLayers, isFolder, ih]
      rfl

theorem collectLayers_true
    (folders : ∀ root ∈ roots, paths.tree.isFolder root = true) :
    paths.collectLayers includeDisabled true roots =
      some (roots.filter (paths.takesPart includeDisabled)) := by
  induction roots with
  | nil => rfl
  | cons root rest ih =>
    obtain ⟨here, later⟩ := List.forall_mem_cons.mp folders
    rw [List.filter_cons, takesPart]
    simp only [collectLayers, here, ih later]
    cases includeDisabled <;> cases paths.isDisabled root <;> rfl

theorem layersOf_cons
    (folders : ∀ other ∈ root :: rest, paths.tree.isFolder other = true) :
    paths.layersOf includeDisabled (root :: rest) =
      if paths.takesPart includeDisabled root then
        (root :: rest.filter (paths.takesPart includeDisabled)).reverse
      else [] := by
  obtain ⟨here, later⟩ := List.forall_mem_cons.mp folders
  unfold layersOf takesPart
  simp only [collectLayers, here, collectLayers_true later]
  cases includeDisabled <;> cases paths.isDisabled root <;> rfl

theorem mem_of_mem_collectLayers {sawEffective : Bool} {layers : List Path}
    (found :
      paths.collectLayers includeDisabled sawEffective roots = some layers)
    (member : layer ∈ layers) :
    layer ∈ roots := by
  induction roots generalizing sawEffective layers with
  | nil =>
    obtain rfl := Option.some.inj found
    exact member
  | cons root rest ih =>
    rw [collectLayers] at found
    split at found
    · exact List.mem_cons_of_mem _ (ih found member)
    · split at found
      · contradiction
      · split at found
        · exact List.mem_cons_of_mem _ (ih found member)
        · obtain ⟨later, foundLater, rfl⟩ := Option.map_eq_some_iff.mp found
          rcases List.mem_cons.mp member with rfl | isLater
          · exact List.mem_cons_self
          · exact List.mem_cons_of_mem _
              (ih foundLater isLater)

theorem mem_of_mem_layersOf
    (member : layer ∈ paths.layersOf includeDisabled roots) :
    layer ∈ roots := by
  rw [layersOf, List.mem_reverse] at member
  cases found : paths.collectLayers includeDisabled false roots with
  | none =>
    rw [found] at member
    contradiction
  | some layers =>
    rw [found] at member
    exact mem_of_mem_collectLayers found member

theorem isDisabled_of_mem_collectLayers
    {sawEffective : Bool} {layers : List Path}
    (found : paths.collectLayers false sawEffective roots = some layers)
    (member : layer ∈ layers) :
    paths.isDisabled layer = false := by
  induction roots generalizing sawEffective layers with
  | nil =>
    obtain rfl := Option.some.inj found
    contradiction
  | cons root rest ih =>
    rw [collectLayers] at found
    split at found
    · exact ih found member
    · split at found
      · contradiction
      · split at found
        · exact ih found member
        · next enabled =>
            obtain ⟨later, foundLater, rfl⟩ :=
              Option.map_eq_some_iff.mp found
            rcases List.mem_cons.mp member with rfl | isLater
            · simpa using enabled
            · exact ih foundLater isLater

theorem isFolder_rootsOf (member : root ∈ paths.rootsOf name) :
    paths.tree.isFolder root = true :=
  (List.mem_filter.mp member).2

def skillLayersOf
    (paths : PathRegistry Content) (includeDisabled : Bool) (name : Text) :
    List Path :=
  paths.layersOf includeDisabled (paths.rootsOf name)

theorem skillLayers_eq (valid : (validatedPathSegments name).length = 1) :
    paths.skillLayers includeDisabled name =
      paths.skillLayersOf includeDisabled name := by
  rw [skillLayers, if_neg (not_not.mpr valid), skillLayersOf, layersOf,
    layersOf, rootsOf, collectLayers_filter]

namespace InventoryScope

variable (scope : InventoryScope paths)

theorem directoryInventory_fst :
    scope.directoryInventory.1 = paths.directoryInventory := by
  unfold directoryInventory
  split
  · next cached found => exact scope.directories_eq cached found
  · rfl

theorem nameSegments_fst :
    (scope.nameSegments name).1 = validatedPathSegments name := by
  unfold nameSegments
  split
  · next cached found => exact scope.segments_eq name cached found
  · dsimp only
    split
    · rfl
    · rfl

theorem skillLayers_fst :
    (scope.skillLayers includeDisabled name).1 =
      paths.skillLayers includeDisabled name := by
  unfold skillLayers
  by_cases empty : name = []
  · subst empty
    rfl
  · rw [if_neg empty]
    dsimp only
    rw [nameSegments_fst]
    by_cases valid : (validatedPathSegments name).length = 1
    · rw [if_neg (not_not.mpr valid), directoryInventory_fst,
        roots_inventory, skillLayers_eq valid]
      rfl
    · rw [if_pos valid, PathRegistry.skillLayers, if_pos valid]

end InventoryScope

def collectedEntries
    (paths : PathRegistry Content) (includeDisabled : Bool) :
    Entries Text CollectedEntry :=
  (listedRoots paths.directoryInventory).foldl
    (paths.addEntry includeDisabled) []

theorem nodup_collectedEntries :
    ((paths.collectedEntries includeDisabled).map Prod.fst).Nodup :=
  Entries.nodup_foldl_upsert _ _ _ List.nodup_nil

theorem filter_names {directory : SkillsDirectory}
    (distinct : directory.names.Nodup) :
    ((directory.names.map fun other =>
          (other, directory.skillsRoot ++ [other])).filter fun listed =>
        decide (listed.1 = name)) =
      if directory.hasName name then
        [(name, directory.skillsRoot ++ [name])]
      else [] := by
  have single :
      (directory.names.filter fun other => decide (other = name)) =
        if directory.hasName name then [name] else [] := by
    have has : directory.hasName name = decide (name ∈ directory.names) := by
      rw [SkillsDirectory.hasName, Bool.eq_iff_iff, List.any_eq_true]
      simp
    rw [List.filter_eq, distinct.count, has]
    by_cases member : name ∈ directory.names <;> simp [member]
  rw [List.filter_map, Function.comp_def, single]
  split <;> rfl

theorem filter_listedRoots :
    ((listedRoots paths.directoryInventory).filter fun listed =>
        decide (listed.1 = name)) =
      (paths.rootsOf name).map (Prod.mk name) := by
  have distinct (directory : SkillsDirectory)
      (member : directory ∈ paths.directoryInventory) :
      directory.names.Nodup := by
    obtain ⟨root, -, rfl⟩ := List.mem_map.mp member
    exact nodup_folderNames paths root
  rw [← roots_inventory, List.map_map, listedRoots, List.filter_flatMap]
  revert distinct
  generalize paths.directoryInventory = directories
  intro distinct
  induction directories with
  | nil => rfl
  | cons directory rest ih =>
    obtain ⟨here, later⟩ := List.forall_mem_cons.mp distinct
    rw [List.flatMap_cons, filter_names here, ih later, List.filter_cons]
    split <;> rfl

theorem foldl_addLayer :
    roots.foldl
        (fun entry root => entry.addLayer paths includeDisabled root)
        entry =
      if entry.masked then entry
      else
        { entry with
          layers :=
            entry.layers ++
              roots.filter (paths.takesPart includeDisabled) } := by
  induction roots generalizing entry with
  | nil => simp
  | cons root rest ih =>
    rw [List.foldl_cons, ih, List.filter_cons,
      CollectedEntry.addLayer, takesPart]
    cases masked : entry.masked with
    | true => simp [masked]
    | false =>
      cases includeDisabled <;>
        cases paths.isDisabled root <;> simp [masked]

theorem foldl_some :
    (roots.map (Prod.mk name)).foldl
        (fun found listed =>
          some
            ((found.getD
              (paths.newEntry includeDisabled listed.2)).addLayer paths
                includeDisabled listed.2))
        (some entry) =
      some
        (roots.foldl
          (fun entry root => entry.addLayer paths includeDisabled root)
          entry) := by
  induction roots generalizing entry with
  | nil => rfl
  | cons root rest ih =>
    exact ih

theorem lookup_collectedEntries :
    (paths.collectedEntries includeDisabled).lookup name =
      ((paths.rootsOf name).map (Prod.mk name)).foldl
        (fun found listed =>
          some
            ((found.getD
              (paths.newEntry includeDisabled listed.2)).addLayer paths
                includeDisabled listed.2))
        none := by
  rw [← filter_listedRoots]
  exact Entries.lookup_foldl_upsert Prod.fst
    (fun listed found =>
      (found.getD (paths.newEntry includeDisabled listed.2)).addLayer paths
        includeDisabled listed.2)
    _ _ _

theorem lookup_collectedEntries_of_cons
    (roots : paths.rootsOf name = root :: rest) :
    (paths.collectedEntries includeDisabled).lookup name =
      some
        ⟨root, (paths.skillLayersOf includeDisabled name).reverse,
          !paths.takesPart includeDisabled root⟩ := by
  have folders :
      ∀ other ∈ root :: rest, paths.tree.isFolder other = true := by
    intro other member
    rw [← roots] at member
    exact isFolder_rootsOf member
  rw [lookup_collectedEntries, skillLayersOf, roots, layersOf_cons folders,
    List.map_cons, List.foldl_cons, foldl_some, foldl_addLayer]
  unfold newEntry CollectedEntry.addLayer takesPart
  cases includeDisabled <;> cases paths.isDisabled root <;> simp

theorem lookup_collectedEntries_of_nil (roots : paths.rootsOf name = []) :
    (paths.collectedEntries includeDisabled).lookup name = none := by
  rw [lookup_collectedEntries, roots]
  rfl

theorem skillLayersOf_of_cons (roots : paths.rootsOf name = root :: rest) :
    paths.skillLayersOf includeDisabled name =
      if paths.takesPart includeDisabled root then
        (root :: rest.filter (paths.takesPart includeDisabled)).reverse
      else [] := by
  rw [skillLayersOf, roots]
  refine layersOf_cons fun other member => ?_
  rw [← roots] at member
  exact isFolder_rootsOf member

abbrev entries (paths : PathRegistry Content) (includeDisabled : Bool) :
    List SkillEntry :=
  paths.installedSkillEntries includeDisabled paths.directoryInventory

theorem getLast?_skillLayersOf (roots : paths.rootsOf name = root :: rest)
    (some_ : paths.skillLayersOf includeDisabled name ≠ []) :
    (paths.skillLayersOf includeDisabled name).getLast? = some root := by
  rw [skillLayersOf_of_cons roots] at some_ ⊢
  split at some_
  · next takes => rw [if_pos takes, List.getLast?_reverse, List.head?_cons]
  · contradiction

theorem mem_entries_iff {entry : SkillEntry} :
    entry ∈ paths.entries includeDisabled ↔
      entry.layers = paths.skillLayersOf includeDisabled entry.skillName ∧
        entry.layers ≠ [] ∧
        entry.layers.getLast? = some entry.skillRoot := by
  change entry ∈
    (paths.collectedEntries includeDisabled).filterMap visibleEntry ↔ _
  rw [List.mem_filterMap]
  constructor
  · rintro ⟨⟨name, collected⟩, member, visible⟩
    have found := Entries.lookup_of_mem nodup_collectedEntries member
    cases roots : paths.rootsOf name with
    | nil =>
      rw [lookup_collectedEntries_of_nil roots] at found
      contradiction
    | cons root rest =>
      rw [lookup_collectedEntries_of_cons roots, Option.some.injEq] at found
      subst found
      unfold visibleEntry at visible
      split at visible
      · contradiction
      · next some_ =>
          rw [Option.some.injEq] at visible
          subst visible
          have nonempty :
              paths.skillLayersOf includeDisabled name ≠ [] :=
            fun none_ => some_ (List.reverse_eq_nil_iff.mpr none_)
          refine ⟨List.reverse_reverse _, ?_, ?_⟩
          · rw [List.reverse_reverse]
            exact nonempty
          · rw [List.reverse_reverse]
            exact getLast?_skillLayersOf roots nonempty
  · rintro ⟨layers, some_, deepest⟩
    cases roots : paths.rootsOf entry.skillName with
    | nil =>
      rw [layers, skillLayersOf, roots] at some_
      exact absurd rfl some_
    | cons root rest =>
      have nonempty :
          paths.skillLayersOf includeDisabled entry.skillName ≠ [] := by
        rw [← layers]
        exact some_
      refine ⟨_, Entries.mem_of_lookup
        (lookup_collectedEntries_of_cons roots), ?_⟩
      rw [layers, getLast?_skillLayersOf roots nonempty,
        Option.some.injEq] at deepest
      unfold visibleEntry
      rw [if_neg fun none_ =>
        nonempty (List.reverse_eq_nil_iff.mp none_)]
      rw [List.reverse_reverse, ← layers, deepest]

theorem skillName_of_visible
    {collected : Text × CollectedEntry} {entry : SkillEntry}
    (visible : visibleEntry collected = some entry) :
    entry.skillName = collected.1 := by
  unfold visibleEntry at visible
  split at visible
  · contradiction
  · rw [← Option.some.inj visible]

theorem nodup_entries :
    ((paths.entries includeDisabled).map SkillEntry.skillName).Nodup := by
  have sublist (collected : Entries Text CollectedEntry) :
      ((collected.filterMap visibleEntry).map SkillEntry.skillName).Sublist
        (collected.map Prod.fst) := by
    induction collected with
    | nil => exact .slnil
    | cons first rest ih =>
      cases visible : visibleEntry first with
      | none =>
        rw [List.filterMap_cons_none visible]
        exact ih.cons _
      | some entry =>
        rw [List.filterMap_cons_some visible, List.map_cons,
          skillName_of_visible visible]
        exact ih.cons_cons _
  exact nodup_collectedEntries.sublist (sublist _)

structure SideBySide
    (found : List Text × List Path)
    (collected : Entries Text CollectedEntry) :
    Prop where
  names : found.1 = collected.map Prod.fst
  roots :
    found.2 =
      (collected.filterMap visibleEntry).map SkillEntry.skillRoot
  filled :
    ∀ entry ∈ collected, entry.2.masked = false → entry.2.layers ≠ []

theorem skillRoot_addLayer
    (filled : entry.masked = false → entry.layers ≠ []) :
    (visibleEntry
          (name, entry.addLayer paths includeDisabled root)).map
        SkillEntry.skillRoot =
      (visibleEntry (name, entry)).map SkillEntry.skillRoot := by
  unfold CollectedEntry.addLayer
  split
  · rfl
  · next unmasked =>
      split
      · rfl
      · have some_ := filled (Bool.eq_false_iff.mpr unmasked)
        unfold visibleEntry
        rw [if_neg some_, if_neg (by simp)]
        rfl

theorem filled_addLayer (filled : entry.masked = false → entry.layers ≠ []) :
    (entry.addLayer paths includeDisabled root).masked = false →
      (entry.addLayer paths includeDisabled root).layers ≠ [] := by
  unfold CollectedEntry.addLayer
  split
  · exact filled
  · split
    · exact filled
    · exact fun _ => List.append_ne_nil_of_right_ne_nil _ (by simp)

theorem newEntry_addLayer (root : Path) :
    (paths.newEntry includeDisabled root).addLayer paths includeDisabled
        root =
      if paths.takesPart includeDisabled root then ⟨root, [root], false⟩
      else ⟨root, [], true⟩ := by
  unfold newEntry CollectedEntry.addLayer takesPart
  cases includeDisabled <;> cases paths.isDisabled root <;> rfl

/-- One directory takes both enumerations on. -/
theorem SideBySide.step {found : List Text × List Path}
    {collected : Entries Text CollectedEntry}
    (together : SideBySide found collected) (listed : Text × Path) :
    SideBySide (paths.addRoot includeDisabled found listed)
      (paths.addEntry includeDisabled collected listed) := by
  obtain ⟨name, root⟩ := listed
  have seen :
      (found.1.any fun other => decide (other = name)) =
        decide (name ∈ collected.map Prod.fst) := by
    rw [together.names, Bool.eq_iff_iff, List.any_eq_true]
    simp
  unfold addRoot addEntry Entries.upsert
  dsimp only
  rw [seen]
  cases known : collected.lookup name with
  | some entry =>
    have member := Entries.mem_of_lookup known
    have isKey : name ∈ collected.map Prod.fst :=
      List.mem_map.mpr ⟨_, member, rfl⟩
    obtain ⟨front, back, whole, stored⟩ :=
      Entries.exists_store_of_lookup known
    rw [decide_eq_true isKey, if_pos rfl, Option.getD_some]
    constructor
    · rw [together.names, Entries.map_fst_store, if_pos isKey]
    · rw [together.roots, stored, whole, List.map_filterMap,
        List.map_filterMap, List.filterMap_append, List.filterMap_append,
        List.filterMap_cons, List.filterMap_cons,
        skillRoot_addLayer (together.filled _ member)]
    · intro other isIn
      rcases Entries.mem_store isIn with before | rfl
      · exact together.filled other before
      · exact filled_addLayer (together.filled _ member)
  | none =>
    have notKey : name ∉ collected.map Prod.fst :=
      (Entries.lookup_eq_none_iff _ _).mp known
    rw [decide_eq_false notKey, if_neg Bool.false_ne_true,
      Option.getD_none, Entries.store_of_lookup_eq_none known,
      newEntry_addLayer]
    constructor
    · rw [List.map_append, ← together.names]
      split <;> rfl
    · rw [List.filterMap_append, List.map_append, ← together.roots]
      unfold takesPart
      cases includeDisabled <;> cases paths.isDisabled root <;>
        simp [visibleEntry]
    · intro other isIn
      rcases List.mem_append.mp isIn with before | last
      · exact together.filled other before
      · rw [List.mem_singleton.mp last]
        dsimp only
        split
        · exact fun _ => List.cons_ne_nil _ _
        · exact fun masked => absurd masked Bool.noConfusion

theorem roots_eq_map_entries :
    paths.installedSkillRoots includeDisabled paths.directoryInventory =
      (paths.entries includeDisabled).map SkillEntry.skillRoot := by
  have together (listed : List (Text × Path))
      (found : List Text × List Path)
      (collected : Entries Text CollectedEntry)
      (initially : SideBySide found collected) :
      SideBySide (listed.foldl (paths.addRoot includeDisabled) found)
        (listed.foldl (paths.addEntry includeDisabled) collected) := by
    induction listed generalizing found collected with
    | nil => exact initially
    | cons first rest ih =>
      exact ih _ _ (initially.step first)
  exact (together _ ([], []) [] ⟨rfl, rfl, nofun⟩).roots

theorem getLast?_skillRoot {entry : SkillEntry}
    (member : entry ∈ paths.entries includeDisabled) :
    entry.skillRoot.getLast? = some entry.skillName := by
  obtain ⟨layers, some_, deepest⟩ := mem_entries_iff.mp member
  cases roots : paths.rootsOf entry.skillName with
  | nil =>
    rw [layers, skillLayersOf, roots] at some_
    exact absurd rfl some_
  | cons root rest =>
    rw [layers] at some_ deepest
    rw [getLast?_skillLayersOf roots some_, Option.some.injEq] at deepest
    have isRoot : root ∈ paths.rootsOf entry.skillName := by
      rw [roots]
      exact List.mem_cons_self
    obtain ⟨skillsRoot, -, same⟩ :=
      List.mem_map.mp (List.mem_filter.mp isRoot).1
    rw [← deepest, ← same, List.getLast?_concat]

theorem nodup_installedSkillRoots :
    (paths.installedSkillRoots includeDisabled
      paths.directoryInventory).Nodup := by
  rw [roots_eq_map_entries]
  refine List.Nodup.of_map List.getLast? ?_
  have lasts :
      ((paths.entries includeDisabled).map SkillEntry.skillRoot).map
          List.getLast? =
        ((paths.entries includeDisabled).map SkillEntry.skillName).map
          some := by
    rw [List.map_map, List.map_map]
    exact List.map_congr_left fun entry member =>
      getLast?_skillRoot member
  rw [lasts]
  exact nodup_entries.map (Option.some_injective _)

/--
A lookup in any scope is the one outside it; both are the layers of the entry
of that name, if there is one; and the roots are the deepest layers of the
entries.
-/
theorem skillLayers_agree (paths : PathRegistry Content)
    (scope : InventoryScope paths) (includeDisabled : Bool) (name : Text)
    (valid : (validatedPathSegments name).length = 1) :
    let inventory := scope.directoryInventory.1
    let entries := paths.installedSkillEntries includeDisabled inventory
    let roots := paths.installedSkillRoots includeDisabled inventory
    inventory = paths.directoryInventory ∧
      (scope.skillLayers includeDisabled name).1 =
        paths.skillLayers includeDisabled name ∧
      (∀ entry ∈ entries, entry.skillName = name →
          entry.layers = paths.skillLayers includeDisabled name) ∧
      (paths.skillLayers includeDisabled name = [] ↔
        ∀ entry ∈ entries, entry.skillName ≠ name) ∧
      (entries.map SkillEntry.skillName).Nodup ∧
      (∀ entry ∈ entries, entry.layers.getLast? = some entry.skillRoot) ∧
      roots = entries.map SkillEntry.skillRoot ∧ roots.Nodup := by
  dsimp only
  rw [scope.directoryInventory_fst]
  refine ⟨rfl, scope.skillLayers_fst, ?_, ?_, nodup_entries, ?_,
    roots_eq_map_entries, nodup_installedSkillRoots⟩
  · rintro entry member rfl
    rw [skillLayers_eq valid]
    exact (mem_entries_iff.mp member).1
  · rw [skillLayers_eq valid]
    constructor
    · rintro none_ entry member rfl
      obtain ⟨layers, some_, -⟩ := mem_entries_iff.mp member
      exact some_ (layers.trans none_)
    · intro absent
      by_contra some_
      cases roots : paths.rootsOf name with
      | nil =>
        rw [skillLayersOf, roots] at some_
        exact some_ rfl
      | cons root rest =>
        exact absent
          ⟨name, root, paths.skillLayersOf includeDisabled name⟩
          (mem_entries_iff.mpr
            ⟨rfl, some_, getLast?_skillLayersOf roots some_⟩) rfl
  · exact fun entry member => (mem_entries_iff.mp member).2.2

/-- A skill `foo` in two layers, disabled in the deeper one. -/
def maskedPaths : PathRegistry Unit where
  tree :=
    { entries :=
        [([], .folder), ([['h']], .folder), ([['w']], .folder),
          ([['h'], "foo".toList], .folder),
          ([['w'], "foo".toList], .folder),
          ([['w'], "foo".toList, ".disabled".toList], .file ())]
      closed := by decide }
  skillsRoots := [[['w']], [['h']]]

theorem skillLayers_agree_maskedPaths :
    maskedPaths.skillLayers false "foo".toList = [] ∧
      ∀ entry ∈
          maskedPaths.installedSkillEntries false
            (InventoryScope.empty maskedPaths).directoryInventory.1,
        entry.skillName ≠ "foo".toList := by
  have masked : maskedPaths.skillLayers false "foo".toList = [] := by
    decide
  exact ⟨masked,
    (skillLayers_agree maskedPaths (.empty maskedPaths) false "foo".toList
      (by decide)).2.2.2.1.mp masked⟩

end PathRegistry

end DeveloperDashboard.Skills
