import DeveloperDashboard.Skills.SkillLayers
import Mathlib.Algebra.Order.BigOperators.Group.List
import Mathlib.Algebra.Order.Group.Nat

namespace DeveloperDashboard.Skills

open Library Perl

/-!
# Discovery and resolution agree

Each node of the walk stands for a chain of installed directories, and carries
what a walk back along that chain would find.  So an entry names the location
that its segments resolve to, and every chain has one entry.
-/

variable {Content : Type} {paths : PathRegistry Content}
variable {options : PathRegistry.NestedOptions}

variable {segments : List Text} {chain : List Path} {dir last : Path}
  {node : NestedNode}

namespace PathRegistry

/--
The directories that segments stand for: the deepest folder of the first name,
and below it the folder of each further name.
-/
inductive InstalledChain (paths : PathRegistry Content) :
    List Text → List Path → Prop where
  | top {name : Text} {root : Path} {rest : List Path} :
      paths.rootsOf name = root :: rest →
      InstalledChain paths [name] [root]
  | nested
      {segments : List Text} {chain : List Path} {dir : Path}
      {child : Text} :
      InstalledChain paths segments chain →
      chain.getLast? = some dir →
      paths.tree.isFolder (nestedRoot dir ++ [child]) = true →
      InstalledChain paths (segments ++ [child])
        (chain ++ [nestedRoot dir ++ [child]])

theorem InstalledChain.length_eq
    (installed : InstalledChain paths segments chain) :
    chain.length = segments.length ∧ 0 < segments.length := by
  induction installed with
  | top => exact ⟨rfl, Nat.one_pos⟩
  | nested _ _ _ ih =>
    simp [ih.1]

def AllValid (segments : List Text) : Prop :=
  ∀ segment ∈ segments, (validatedPathSegments segment).length = 1

theorem chainFrom_concat {child : Text}
    (followed : paths.chainFrom dir segments = some chain)
    (ends : (dir :: chain).getLast? = some last)
    (valid : (validatedPathSegments child).length = 1)
    (isFolder : paths.tree.isFolder (nestedRoot last ++ [child]) = true) :
    paths.chainFrom dir (segments ++ [child]) =
      some (chain ++ [nestedRoot last ++ [child]]) := by
  induction segments generalizing dir chain with
  | nil =>
    rw [chainFrom, Option.some.injEq] at followed
    subst followed
    rw [List.getLast?_singleton, Option.some.injEq] at ends
    subst ends
    simp only [List.nil_append, chainFrom, valid, isFolder]
    rfl
  | cons segment rest ih =>
    rw [chainFrom] at followed
    split at followed
    · contradiction
    · next isValid =>
        dsimp only at followed
        split at followed
        · contradiction
        · next found =>
            obtain ⟨below, later, rfl⟩ := Option.map_eq_some_iff.mp followed
            rw [List.getLast?_cons_cons] at ends
            rw [List.cons_append, chainFrom, if_neg isValid]
            dsimp only
            rw [if_neg found, ih later ends]
            rfl

theorem allValid_of_chainFrom
    (followed : paths.chainFrom dir segments = some chain) :
    AllValid segments := by
  induction segments generalizing dir chain with
  | nil => exact nofun
  | cons segment rest ih =>
    rw [chainFrom] at followed
    split at followed
    · contradiction
    · next isValid =>
        dsimp only at followed
        split at followed
        · contradiction
        · obtain ⟨below, later, -⟩ := Option.map_eq_some_iff.mp followed
          exact List.forall_mem_cons.mpr
            ⟨not_not.mp isValid, ih later⟩

theorem getLast?_skillLayers {name : Text} {root : Path} {rest : List Path}
    (valid : (validatedPathSegments name).length = 1)
    (roots : paths.rootsOf name = root :: rest) :
    (paths.skillLayers true name).getLast? = some root := by
  have some_ : paths.skillLayersOf true name ≠ [] := by
    rw [skillLayersOf_of_cons roots, takesPart, Bool.true_or, if_pos rfl]
    exact List.reverse_ne_nil_iff.mpr (List.cons_ne_nil _ _)
  rw [skillLayers_eq valid]
  exact getLast?_skillLayersOf roots some_

theorem InstalledChain.resolves
    (installed : InstalledChain paths segments chain)
    (valid : AllValid segments) :
    ∃ first rest dir below,
      segments = first :: rest ∧ chain = dir :: below ∧
        (paths.skillLayers true first).getLast? = some dir ∧
        paths.chainFrom dir rest = some below := by
  induction installed with
  | @top name root _ roots =>
    exact ⟨name, [], root, [], rfl, rfl,
      getLast?_skillLayers (valid name List.mem_cons_self) roots, rfl⟩
  | @nested segments chain last child _ ends isFolder ih =>
    obtain ⟨first, rest, dir, below, rfl, rfl, top, followed⟩ :=
      ih fun segment member =>
        valid segment (List.mem_append_left _ member)
    exact ⟨first, rest ++ [child], dir, _, rfl, rfl, top,
      chainFrom_concat followed ends
        (valid child (List.mem_append_right _ List.mem_cons_self))
        isFolder⟩

theorem InstalledChain.nestedSkillDirChain_eq
    (installed : InstalledChain paths segments chain)
    (valid : AllValid segments) :
    paths.nestedSkillDirChain segments = chain := by
  obtain ⟨first, rest, dir, below, rfl, rfl, top, followed⟩ :=
    installed.resolves valid
  rw [nestedSkillDirChain, top]
  simp only [followed]
  rfl

theorem nestedSkillDirChain_of_invalid (invalid : ¬ AllValid segments) :
    paths.nestedSkillDirChain segments = [] := by
  unfold nestedSkillDirChain
  split
  · rfl
  · next first rest =>
      split
      · rfl
      · next dir top =>
          have valid : (validatedPathSegments first).length = 1 := by
            by_contra other
            rw [skillLayers, if_pos other] at top
            contradiction
          cases followed : paths.chainFrom dir rest with
          | none => rfl
          | some below =>
            have all : AllValid (first :: rest) :=
              List.forall_mem_cons.mpr
                ⟨valid, allValid_of_chainFrom followed⟩
            exact absurd all invalid

theorem isChain_cons
    (previous : Option Path) (segment : Text) (segments : List Text)
    (dir : Path) (chain : List Path) :
    paths.isChain previous (segment :: segments) (dir :: chain) =
      (decide ((validatedPathSegments segment).length = 1) &&
        paths.tree.isFolder dir &&
        (match previous with
        | none => decide (dir.getLast? = some segment)
        | some parent => decide (dir = nestedRoot parent ++ [segment])) &&
        paths.isChain (some dir) segments chain) := by
  cases previous <;> rfl

theorem isChain_concat {previous : Option Path} {child : Text}
    (checked : paths.isChain previous segments chain = true)
    (ends : chain.getLast? = some last)
    (valid : (validatedPathSegments child).length = 1)
    (isFolder : paths.tree.isFolder (nestedRoot last ++ [child]) = true) :
    paths.isChain previous (segments ++ [child])
      (chain ++ [nestedRoot last ++ [child]]) = true := by
  induction chain generalizing previous segments with
  | nil => contradiction
  | cons dir below ih =>
    cases segments with
    | nil => cases previous <;> exact absurd checked Bool.false_ne_true
    | cons segment rest =>
      rw [isChain_cons, Bool.and_eq_true] at checked
      rw [List.cons_append, List.cons_append, isChain_cons, Bool.and_eq_true]
      refine ⟨checked.1, ?_⟩
      cases below with
      | nil =>
        rw [List.getLast?_singleton, Option.some.injEq] at ends
        subst ends
        cases rest with
        | nil => simp [isChain, valid, isFolder]
        | cons next others =>
          exact absurd checked.2 Bool.false_ne_true
      | cons next others =>
        rw [List.getLast?_cons_cons] at ends
        exact ih checked.2 ends

theorem InstalledChain.isChain
    (installed : InstalledChain paths segments chain)
    (valid : AllValid segments) :
    paths.isChain none segments chain = true := by
  induction installed with
  | @top name root rest roots =>
    have isRoot : root ∈ paths.rootsOf name := by
      rw [roots]
      exact List.mem_cons_self
    obtain ⟨skillsRoot, -, same⟩ :=
      List.mem_map.mp (List.mem_filter.mp isRoot).1
    have ends : root.getLast? = some name := by
      rw [← same, List.getLast?_concat]
    simp [PathRegistry.isChain, valid name List.mem_cons_self,
      isFolder_rootsOf isRoot, ends]
  | @nested segments chain last child _ ends isFolder ih =>
    exact isChain_concat
      (ih fun segment member =>
        valid segment (List.mem_append_left _ member))
      ends (valid child (List.mem_append_right _ List.mem_cons_self))
      isFolder

theorem nearestWritable_concat (ancestors : List Path) (dir : Path) :
    paths.nearestWritable (ancestors ++ [dir]) =
      if paths.hasGit dir then paths.nearestWritable ancestors
      else some (dir, ancestors.length) := by
  unfold nearestWritable
  rw [List.zipIdx_append, List.reverse_append]
  cases git : paths.hasGit dir <;> simp [git]

theorem InstalledChain.location_eq
    (installed : InstalledChain paths segments chain)
    (valid : AllValid segments) :
    paths.skillConfigWriteLocation segments =
      match paths.nearestWritable chain.dropLast with
      | some (dir, depth) =>
        some (.skill dir (segments.drop (depth + 1)))
      | none => some (.global segments) := by
  obtain ⟨sameLength, some_⟩ := installed.length_eq
  have nonempty : segments ≠ [] := List.ne_nil_of_length_pos some_
  rw [skillConfigWriteLocation, if_neg nonempty,
    installed.nestedSkillDirChain_eq valid, locationFromChain,
    if_neg nonempty, if_neg (not_not.mpr sameLength),
    installed.isChain valid]
  rfl

/-- A node stands for a chain, and carries what a walk back would find. -/
structure Carries (paths : PathRegistry Content) (node : NestedNode)
    (chain : List Path) : Prop where
  installed : InstalledChain paths node.segments chain
  last : chain.getLast? = some node.dir
  valid : node.configChainValid = true ↔ AllValid node.segments
  parent :
    node.configChainValid = true →
      node.configParent = paths.nearestWritable chain.dropLast

theorem exists_carries_rootNode {root : Path}
    (member :
      root ∈ paths.installedSkillRoots true paths.directoryInventory) :
    ∃ chain,
      Carries paths (paths.rootNode allWithLocations root) chain := by
  rw [roots_eq_map_entries] at member
  obtain ⟨entry, isEntry, rfl⟩ := List.mem_map.mp member
  obtain ⟨layers, some_, deepest⟩ := mem_entries_iff.mp isEntry
  have name := getLast?_skillRoot isEntry
  cases roots : paths.rootsOf entry.skillName with
  | nil =>
    rw [layers, skillLayersOf, roots] at some_
    exact absurd rfl some_
  | cons root rest =>
    rw [layers] at some_ deepest
    rw [getLast?_skillLayersOf roots some_, Option.some.injEq] at deepest
    refine ⟨[entry.skillRoot], ?_, rfl, ?_, fun _ => rfl⟩
    · rw [rootNode, name, ← deepest]
      exact .top roots
    · rw [rootNode, name]
      simp [AllValid, isValidSegment, allWithLocations]

/-- A nested skill stands for its parent's chain and its own directory. -/
theorem Carries.child (carries : Carries paths node chain) {child : Text}
    (isFolder :
      paths.tree.isFolder (nestedRoot node.dir ++ [child]) = true) :
    Carries paths (paths.childNode allWithLocations node child)
      (chain ++ [nestedRoot node.dir ++ [child]]) := by
  have allValid :
      AllValid (node.segments ++ [child]) ↔
        AllValid node.segments ∧
          (validatedPathSegments child).length = 1 := by
    unfold AllValid
    rw [List.forall_mem_append]
    exact and_congr_right fun _ => List.forall_mem_singleton
  have isValid :
      (paths.childNode allWithLocations node child).configChainValid =
          true ↔
        node.configChainValid = true ∧
          (validatedPathSegments child).length = 1 := by
    simp [childNode, allWithLocations, isValidSegment]
  constructor
  · exact carries.installed.nested carries.last isFolder
  · exact List.getLast?_concat
  · rw [isValid, carries.valid]
    exact allValid.symm
  · intro valid
    have nodeValid := (isValid.mp valid).1
    rw [List.dropLast_concat]
    change paths.childParent allWithLocations node = _
    obtain ⟨front, rfl⟩ := List.getLast?_eq_some_iff.mp carries.last
    have parent := carries.parent nodeValid
    rw [List.dropLast_concat] at parent
    have depth := carries.installed.length_eq.1
    rw [List.length_append, List.length_singleton] at depth
    rw [nearestWritable_concat, childParent, nodeValid, parent, ← depth]
    cases paths.hasGit node.dir <;> rfl

theorem mem_childNodes_iff {child : NestedNode} :
    child ∈ paths.childNodes allWithLocations node ↔
      ∃ name,
        paths.tree.isFolder (nestedRoot node.dir ++ [name]) = true ∧
          child = paths.childNode allWithLocations node name := by
  unfold childNodes
  constructor
  · intro member
    split at member
    · contradiction
    · obtain ⟨name, isIn, same⟩ :=
        List.mem_map.mp (List.mem_filter.mp member).1
      exact ⟨name, mem_folderNames_iff.mp isIn, same.symm⟩
  · rintro ⟨name, isFolder, rfl⟩
    rw [FileTree.isFolder_parent isFolder, if_neg (by decide)]
    exact List.mem_filter.mpr
      ⟨List.mem_map_of_mem (mem_folderNames_iff.mpr isFolder), rfl⟩

theorem exists_carries
    (visited : node ∈ paths.nestedNodes allWithLocations) :
    ∃ chain, Carries paths node chain := by
  refine BreadthFirst.forall_mem_walk
    (fun node => ∃ chain, Carries paths node chain) ?_ ?_ node visited
  · intro first member
    obtain ⟨root, isRoot, rfl⟩ := List.mem_map.mp member
    exact exists_carries_rootNode isRoot
  · rintro parent ⟨chain, carries⟩ child member
    obtain ⟨name, isFolder, rfl⟩ := mem_childNodes_iff.mp member
    exact ⟨_, carries.child isFolder⟩

theorem sum_nodeWeight_lt
    (paths : PathRegistry Content) (options : NestedOptions)
    (node : NestedNode) :
    ((paths.childNodes options node).map paths.nodeWeight).sum <
      paths.nodeWeight node := by
  unfold childNodes
  split
  · exact Nat.add_pos_left Nat.one_pos _
  · next isFolder =>
      have isFolder := Bool.eq_true_of_not_eq_false fun none_ =>
        isFolder (Bool.not_eq_true' _ |>.mpr none_)
      let names := paths.folderNames (nestedRoot node.dir)
      have each :
          ∀ name ∈ names,
            paths.nodeWeight (paths.childNode options node name) ≤
              paths.tree.weight (nestedRoot node.dir ++ [name]) := by
        intro name member
        have below :=
          FileTree.sum_weight_lt (mem_folderNames_iff.mp member)
            (List.nodup_singleton "skills".toList)
        rw [List.map_singleton, List.sum_singleton] at below
        rw [nodeWeight, Nat.add_comm]
        exact below
      calc
        _ ≤ ((names.map (paths.childNode options node)).map
              paths.nodeWeight).sum :=
          (List.filter_sublist.map _).sum_le_sum fun _ _ => Nat.zero_le _
        _ ≤ (names.map fun name =>
              paths.tree.weight (nestedRoot node.dir ++ [name])).sum := by
          rw [List.map_map]
          exact List.sum_le_sum each
        _ < paths.tree.weight (nestedRoot node.dir) :=
          FileTree.sum_weight_lt isFolder (nodup_folderNames paths _)
        _ ≤ paths.nodeWeight node := Nat.le_add_left _ _

theorem InstalledChain.exists_node
    (installed : InstalledChain paths segments chain) :
    ∃ first ∈ paths.rootNodes allWithLocations,
      ∃ node,
        BreadthFirst.LeadsTo (paths.childNodes allWithLocations) first
            node ∧
          node.segments = segments ∧ chain.getLast? = some node.dir := by
  induction installed with
  | @top name root rest roots =>
    have some_ : paths.skillLayersOf true name ≠ [] := by
      rw [skillLayersOf_of_cons roots, takesPart, Bool.true_or, if_pos rfl]
      exact List.reverse_ne_nil_iff.mpr (List.cons_ne_nil _ _)
    have isEntry :
        ⟨name, root, paths.skillLayersOf true name⟩ ∈
          paths.entries true :=
      mem_entries_iff.mpr
        ⟨rfl, some_, getLast?_skillLayersOf roots some_⟩
    have isRoot :
        root ∈
          paths.installedSkillRoots true paths.directoryInventory := by
      rw [roots_eq_map_entries]
      exact List.mem_map_of_mem isEntry
    refine ⟨paths.rootNode allWithLocations root,
      List.mem_map_of_mem isRoot, _, .refl, ?_, rfl⟩
    rw [rootNode, getLast?_skillRoot isEntry]
    rfl
  | @nested segments chain last child _ ends isFolder ih =>
    obtain ⟨first, isRoot, node, leads, rfl, last_⟩ := ih
    rw [ends, Option.some.injEq] at last_
    subst last_
    exact ⟨first, isRoot, paths.childNode allWithLocations node child,
      leads.tail (mem_childNodes_iff.mpr ⟨child, isFolder, rfl⟩), rfl,
      List.getLast?_concat⟩

theorem exists_node_iff :
    (∃ node ∈ paths.nestedNodes allWithLocations,
        node.segments = segments ∧ node.dir = dir) ↔
      ∃ chain,
        InstalledChain paths segments chain ∧
          chain.getLast? = some dir := by
  constructor
  · rintro ⟨node, visited, rfl, rfl⟩
    obtain ⟨chain, carries⟩ := exists_carries visited
    exact ⟨chain, carries.installed, carries.last⟩
  · rintro ⟨chain, installed, last⟩
    obtain ⟨first, isRoot, node, leads, same, ends⟩ :=
      installed.exists_node
    rw [last, Option.some.injEq] at ends
    exact ⟨node, BreadthFirst.mem_walk_of_leadsTo paths.nodeWeight
      (sum_nodeWeight_lt paths allWithLocations) (Nat.le_refl _) isRoot
      leads, same, ends.symm⟩

theorem segments_of_leadsTo {last : NestedNode}
    (leads :
      BreadthFirst.LeadsTo (paths.childNodes allWithLocations) node last) :
    node.segments <+: last.segments := by
  induction leads with
  | refl => exact List.prefix_rfl
  | tail _ step ih =>
    obtain ⟨name, -, rfl⟩ := mem_childNodes_iff.mp step
    exact ih.trans (List.prefix_append _ _)

theorem apart_of_ne
    {one other : NestedNode} {front : List Text} {left right : Text}
    (oneSegments : one.segments = front ++ [left])
    (otherSegments : other.segments = front ++ [right])
    (differ : left ≠ right) :
    BreadthFirst.Apart (paths.childNodes allWithLocations)
      NestedNode.segments one other := by
  intro below belowOther leads leadsOther same
  have fromOne := segments_of_leadsTo leads
  have fromOther := segments_of_leadsTo leadsOther
  rw [oneSegments] at fromOne
  rw [otherSegments, ← same] at fromOther
  exact differ (FileTree.prefix_concat_unique fromOne fromOther)

theorem pairwise_rootNodes (paths : PathRegistry Content) :
    (paths.rootNodes allWithLocations).Pairwise
      (BreadthFirst.Apart (paths.childNodes allWithLocations)
        NestedNode.segments) := by
  unfold rootNodes
  rw [roots_eq_map_entries, List.map_map, List.pairwise_map]
  refine (List.pairwise_map.mp nodup_entries).imp_of_mem ?_
  intro one other isIn otherIn differ
  have segments {entry : SkillEntry} (listed : entry ∈ paths.entries true) :
      (paths.rootNode allWithLocations entry.skillRoot).segments =
        [] ++ [entry.skillName] := by
    rw [rootNode, getLast?_skillRoot listed]
    rfl
  exact apart_of_ne (segments isIn) (segments otherIn) differ

theorem nodup_segments (paths : PathRegistry Content) :
    ((paths.nestedNodes allWithLocations).map
      NestedNode.segments).Nodup := by
  refine BreadthFirst.nodup_walk NestedNode.segments ?_ ?_
    (pairwise_rootNodes paths)
  · intro node
    unfold childNodes
    split
    · exact .nil
    · refine List.Pairwise.filter _ (List.pairwise_map.mpr ?_)
      exact (nodup_folderNames paths _).imp fun differ =>
        apart_of_ne rfl rfl differ
  · intro node child member last leads same
    obtain ⟨name, -, rfl⟩ := mem_childNodes_iff.mp member
    have longer := (segments_of_leadsTo leads).length_le
    rw [← same, childNode, List.length_append,
      List.length_singleton] at longer
    exact Nat.not_succ_le_self _ longer

theorem Carries.nodeLocation_eq (carries : Carries paths node chain) :
    nodeLocation node = paths.skillConfigWriteLocation node.segments := by
  obtain ⟨sameLength, some_⟩ := carries.installed.length_eq
  by_cases isValid : node.configChainValid = true
  · rw [carries.installed.location_eq (carries.valid.mp isValid),
      nodeLocation, if_pos isValid, carries.parent isValid]
    by_cases single : node.segments.length = 1
    · obtain ⟨dir, rfl⟩ := List.length_eq_one_iff.mp (sameLength.trans single)
      rfl
    · cases paths.nearestWritable chain.dropLast with
      | none => rfl
      | some found => exact if_neg single
  · have nonempty : node.segments ≠ [] := List.ne_nil_of_length_pos some_
    rw [nodeLocation, if_neg isValid, skillConfigWriteLocation,
      if_neg nonempty,
      nestedSkillDirChain_of_invalid (mt carries.valid.mpr isValid),
      locationFromChain, if_neg nonempty]
    exact (if_pos (Nat.ne_of_lt some_)).symm

theorem length_lt_nested (dir : Path) (child : Text) :
    dir.length < (nestedRoot dir ++ [child]).length := by
  rw [nestedRoot, List.length_append, List.length_append]
  exact Nat.lt_add_right 1 (Nat.lt_succ_self _)

theorem InstalledChain.length_le
    (installed : InstalledChain paths segments chain)
    (ends : chain.getLast? = some last) :
    ∀ dir ∈ chain, dir.length ≤ last.length := by
  induction installed generalizing last with
  | top =>
    rw [List.getLast?_singleton, Option.some.injEq] at ends
    subst ends
    exact List.forall_mem_singleton.mpr (Nat.le_refl _)
  | nested _ parentEnds _ ih =>
    rw [List.getLast?_concat, Option.some.injEq] at ends
    subst ends
    intro dir member
    rcases List.mem_append.mp member with above | itself
    · exact Nat.le_trans (ih parentEnds dir above)
        (Nat.le_of_lt (length_lt_nested _ _))
    · exact Nat.le_of_eq
        (congrArg List.length (List.mem_singleton.mp itself))

theorem InstalledChain.ne_of_mem_dropLast
    (installed : InstalledChain paths segments chain)
    (ends : chain.getLast? = some last) (above : dir ∈ chain.dropLast) :
    dir ≠ last := by
  cases installed with
  | top => exact absurd above List.not_mem_nil
  | nested parent parentEnds _ =>
    rw [List.getLast?_concat, Option.some.injEq] at ends
    rw [List.dropLast_concat] at above
    have shorter := parent.length_le parentEnds dir above
    rintro rfl
    rw [← ends] at shorter
    exact Nat.not_lt_of_le shorter (length_lt_nested _ _)

theorem nearestWritable_eq_some {ancestors : List Path} {depth : Nat}
    (nearest : paths.nearestWritable ancestors = some (dir, depth)) :
    dir ∈ ancestors ∧ paths.hasGit dir = false := by
  have member := List.mem_of_find?_eq_some nearest
  have checked := List.find?_some nearest
  rw [List.mem_reverse] at member
  exact ⟨(List.mem_zipIdx' member).2 ▸ List.getElem_mem _,
    Bool.not_eq_true' _ |>.mp checked⟩

theorem Carries.location_above {remaining : List Text}
    (carries : Carries paths node chain)
    (located : nodeLocation node = some (.skill dir remaining)) :
    dir ≠ node.dir ∧ paths.hasGit dir = false := by
  unfold nodeLocation at located
  split at located
  · next isValid =>
      rw [carries.parent isValid] at located
      cases nearest : paths.nearestWritable chain.dropLast with
      | none =>
        rw [nearest] at located
        exact absurd (Option.some.inj located) (by simp)
      | some found =>
        obtain ⟨parent, depth⟩ := found
        rw [nearest] at located
        dsimp only at located
        split at located
        · exact absurd (Option.some.inj located) (by simp)
        · rw [Option.some.injEq, WriteLocation.skill.injEq] at located
          obtain ⟨rfl, -⟩ := located
          obtain ⟨above, clean⟩ := nearestWritable_eq_some nearest
          exact ⟨carries.installed.ne_of_mem_dropLast carries.last above,
            clean⟩
  · contradiction

/--
Every entry names the location that its segments resolve to, which is neither
its own directory nor a checkout; and the entries are the installed chains,
each of them once.
-/
theorem configWriteLocation_agrees (paths : PathRegistry Content) :
    let entries := paths.nestedSkillEntries allWithLocations
    (∀ entry ∈ entries, entry.configWriteLocation =
            paths.skillConfigWriteLocation entry.segments ∧
          ∀ dir remaining,
            entry.configWriteLocation = some (.skill dir remaining) →
              dir ≠ entry.dir ∧ paths.hasGit dir = false) ∧
      (entries.map NestedEntry.segments).Nodup ∧
      ∀ segments dir,
        (∃ entry ∈ entries, entry.segments = segments ∧ entry.dir = dir) ↔
          ∃ chain,
            InstalledChain paths segments chain ∧
              chain.getLast? = some dir := by
  dsimp only
  refine ⟨?_, ?_, ?_⟩
  · intro entry member
    obtain ⟨node, visited, rfl⟩ := List.mem_map.mp member
    obtain ⟨chain, carries⟩ := exists_carries visited
    exact ⟨carries.nodeLocation_eq, fun dir remaining located =>
      carries.location_above located⟩
  · rw [nestedSkillEntries, List.map_map]
    exact nodup_segments paths
  · intro segments dir
    rw [← exists_node_iff]
    constructor
    · rintro ⟨entry, member, same⟩
      obtain ⟨node, visited, rfl⟩ := List.mem_map.mp member
      exact ⟨node, visited, same⟩
    · rintro ⟨node, visited, same⟩
      exact ⟨nestedEntry allWithLocations node,
        List.mem_map_of_mem visited, same⟩

end PathRegistry

end DeveloperDashboard.Skills
