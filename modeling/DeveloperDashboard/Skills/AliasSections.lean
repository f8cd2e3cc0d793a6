import DeveloperDashboard.Library.Joined
import DeveloperDashboard.Skills.SkillAliases
import DeveloperDashboard.Skills.WriteLocations

namespace DeveloperDashboard.Skills

open Library Perl Config

/-!
# The sections of stored aliases

Where a skill is reached by one list of segments only, two skills store their
aliases in different sections, and neither section lies in the other unless a
skill is named like the key of the aliases.
-/

variable {Content : Type} {paths : PathRegistry Content}

variable {location : WriteLocation}

namespace WriteLocation

def file : WriteLocation → Option Path
  | .skill dir _ => some dir
  | .global _ => none

def remaining : WriteLocation → List Text
  | .skill _ remaining => remaining
  | .global remaining => remaining

/-- The segments that share a hash with the aliases of another skill. -/
def inner : WriteLocation → List Text
  | .skill _ remaining => remaining
  | .global remaining => remaining.tail

theorem head_sections_ne (nonempty : location.remaining ≠ [])
    {key : String} {read : AliasDomain}
    (free : read.key.toList ∉ location.inner) :
    (location.sections key).head? ≠ some read.key := by
  cases location with
  | skill dir remaining =>
    cases remaining with
    | nil => contradiction
    | cons first rest =>
      intro same
      have first_ : String.ofList first = read.key :=
        Option.some.inj same
      refine free ?_
      rw [← first_, String.toList_ofList]
      exact List.mem_cons_self
  | global remaining =>
    intro same
    cases read <;> exact absurd (Option.some.inj same) (by decide)

end WriteLocation

variable {segments : List Text} {chain : List Path}

namespace PathRegistry

theorem InstalledChain.append
    {rest : List Text} {below : List Path} {dir : Path}
    (installed : InstalledChain paths segments chain)
    (ends : chain.getLast? = some dir)
    (followed : paths.chainFrom dir rest = some below) :
    InstalledChain paths (segments ++ rest) (chain ++ below) := by
  induction rest generalizing segments chain below dir with
  | nil =>
    rw [chainFrom, Option.some.injEq] at followed
    subst followed
    rw [List.append_nil, List.append_nil]
    exact installed
  | cons segment rest ih =>
    rw [chainFrom] at followed
    split at followed
    · contradiction
    · dsimp only at followed
      split at followed
      · contradiction
      · next found =>
          obtain ⟨later, after, rfl⟩ := Option.map_eq_some_iff.mp followed
          have isFolder :
              paths.tree.isFolder (nestedRoot dir ++ [segment]) =
                true := by
            simpa using found
          have longer :=
            ih (installed.nested ends isFolder)
              List.getLast?_concat after
          rw [List.append_assoc, List.append_assoc] at longer
          exact longer

theorem installed_nestedSkillDirChain
    (some_ : paths.nestedSkillDirChain segments ≠ []) :
    InstalledChain paths segments (paths.nestedSkillDirChain segments) := by
  cases segments with
  | nil => exact absurd rfl some_
  | cons first rest =>
    rw [nestedSkillDirChain] at some_ ⊢
    cases top : (paths.skillLayers true first).getLast? with
    | none =>
      rw [top] at some_
      exact absurd rfl some_
    | some dir =>
      rw [top] at some_
      dsimp only at some_ ⊢
      cases followed : paths.chainFrom dir rest with
      | none =>
        rw [followed] at some_
        exact absurd rfl some_
      | some below =>
        have valid : (validatedPathSegments first).length = 1 := by
          by_contra other
          rw [skillLayers, if_pos other] at top
          contradiction
        rw [skillLayers_eq valid] at top
        cases roots : paths.rootsOf first with
        | nil =>
          rw [skillLayersOf, roots] at top
          contradiction
        | cons root others =>
          have nonempty : paths.skillLayersOf true first ≠ [] := by
            intro none_
            rw [none_] at top
            contradiction
          rw [getLast?_skillLayersOf roots nonempty,
            Option.some.injEq] at top
          subst top
          exact (InstalledChain.top roots).append rfl followed

theorem installed_of_location
    (located : paths.skillConfigWriteLocation segments = some location) :
    InstalledChain paths segments (paths.nestedSkillDirChain segments) ∧
      AllValid segments := by
  have nonempty : paths.nestedSkillDirChain segments ≠ [] := by
    intro none_
    rw [skillConfigWriteLocation] at located
    split at located
    · contradiction
    · next some_ =>
        rw [none_, locationFromChain, if_neg some_, if_pos] at located
        · contradiction
        · exact Ne.symm (mt List.length_eq_zero_iff.mp some_)
  constructor
  · exact installed_nestedSkillDirChain nonempty
  · by_contra invalid
    exact nonempty (nestedSkillDirChain_of_invalid invalid)

theorem InstalledChain.take (installed : InstalledChain paths segments chain)
    {length : Nat} (some_ : 0 < length) :
    InstalledChain paths (segments.take length) (chain.take length) := by
  induction installed with
  | @top name root rest roots =>
    rw [List.take_of_length_le some_, List.take_of_length_le some_]
    exact .top roots
  | @nested segments chain dir child installed ends isFolder
      ih =>
      have same := installed.length_eq.1
      by_cases inside : length ≤ segments.length
      · rw [List.take_append_of_le_length inside,
          List.take_append_of_le_length (same ▸ inside)]
        exact ih
      · rw [List.take_of_length_le (by simp; omega),
          List.take_of_length_le (by simp; omega)]
        exact installed.nested ends isFolder

theorem InstalledChain.ofFront {front : List Text}
    (installed : InstalledChain paths segments chain)
    (begins : front <+: segments) (some_ : front ≠ []) :
    ∃ frontChain, InstalledChain paths front frontChain := by
  rw [List.prefix_iff_eq_take.mp begins]
  exact ⟨_, installed.take (List.length_pos_of_ne_nil some_)⟩

/-- No skills root is the folder of the nested skills of a skill. -/
def RootsApart (paths : PathRegistry Content) : Prop :=
  ∀ segments chain dir,
    InstalledChain paths segments chain → chain.getLast? = some dir →
      nestedRoot dir ∉ paths.skillsRoots

theorem InstalledChain.length_lt_of_singleton
    {root dir : Path} (single : paths.skillsRoots = [root])
    (installed : InstalledChain paths segments chain)
    (ends : chain.getLast? = some dir) :
    root.length < dir.length := by
  induction installed generalizing dir with
  | @top name top rest roots =>
    rw [List.getLast?_singleton, Option.some.injEq] at ends
    have isTop : top ∈ paths.rootsOf name := by
      rw [roots]
      exact List.mem_cons_self
    obtain ⟨skillsRoot, member, same⟩ :=
      List.mem_map.mp (List.mem_filter.mp isTop).1
    rw [single, List.mem_singleton] at member
    rw [← ends, ← same, member, List.length_append]
    exact Nat.lt_succ_self _
  | nested _ parentEnds _ ih =>
    rw [List.getLast?_concat, Option.some.injEq] at ends
    rw [← ends]
    exact Nat.lt_trans (ih parentEnds)
      (length_lt_nested _ _)

theorem rootsApart_of_singleton {root : Path}
    (single : paths.skillsRoots = [root]) :
    RootsApart paths := by
  intro segments chain dir installed ends isRoot
  have below := installed.length_lt_of_singleton single ends
  rw [single, List.mem_singleton] at isRoot
  rw [← isRoot, nestedRoot, List.length_append] at below
  exact Nat.not_lt_of_le (Nat.le_add_right _ _) below

theorem RootsApart.segments_unique (apart : RootsApart paths)
    {others : List Text} {otherChain : List Path} {dir : Path}
    (installed : InstalledChain paths segments chain)
    (ends : chain.getLast? = some dir)
    (installedOther : InstalledChain paths others otherChain)
    (endsOther : otherChain.getLast? = some dir) :
    others = segments := by
  have topRoot {name : Text} {root : Path} {rest : List Path}
      (roots : paths.rootsOf name = root :: rest) :
      ∃ skillsRoot ∈ paths.skillsRoots, skillsRoot ++ [name] = root := by
    have isRoot : root ∈ paths.rootsOf name := by
      rw [roots]
      exact List.mem_cons_self
    exact List.mem_map.mp (List.mem_filter.mp isRoot).1
  induction installed generalizing others otherChain dir with
  | @top name root rest roots =>
    rw [List.getLast?_singleton, Option.some.injEq] at ends
    subst ends
    obtain ⟨skillsRoot, isRoot, same⟩ := topRoot roots
    cases installedOther with
    | @top otherName otherRoot _ otherRoots =>
      rw [List.getLast?_singleton, Option.some.injEq] at endsOther
      subst endsOther
      obtain ⟨otherSkillsRoot, -, otherSame⟩ := topRoot otherRoots
      have names := (List.append_inj' (otherSame.trans same.symm) rfl).2
      exact names
    | nested parent parentEnds _ =>
      rw [List.getLast?_concat, Option.some.injEq, ← same] at endsOther
      have sameRoot := (List.append_inj' endsOther rfl).1
      exact absurd (sameRoot ▸ isRoot) (apart _ _ _ parent parentEnds)
  | @nested segments chain last child installed parentEnds isFolder
      ih =>
      rw [List.getLast?_concat, Option.some.injEq] at ends
      subst ends
      cases installedOther with
      | @top otherName otherRoot _ otherRoots =>
        rw [List.getLast?_singleton, Option.some.injEq] at endsOther
        subst endsOther
        obtain ⟨skillsRoot, isRoot, same⟩ := topRoot otherRoots
        have sameRoot := (List.append_inj' same rfl).1
        exact absurd (sameRoot ▸ isRoot)
          (apart _ _ _ installed parentEnds)
      | nested parent otherEnds _ =>
        rw [List.getLast?_concat, Option.some.injEq] at endsOther
        obtain ⟨sameRoot, sameChild⟩ := List.append_inj' endsOther rfl
        have sameDir := List.append_cancel_right sameRoot
        rw [sameDir] at otherEnds
        rw [ih parentEnds parent otherEnds, sameChild]

def LeadsToFile (paths : PathRegistry Content) (base : List Text) :
    WriteLocation → Prop
  | .skill dir _ =>
    ∃ chain,
      InstalledChain paths base chain ∧ chain.getLast? = some dir
  | .global _ => base = []

theorem exists_base
    (located : paths.skillConfigWriteLocation segments = some location) :
    ∃ base,
      LeadsToFile paths base location ∧
        segments = base ++ location.remaining ∧
          location.remaining ≠ [] := by
  obtain ⟨installed, valid⟩ := installed_of_location located
  obtain ⟨sameLength, some_⟩ := installed.length_eq
  rw [installed.location_eq valid] at located
  cases nearest :
      paths.nearestWritable
        (paths.nestedSkillDirChain segments).dropLast with
  | none =>
    rw [nearest] at located
    obtain rfl := Option.some.inj located
    exact ⟨[], rfl, rfl, List.ne_nil_of_length_pos some_⟩
  | some found =>
    obtain ⟨dir, depth⟩ := found
    rw [nearest] at located
    obtain rfl := Option.some.inj located
    have member := List.mem_of_find?_eq_some nearest
    rw [List.mem_reverse] at member
    obtain ⟨inside, isThere⟩ := List.mem_zipIdx' member
    rw [List.length_dropLast, sameLength] at inside
    refine ⟨segments.take (depth + 1), ⟨_,
      installed.take (Nat.succ_pos depth), ?_⟩,
      (List.take_append_drop _ _).symm, ?_⟩
    · rw [List.getLast?_take, if_neg (Nat.succ_ne_zero depth),
        Nat.add_sub_cancel, List.getElem?_eq_getElem (by omega),
        isThere, List.getElem_dropLast]
      rfl
    · rw [Ne, WriteLocation.remaining, List.drop_eq_nil_iff]
      omega

theorem RootsApart.base_unique (apart : RootsApart paths)
    {base other : List Text} {otherLocation : WriteLocation}
    (leads : LeadsToFile paths base location)
    (leadsOther : LeadsToFile paths other otherLocation)
    (sameFile : otherLocation.file = location.file) :
    other = base := by
  cases location with
  | skill dir remaining =>
    cases otherLocation with
    | skill otherDir _ =>
      rw [WriteLocation.file, WriteLocation.file,
        Option.some.injEq] at sameFile
      subst sameFile
      obtain ⟨chain, installed, ends⟩ := leads
      obtain ⟨otherChain, installedOther, endsOther⟩ := leadsOther
      exact apart.segments_unique installed ends installedOther endsOther
    | global _ => contradiction
  | global remaining =>
    cases otherLocation with
    | skill otherDir _ => contradiction
    | global _ => exact leadsOther.trans leads.symm

theorem sections_prefix_iff {other : WriteLocation}
    (sameFile : other.file = location.file) (key otherKey : String) :
    other.sections otherKey <+: location.sections key ↔
      other.remaining ++ [otherKey.toList] <+:
        location.remaining ++ [key.toList] := by
  have keys (remaining : List Text) (key : String) :
      remaining.map String.ofList ++ [key] =
        (remaining ++ [key.toList]).map String.ofList := by
    rw [List.map_append, List.map_singleton, String.ofList_toList]
  have injective : Function.Injective String.ofList :=
    fun _ _ same => String.ofList_injective same
  cases location with
  | skill dir remaining =>
    cases other with
    | skill otherDir otherRemaining =>
      rw [WriteLocation.sections, WriteLocation.sections, keys, keys,
        List.prefix_map_iff_of_injective injective]
      rfl
    | global _ => contradiction
  | global remaining =>
    cases other with
    | skill otherDir _ => contradiction
    | global otherRemaining =>
      rw [WriteLocation.sections, WriteLocation.sections,
        List.cons_append, List.cons_append, List.prefix_cons_inj, keys,
        keys, List.prefix_map_iff_of_injective injective]
      rfl

theorem mem_inner_of_begins {front : List Text} {name : Text}
    (nonempty : front ≠ [])
    (begins : front ++ [name] <+: location.remaining) :
    name ∈ location.inner := by
  cases location with
  | skill dir remaining =>
    exact begins.subset (List.mem_append_right _ List.mem_cons_self)
  | global remaining =>
    obtain ⟨rest, rfl⟩ := begins
    cases front with
    | nil => contradiction
    | cons first others =>
      exact List.mem_append_left _
        (List.mem_append_right _ List.mem_cons_self)

theorem RootsApart.apart_sections (apart : RootsApart paths)
    {others : List Text} {otherLocation : WriteLocation}
    (located : paths.skillConfigWriteLocation segments = some location)
    (locatedOther :
      paths.skillConfigWriteLocation others = some otherLocation)
    (sameFile : otherLocation.file = location.file) {key readKey : String}
    (free : readKey.toList ∉ location.inner)
    (noNested :
      ∀ chain, ¬ InstalledChain paths (segments ++ [key.toList]) chain)
    (differ : ¬ (others = segments ∧ readKey = key)) :
    ¬ location.sections key <+: otherLocation.sections readKey ∧
      ¬ otherLocation.sections readKey <+: location.sections key := by
  obtain ⟨base, leads, segmentsEq, -⟩ := exists_base located
  obtain ⟨otherBase, leadsOther, othersEq, nonempty⟩ :=
    exists_base locatedOther
  rw [apart.base_unique leads leadsOther sameFile] at othersEq
  have notEqual :
      location.remaining ++ [key.toList] ≠
        otherLocation.remaining ++ [readKey.toList] := by
    intro same
    obtain ⟨sameRemaining, sameKey⟩ := List.append_inj' same rfl
    refine differ ⟨?_, ?_⟩
    · rw [othersEq, segmentsEq, sameRemaining]
    · exact (String.toList_inj.mp (List.singleton_inj.mp sameKey)).symm
  rw [sections_prefix_iff sameFile.symm, sections_prefix_iff sameFile,
    List.prefix_concat_iff, List.prefix_concat_iff]
  constructor
  · rintro (same | ⟨rest, inside⟩)
    · exact notEqual same
    · have begins : segments ++ [key.toList] <+: others := by
        refine ⟨rest, ?_⟩
        rw [othersEq, segmentsEq, ← inside]
        simp only [List.append_assoc]
      obtain ⟨chain, installed⟩ :=
        (installed_of_location locatedOther).1.ofFront begins
          (List.append_ne_nil_of_right_ne_nil _ (List.cons_ne_nil _ _))
      exact noNested chain installed
  · rintro (same | inside)
    · exact notEqual same.symm
    · exact free (mem_inner_of_begins nonempty inside)

theorem pairwise_length_entries (paths : PathRegistry Content) :
    (paths.nestedSkillEntries allWithLocations).Pairwise
      fun one other => one.segments.length ≤ other.segments.length := by
  have roots :
      ∀ node ∈ paths.rootNodes allWithLocations,
        node.segments.length = 1 := by
    intro node member
    obtain ⟨root, -, rfl⟩ := List.mem_map.mp member
    rfl
  refine List.pairwise_map.mpr (BreadthFirst.pairwise_level_walk
    (fun node : NestedNode => node.segments.length) ?_ ?_ ?_)
  · intro node child member
    obtain ⟨name, -, rfl⟩ := mem_childNodes_iff.mp member
    exact List.length_append
  · refine List.pairwise_of_forall_mem_list fun one isIn other otherIn => ?_
    exact Nat.le_of_eq ((roots one isIn).trans (roots other otherIn).symm)
  · intro one isIn other otherIn
    rw [roots one isIn, roots other otherIn]
    exact Nat.le_succ 1

theorem location_of_mem_entries {entry : NestedEntry}
    (member : entry ∈ paths.nestedSkillEntries allWithLocations) :
    entry.configWriteLocation =
      paths.skillConfigWriteLocation entry.segments := by
  obtain ⟨node, visited, rfl⟩ := List.mem_map.mp member
  obtain ⟨chain, carries⟩ := exists_carries visited
  exact carries.nodeLocation_eq

theorem exists_entry_of_location
    (located : paths.skillConfigWriteLocation segments = some location) :
    ∃ front entry back,
      paths.nestedSkillEntries allWithLocations =
          front ++ entry :: back ∧
        entry.segments = segments ∧
          entry.configWriteLocation = some location ∧
            (∀ other ∈ back, segments.length ≤ other.segments.length ∧
                other.segments ≠ segments) ∧
              ∀ other ∈ front, other.segments ≠ segments := by
  obtain ⟨installed, -⟩ := installed_of_location located
  obtain ⟨sameLength, some_⟩ := installed.length_eq
  obtain ⟨dir, ends⟩ :
      ∃ dir, (paths.nestedSkillDirChain segments).getLast? = some dir :=
    ⟨_, List.getLast?_eq_some_getLast
      (List.ne_nil_of_length_pos (sameLength ▸ some_))⟩
  obtain ⟨node, visited, rfl, -⟩ :=
    exists_node_iff.mpr ⟨_, installed, ends⟩
  have isEntry :
      nestedEntry allWithLocations node ∈
        paths.nestedSkillEntries allWithLocations :=
    List.mem_map_of_mem visited
  obtain ⟨front, back, split⟩ := List.append_of_mem isEntry
  have distinct :
      ((paths.nestedSkillEntries allWithLocations).map
        NestedEntry.segments).Nodup := by
    rw [nestedSkillEntries, List.map_map]
    exact nodup_segments paths
  have sorted := pairwise_length_entries paths
  rw [split, List.map_append, List.map_cons] at distinct
  rw [split] at sorted
  obtain ⟨-, later, notFront⟩ := List.nodup_append.mp distinct
  obtain ⟨notBack, -⟩ := List.nodup_cons.mp later
  refine ⟨front, _, back, split, rfl, ?_, ?_, ?_⟩
  · rw [location_of_mem_entries isEntry]
    exact located
  · intro other member
    constructor
    · exact (List.pairwise_cons.mp (List.pairwise_append.mp sorted).2.1).1
        other member
    · exact fun same => notBack (List.mem_map.mpr ⟨other, member, same⟩)
  · intro other member same
    exact notFront _ (List.mem_map_of_mem member) _ List.mem_cons_self same

end PathRegistry

end DeveloperDashboard.Skills
