import DeveloperDashboard.Library.FirstFound
import DeveloperDashboard.Skills.CommandMarkers

namespace DeveloperDashboard.Skills

open Library Perl

/-!
# Route segments

A dispatcher looks a skill up by a name of several segments, of which each
names a skill in the one before.  A route belongs to the longest prefix of its
segments that names an installed skill.
-/

variable {Content : Type}

def joinSegments (segments : List Text) : Text :=
  ['/'].intercalate segments

def ajaxFolder : List Text :=
  ["dashboards".toList, "ajax".toList]

namespace PathRegistry

/-- What `resolve_route_segments` gives. -/
structure RouteSpec where
  skillName : Text
  routeSegments : List Text
  skillLayers : List Path
deriving DecidableEq

variable (paths : PathRegistry Content)

/-- The name and the layers of the skill that some segments name. -/
def installedSkill? (segments : List Text) : Option (Text × List Path) :=
  let skillLayers := paths.dispatcherSkillLayers (joinSegments segments)
  if skillLayers = [] then none
  else some (joinSegments segments, skillLayers)

/-- `resolve_route_segments`, of segments that are not empty. -/
def resolveRouteSegments (segments : List Text) : Option RouteSpec :=
  (LongestPrefix.search paths.installedSkill? [] segments).map
    fun best => ⟨best.1.1, best.2, best.1.2⟩

/-- `skill_ajax_file_path`. -/
def skillAjaxFilePath (skillName ajaxFile : Text) : Option Path :=
  if isTrue skillName && isTrue ajaxFile then
    match validatedPathSegments ajaxFile with
    | [] => none
    | first :: rest =>
      ((paths.dispatcherSkillLayers skillName).reverse.map
        fun skillPath =>
          skillPath ++ ajaxFolder ++ first :: rest).find?
            paths.tree.isFile
  else none

end PathRegistry

theorem joinSegments_append
    {segments others : List Text} (nonempty : segments ≠ [])
    (nonemptyToo : others ≠ []) :
    joinSegments (segments ++ others) =
      joinSegments segments ++ '/' :: joinSegments others := by
  induction segments with
  | nil => contradiction
  | cons first rest ih =>
    cases rest with
    | nil =>
      obtain ⟨next, behind, rfl⟩ := List.exists_cons_of_ne_nil nonemptyToo
      unfold joinSegments
      rw [List.singleton_append, Joined.intercalate_cons_cons,
        List.intercalate_singleton]
    | cons second behind =>
      have later := ih (List.cons_ne_nil _ _)
      unfold joinSegments at later ⊢
      rw [List.cons_append, List.cons_append,
        Joined.intercalate_cons_cons, Joined.intercalate_cons_cons,
        ← List.cons_append, later, List.append_assoc]
      rfl

structure AreSegments (segments : List Text) : Prop where
  nonempty : segments ≠ []
  noSlash : ∀ segment ∈ segments, '/' ∉ segment
  present : [] ∉ segments

namespace AreSegments

variable {segments : List Text}

section

variable (are : AreSegments segments)

include are

theorem splitOn_joinSegments :
    (joinSegments segments).splitOn '/' = segments :=
  List.splitOn_intercalate '/' are.noSlash are.nonempty

theorem filter_eq {part : List Text}
    (within : part ⊆ segments) :
    part.filter (fun segment => decide (segment ≠ [])) = part := by
  rw [List.filter_eq_self]
  intro segment isSegment
  rw [decide_eq_true_eq]
  rintro rfl
  exact are.present (within isSegment)

theorem splitSlashes_joinSegments :
    splitSlashes (joinSegments segments) = segments := by
  unfold splitSlashes
  rw [are.splitOn_joinSegments]
  dsimp only
  rw [are.filter_eq (List.dropLast_subset _),
    List.getLast?_eq_some_getLast are.nonempty]
  exact List.dropLast_append_getLast are.nonempty

theorem eq_of_validated
    (valid : validatedPathSegments (joinSegments segments) ≠ []) :
    validatedPathSegments (joinSegments segments) = segments := by
  obtain ⟨-, -, -, -, same, -⟩ := validated_of_ne_nil valid
  exact same.trans are.splitSlashes_joinSegments

omit are in
theorem head?_joinSegments {first : Text} {rest : List Text}
    (are : AreSegments (first :: rest)) :
    (joinSegments (first :: rest)).head? = first.head? ∧
      hasDrivePrefix (joinSegments (first :: rest)) =
        hasDrivePrefix first := by
  have nonempty : first ≠ [] := by
    rintro rfl
    exact are.present List.mem_cons_self
  unfold joinSegments
  rcases exists_intercalate_cons first rest with same | ⟨later, same⟩
  · rw [same]
    exact ⟨rfl, rfl⟩
  · rw [same]
    exact ⟨List.head?_append_of_ne_nil _ nonempty,
      hasDrivePrefix_append nonempty⟩

theorem joinSegments_ne_nil :
    joinSegments segments ≠ [] := by
  intro empty
  have split := are.splitOn_joinSegments
  rw [empty] at split
  apply are.present
  rw [← split]
  exact List.mem_cons_self

theorem isTrue_joinSegments :
    isTrue (joinSegments segments) = true ↔ segments ≠ [['0']] := by
  unfold Perl.isTrue
  rw [decide_eq_true_eq, and_iff_right are.joinSegments_ne_nil]
  refine not_congr ⟨?_, ?_⟩
  · intro zero
    rw [← are.splitOn_joinSegments, zero]
    rfl
  · rintro rfl
    rfl

theorem append {others : List Text}
    (areToo : AreSegments others) : AreSegments (segments ++ others) where
  nonempty := List.append_ne_nil_of_left_ne_nil are.nonempty _
  noSlash := by
    intro segment isSegment
    rcases List.mem_append.mp isSegment with before | behind
    · exact are.noSlash segment before
    · exact areToo.noSlash segment behind
  present := by
    rw [List.mem_append, not_or]
    exact ⟨are.present, areToo.present⟩

theorem of_subset {part : List Text}
    (within : part ⊆ segments) (nonempty : part ≠ []) :
    AreSegments part where
  nonempty := nonempty
  noSlash segment isSegment := are.noSlash segment (within isSegment)
  present empty := are.present (within empty)

end

end AreSegments

/-- What the names of saved Ajax files are made of. -/
def isFileChar (char : Char) : Bool :=
  char.isAlphanum || char = '.' || char = '_' || char = '-'

structure AreFileSegments (segments : List Text) : Prop
    extends AreSegments segments where
  fileChars : ∀ segment ∈ segments, segment.all isFileChar = true
  noParent : ['.', '.'] ∉ segments

/-- A character of a name is neither a control nor a backslash nor a colon. -/
theorem isFileChar_bounds {char : Char} (isName : isFileChar char = true) :
    isControl char = false ∧ char ≠ '\\' ∧ char ≠ ':' ∧ char ≠ '/' ∧
      char ≠ '%' := by
  unfold isFileChar at isName
  simp only [Bool.or_eq_true, decide_eq_true_eq] at isName
  rcases isName with ((alphanumeric | rfl) | rfl) | rfl
  · have bounds := toNat_of_isAlphanum alphanumeric
    refine ⟨?_, ?_, ?_, ?_, ?_⟩
    · unfold isControl
      simp only [Bool.or_eq_false_iff, decide_eq_false_iff_not]
      omega
    all_goals
      rintro rfl
      exact absurd alphanumeric (by decide)
  · decide
  · decide
  · decide

/-- A file name is valid unless a segment is a dot. -/
theorem AreFileSegments.validatedPathSegments_eq
    {segments : List Text} (are : AreFileSegments segments) :
    validatedPathSegments (joinSegments segments) =
      if ['.'] ∈ segments then [] else segments := by
  have ofJoined {char : Char} (isIn : char ∈ joinSegments segments) :
      isFileChar char = true ∨ char = '/' := by
    rcases Joined.mem_intercalate_iff.mp isIn with
      ⟨segment, isSegment, isIn⟩ | ⟨slash, -⟩
    · exact Or.inl (List.all_eq_true.mp (are.fileChars _ isSegment) _ isIn)
    · exact Or.inr slash
  split
  · next isDot =>
      by_contra valid
      obtain ⟨-, -, -, -, -, accepted⟩ := validated_of_ne_nil valid
      rw [are.splitSlashes_joinSegments] at accepted
      exact accepted ['.'] isDot (Or.inr (Or.inl rfl))
  · next noDot =>
      have clean : isClean (joinSegments segments) = true := by
        unfold isClean
        rw [Bool.and_eq_true, Bool.not_eq_true', List.any_eq_false,
          decide_eq_true_eq]
        constructor
        · intro char isIn
          rcases ofJoined isIn with isName | rfl
          · rw [(isFileChar_bounds isName).1]
            exact Bool.false_ne_true
          · decide
        · intro isIn
          rcases ofJoined isIn with isName | slash
          · exact (isFileChar_bounds isName).2.1 rfl
          · exact absurd slash (by decide)
      have noDrive : hasDrivePrefix (joinSegments segments) = false := by
        rw [Bool.eq_false_iff]
        intro drive
        unfold hasDrivePrefix at drive
        split at drive
        · next letter rest same =>
            rcases ofJoined (same ▸ by simp : ':' ∈ joinSegments segments)
              with isName | slash
            · exact (isFileChar_bounds isName).2.2.1 rfl
            · exact absurd slash (by decide)
        · cases drive
      have relative : (joinSegments segments).head? ≠ some '/' := by
        intro slash
        obtain ⟨first, rest, rfl⟩ := List.exists_cons_of_ne_nil are.nonempty
        rw [are.head?_joinSegments.1] at slash
        exact are.noSlash first List.mem_cons_self (List.mem_of_head? slash)
      rw [Skills.validatedPathSegments_eq are.joinSegments_ne_nil relative,
        clean, noDrive, are.splitSlashes_joinSegments]
      · rfl
      · rw [are.splitSlashes_joinSegments]
        rintro segment isSegment (rfl | rfl | rfl)
        · exact are.present isSegment
        · exact noDot isSegment
        · exact are.noParent isSegment

namespace PathRegistry

variable {paths : PathRegistry Content}

theorem exists_of_mem_dispatcherSkillLayers
    {segments : List Text} {layer : Path} (are : AreSegments segments)
    (isLayer :
      layer ∈ paths.dispatcherSkillLayers (joinSegments segments)) :
    ∃ root ∈ paths.skillsRoots, ∃ rootSkill nested,
      segments = rootSkill :: nested ∧
        layer = nestedSkillPath (root ++ [rootSkill]) nested := by
  unfold dispatcherSkillLayers at isLayer
  split at isLayer
  · cases isLayer
  · split at isLayer
    · cases isLayer
    · next rootSkill nested valid =>
        have same := are.eq_of_validated (valid ▸ List.cons_ne_nil _ _)
        rw [foldl_nestedLayers] at isLayer
        obtain ⟨top, isTop, rfl⟩ := List.mem_map.mp isLayer
        have isTop := (List.mem_filter.mp isTop).1
        unfold skillLayers at isTop
        split at isTop
        · cases isTop
        · obtain ⟨root, isRoot, rfl⟩ :=
            List.mem_map.mp (mem_of_mem_layersOf isTop)
          exact ⟨root, isRoot, rootSkill, nested, same ▸ valid, rfl⟩

theorem installedSkill?_eq_none_iff {segments : List Text} :
    paths.installedSkill? segments = none ↔
      paths.dispatcherSkillLayers (joinSegments segments) = [] := by
  unfold installedSkill?
  simp

theorem installedSkill?_eq_some_iff
    {segments : List Text} {found : Text × List Path} :
    paths.installedSkill? segments = some found ↔
      paths.dispatcherSkillLayers (joinSegments segments) ≠ [] ∧
        found =
          (joinSegments segments,
            paths.dispatcherSkillLayers (joinSegments segments)) := by
  unfold installedSkill?
  dsimp only
  split
  · next absent => simp [absent]
  · next present =>
      rw [Option.some.injEq, and_iff_right present]
      exact eq_comm

/-- Segments name a skill, and with more behind them they name none. -/
structure IsLongest
    (paths : PathRegistry Content) (skill rest : List Text) : Prop where
  nonempty : skill ≠ []
  installed : paths.dispatcherSkillLayers (joinSegments skill) ≠ []
  noLonger :
    ∀ more behind, rest = more ++ behind → more ≠ [] →
      paths.dispatcherSkillLayers (joinSegments (skill ++ more)) = []

theorem resolveRouteSegments_eq_some_iff
    {segments : List Text} {spec : RouteSpec} :
    paths.resolveRouteSegments segments = some spec ↔
      ∃ skill rest, segments = skill ++ rest ∧ paths.IsLongest skill rest ∧
        spec =
          ⟨joinSegments skill, rest,
            paths.dispatcherSkillLayers (joinSegments skill)⟩ := by
  unfold resolveRouteSegments
  rw [Option.map_eq_some_iff]
  constructor
  · rintro ⟨⟨found, rest⟩, search, rfl⟩
    obtain ⟨skill, rfl, nonempty, finds, noLonger⟩ :=
      LongestPrefix.search_eq_some_iff.mp search
    rw [List.nil_append] at finds
    obtain ⟨installed, rfl⟩ := installedSkill?_eq_some_iff.mp finds
    refine ⟨skill, rest, rfl, ⟨nonempty, installed, ?_⟩, rfl⟩
    intro more behind same isMore
    exact installedSkill?_eq_none_iff.mp
      (noLonger more behind same isMore)
  · rintro ⟨skill, rest, rfl, longest, rfl⟩
    refine ⟨(_, rest), LongestPrefix.search_eq_some_iff.mpr ⟨skill, rfl,
      longest.nonempty, installedSkill?_eq_some_iff.mpr
        ⟨longest.installed, rfl⟩, ?_⟩, rfl⟩
    intro more behind same isMore
    exact installedSkill?_eq_none_iff.mpr
      (longest.noLonger more behind same isMore)

def nestedNames (segments : List Text) : List Text :=
  segments.flatMap fun segment => ["skills".toList, segment]

theorem eq_nil_of_nestedNames {segments front rest : List Text}
    (same :
      nestedNames segments ++ ajaxFolder = front ++ (ajaxFolder ++ rest)) :
    rest = [] := by
  induction segments generalizing front with
  | nil =>
    have lengths := congrArg List.length same
    rw [List.length_append, List.length_append, List.length_append]
      at lengths
    exact List.eq_nil_of_length_eq_zero (by
      change 0 + 2 = _ + (2 + _) at lengths
      omega)
  | cons segment segments ih =>
    have split :
        nestedNames (segment :: segments) ++ ajaxFolder =
          "skills".toList :: segment ::
            (nestedNames segments ++ ajaxFolder) := rfl
    rw [split] at same
    rcases front with _ | ⟨first, _ | ⟨second, front⟩⟩
    · exact absurd (List.cons.inj same).1 (by decide)
    · have later := (List.cons.inj (List.cons.inj same).2).2
      cases segments with
      | nil => exact absurd (List.cons.inj later).1 (by decide)
      | cons next others =>
        exact absurd (List.cons.inj later).1 (by decide)
    · exact ih (List.cons.inj (List.cons.inj same).2).2

/--
The folder of the handlers of a skill is a folder of handlers with names behind
it only if all names of the skill are among these.
-/
theorem exists_of_append_eq
    {root other : Path} {segments names : List Text} (nonempty : names ≠ [])
    (same :
      other ++ ajaxFolder ++ names =
        nestedSkillPath root segments ++ ajaxFolder) :
    ∃ front, names = front ++ nestedNames segments ++ ajaxFolder := by
  have same :
      other ++ (ajaxFolder ++ names) =
        root ++ (nestedNames segments ++ ajaxFolder) := by
    rw [← List.append_assoc, same, ← List.append_assoc]
    rfl
  rcases List.append_eq_append_iff.mp same with
    ⟨front, -, behind⟩ | ⟨front, -, behind⟩
  · rcases front with _ | ⟨first, _ | ⟨second, front⟩⟩
    · have whole :
          nestedNames segments ++ ajaxFolder =
            [] ++ (ajaxFolder ++ names) := behind.symm
      exact absurd (eq_nil_of_nestedNames whole) nonempty
    · have later := (List.cons.inj behind).2
      cases segments with
      | nil => exact absurd (List.cons.inj later).1 (by decide)
      | cons next others => exact absurd (List.cons.inj later).1 (by decide)
    · refine ⟨front, ?_⟩
      rw [List.append_assoc]
      exact (List.cons.inj (List.cons.inj behind).2).2
  · exact absurd (eq_nil_of_nestedNames behind) nonempty

end PathRegistry

end DeveloperDashboard.Skills
