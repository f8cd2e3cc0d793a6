import DeveloperDashboard.Library.Joined
import DeveloperDashboard.Skills.SkillCommands

namespace DeveloperDashboard.Skills

open Library Perl

/-!
# Names in commands

The segments of a command are plain names.  Validating them joined with slashes
leaves them as they are, unless there is a control character or a backslash, or
the first looks like a drive.
-/

/-- A name as it comes from a dotted command. -/
structure IsPlainSegment (segment : Text) : Prop where
  nonempty : segment ≠ []
  noDot : '.' ∉ segment
  noSlash : '/' ∉ segment

/-- Whether there is no character that validation refuses. -/
def isClean (text : Text) : Bool :=
  !text.any isControl && decide ('\\' ∉ text)

variable {segment : Text}

theorem isPlainSegment_of_mem {command : Text} (plain : '/' ∉ command)
    (member : segment ∈ commandSegments command) :
    IsPlainSegment segment := by
  obtain ⟨isPart, nonempty⟩ := List.mem_filter.mp member
  have joined : ['.'].intercalate (command.splitOn '.') = command :=
    List.intercalate_splitOn _
  refine ⟨of_decide_eq_true nonempty, Joined.not_mem_of_mem_splitOn isPart,
    fun isIn => plain ?_⟩
  rw [← joined, Joined.mem_intercalate_iff]
  exact Or.inl ⟨segment, isPart, isIn⟩

variable {first : Text}

theorem commandSegments_append
    {rest : Text} (nonempty : first ≠ []) (noDot : '.' ∉ first) :
    commandSegments (first ++ '.' :: rest) =
      first :: commandSegments rest := by
  unfold commandSegments
  rw [List.splitOn_append_cons_self, List.splitOn_eq_singleton noDot,
    List.singleton_append, List.filter_cons, if_pos (decide_eq_true nonempty)]

theorem IsPlainSegment.accepted (plain : IsPlainSegment segment) :
    ¬(segment = [] ∨ segment = ['.'] ∨ segment = ['.', '.']) := by
  rintro (rfl | rfl | rfl)
  · exact plain.nonempty rfl
  · exact plain.noDot List.mem_cons_self
  · exact plain.noDot List.mem_cons_self

theorem exists_intercalate_cons (first : Text) (rest : List Text) :
    ['/'].intercalate (first :: rest) = first ∨
      ∃ later, ['/'].intercalate (first :: rest) = first ++ '/' :: later := by
  cases rest with
  | nil => exact Or.inl List.intercalate_singleton
  | cons second others =>
    exact Or.inr ⟨_, Joined.intercalate_cons_cons first second others⟩

theorem hasDrivePrefix_append {later : Text} (nonempty : first ≠ []) :
    hasDrivePrefix (first ++ '/' :: later) = hasDrivePrefix first := by
  rcases first with _ | ⟨letter, _ | ⟨second, others⟩⟩
  · contradiction
  · rfl
  · by_cases colon : second = ':'
    · subst colon
      rfl
    · unfold hasDrivePrefix
      split <;> simp_all

theorem splitSlashes_intercalate {parts : List Text}
    (plain : ∀ part ∈ parts, IsPlainSegment part) (some_ : parts ≠ []) :
    splitSlashes (['/'].intercalate parts) = parts := by
  have kept :
      (parts.dropLast.filter fun part => decide (part ≠ [])) =
        parts.dropLast :=
    List.filter_eq_self.mpr fun part member =>
      decide_eq_true (plain part (List.dropLast_subset _ member)).nonempty
  unfold splitSlashes
  rw [List.splitOn_intercalate '/'
    (fun part member => (plain part member).noSlash) some_]
  dsimp only
  rw [kept]
  rw [List.getLast?_eq_some_getLast some_]
  exact List.dropLast_append_getLast some_

theorem validatedPathSegments_eq {path : Text} (nonempty : path ≠ [])
    (relative : path.head? ≠ some '/')
    (accepted :
      ∀ segment ∈ splitSlashes path,
        ¬(segment = [] ∨ segment = ['.'] ∨ segment = ['.', '.'])) :
    validatedPathSegments path =
      if isClean path && !hasDrivePrefix path then splitSlashes path
      else [] := by
  have noneRefused :
      ((splitSlashes path).any fun segment =>
        decide (segment = [] ∨ segment = ['.'] ∨ segment = ['.', '.'])) =
        false :=
    List.any_eq_false.mpr fun segment member refused =>
      accepted segment member (of_decide_eq_true refused)
  unfold validatedPathSegments isClean
  rw [if_neg nonempty]
  dsimp only
  rw [noneRefused, if_neg relative]
  cases path.any isControl <;> by_cases backslash : '\\' ∈ path <;>
    cases hasDrivePrefix path <;> simp [backslash]

/-- What is known of a path of which validation leaves something. -/
theorem validated_of_ne_nil
    {path : Text} (valid : validatedPathSegments path ≠ []) :
    path ≠ [] ∧ path.head? ≠ some '/' ∧ isClean path = true ∧
      hasDrivePrefix path = false ∧
      validatedPathSegments path = splitSlashes path ∧
      ∀ segment ∈ splitSlashes path,
        ¬(segment = [] ∨ segment = ['.'] ∨ segment = ['.', '.']) := by
  have unfolded := valid
  unfold validatedPathSegments at unfolded
  split at unfolded
  · contradiction
  · next nonempty =>
      split at unfolded
      · contradiction
      · next noControl =>
          split at unfolded
          · contradiction
          · next noBackslash =>
              split at unfolded
              · contradiction
              · next relative =>
                  split at unfolded
                  · contradiction
                  · next noDrive =>
                      dsimp only at unfolded
                      split at unfolded
                      · contradiction
                      · next noneRefused =>
                          have accepted :
                              ∀ segment ∈ splitSlashes path,
                                ¬(segment = [] ∨ segment = ['.'] ∨
                                  segment = ['.', '.']) :=
                            fun segment member refused =>
                              noneRefused (List.any_eq_true.mpr
                                ⟨segment, member, decide_eq_true refused⟩)
                          have clean : isClean path = true := by
                            simp [isClean, noBackslash,
                              Bool.eq_false_iff.mpr noControl]
                          have drive := Bool.eq_false_iff.mpr noDrive
                          refine ⟨nonempty, relative, clean, drive, ?_,
                            accepted⟩
                          rw [validatedPathSegments_eq nonempty relative
                            accepted, clean, drive]
                          rfl

theorem isClean_intercalate (parts : List Text) :
    isClean (['/'].intercalate parts) = parts.all isClean := by
  rw [Bool.eq_iff_iff, List.all_eq_true]
  simp only [isClean, Bool.and_eq_true, Bool.not_eq_true',
    List.any_eq_false, decide_eq_true_eq, Joined.mem_intercalate_iff]
  constructor
  · rintro ⟨noControl, noBackslash⟩ part member
    exact ⟨fun char isIn => noControl char (Or.inl ⟨part, member, isIn⟩),
      fun isIn => noBackslash (Or.inl ⟨part, member, isIn⟩)⟩
  · intro clean
    constructor
    · rintro char (⟨part, member, isIn⟩ | ⟨rfl, -⟩)
      · exact (clean part member).1 char isIn
      · decide
    · rintro (⟨part, member, isIn⟩ | ⟨slash, -⟩)
      · exact (clean part member).2 isIn
      · exact absurd slash (by decide)

variable {rest : List Text}

section

variable (plain : ∀ part ∈ first :: rest, IsPlainSegment part)

include plain

/-- What validation leaves of plain names that are joined. -/
theorem validatedPathSegments_intercalate :
    validatedPathSegments (['/'].intercalate (first :: rest)) =
      if (first :: rest).all isClean && !hasDrivePrefix first then
        first :: rest
      else [] := by
  have firstPlain := plain first List.mem_cons_self
  have split := splitSlashes_intercalate plain (List.cons_ne_nil _ _)
  have begins :
      ['/'].intercalate (first :: rest) ≠ [] ∧
        (['/'].intercalate (first :: rest)).head? = first.head? ∧
        hasDrivePrefix (['/'].intercalate (first :: rest)) =
          hasDrivePrefix first := by
    rcases exists_intercalate_cons first rest with same | ⟨later, same⟩
    · rw [same]
      exact ⟨firstPlain.nonempty, rfl, rfl⟩
    · rw [same]
      exact ⟨List.append_ne_nil_of_left_ne_nil firstPlain.nonempty _,
        List.head?_append_of_ne_nil _ firstPlain.nonempty,
        hasDrivePrefix_append firstPlain.nonempty⟩
  have relative : first.head? ≠ some '/' := fun slash =>
    firstPlain.noSlash (List.mem_of_head? slash)
  rw [validatedPathSegments_eq begins.1 (begins.2.1 ▸ relative), split,
    isClean_intercalate, begins.2.2]
  rw [split]
  exact fun part member => (plain part member).accepted

theorem areValidSegments_cons :
    areValidSegments (first :: rest) =
      ((first :: rest).all isClean && !hasDrivePrefix first) := by
  unfold areValidSegments
  rw [validatedPathSegments_intercalate plain]
  split
  · next valid => rw [valid, decide_eq_true rfl]
  · next invalid =>
      rw [Bool.eq_false_iff.mpr invalid]
      exact decide_eq_false (Nat.ne_of_lt (Nat.succ_pos _))

def qualifiedSkillName (skillName : Text) (nested : List Text) : Text :=
  nested.foldl (fun name segment => name ++ '/' :: segment) skillName

omit plain in
theorem validatedPathSegments_concat {name : Text}
    (valid : validatedPathSegments name ≠ [])
    (plain : IsPlainSegment segment) (clean : isClean segment = true) :
    validatedPathSegments (name ++ '/' :: segment) =
      validatedPathSegments name ++ [segment] := by
  obtain ⟨nonempty, relative, nameClean, noDrive, split, accepted⟩ :=
    validated_of_ne_nil valid
  have segments :
      splitSlashes (name ++ '/' :: segment) =
        splitSlashes name ++ [segment] := by
    obtain ⟨before, last, parts⟩ :=
      List.eq_nil_or_concat (name.splitOn '/') |>.resolve_left
        (List.splitOn_ne_nil '/' name)
    unfold splitSlashes at accepted ⊢
    rw [List.concat_eq_append] at parts
    rw [List.splitOn_append_cons_self,
      List.splitOn_eq_singleton plain.noSlash]
    rw [parts] at accepted ⊢
    dsimp only at accepted ⊢
    rw [List.dropLast_concat, List.getLast?_concat] at accepted ⊢
    rw [List.dropLast_concat, List.getLast?_concat, List.filter_append]
    have lastNonempty : last ≠ [] := by
      rintro rfl
      exact accepted [] (List.mem_append_right _ (List.mem_singleton_self _))
        (Or.inl rfl)
    simp [lastNonempty]
  have bothClean : isClean (name ++ '/' :: segment) = true := by
    have joined : name ++ '/' :: segment = ['/'].intercalate [name, segment] :=
      by rw [Joined.intercalate_cons_cons, List.intercalate_singleton]
    rw [joined, isClean_intercalate]
    simp [nameClean, clean]
  rw [validatedPathSegments_eq
      (List.append_ne_nil_of_left_ne_nil nonempty _)
      (by rw [List.head?_append_of_ne_nil _ nonempty]; exact relative),
    bothClean, hasDrivePrefix_append nonempty, noDrive, segments, split]
  · rfl
  · intro part member
    rw [segments] at member
    rcases List.mem_append.mp member with isOld | isNew
    · exact accepted part isOld
    · rw [List.mem_singleton.mp isNew]
      exact plain.accepted

omit plain in
theorem validatedPathSegments_qualified
    {skillName : Text} {nested : List Text}
    (valid : validatedPathSegments skillName ≠ [])
    (plain : ∀ segment ∈ nested, IsPlainSegment segment)
    (clean : nested.all isClean = true) :
    validatedPathSegments (qualifiedSkillName skillName nested) =
      validatedPathSegments skillName ++ nested := by
  induction nested generalizing skillName with
  | nil => exact (List.append_nil _).symm
  | cons segment rest ih =>
    obtain ⟨here, later⟩ := List.forall_mem_cons.mp plain
    obtain ⟨hereClean, laterClean⟩ :=
      Bool.and_eq_true_iff.mp (List.all_cons ▸ clean)
    have longer := validatedPathSegments_concat valid here hereClean
    have stillValid :
        validatedPathSegments (skillName ++ '/' :: segment) ≠ [] := by
      rw [longer]
      exact List.append_ne_nil_of_right_ne_nil _ (List.cons_ne_nil _ _)
    rw [qualifiedSkillName, List.foldl_cons]
    have whole := ih stillValid later laterClean
    rw [qualifiedSkillName] at whole
    rw [whole, longer, List.append_assoc]
    rfl

omit plain in
theorem isTrue_qualifiedSkillName {skillName : Text} {nested : List Text}
    (named : isTrue skillName = true) :
    isTrue (qualifiedSkillName skillName nested) = true := by
  induction nested generalizing skillName with
  | nil => exact named
  | cons segment rest ih =>
    refine ih (decide_eq_true ⟨?_, ?_⟩)
    · exact List.append_ne_nil_of_right_ne_nil _ (List.cons_ne_nil _ _)
    · intro same
      change skillName ++ '/' :: segment = ['0'] at same
      have slash : '/' ∈ skillName ++ '/' :: segment :=
        List.mem_append_right _ List.mem_cons_self
      rw [same] at slash
      exact absurd slash (by decide)

def CommandRootSpec.below (first : Text) (spec : CommandRootSpec) :
    CommandRootSpec :=
  { spec with nestedSegments := first :: spec.nestedSegments }

omit plain in
/-- Whether more names are valid, when none of them looks like a drive. -/
theorem areValidSegments_below {part : List Text}
    (plain : ∀ segment ∈ first :: part, IsPlainSegment segment)
    (noDrive : ∀ segment ∈ first :: part, hasDrivePrefix segment = false) :
    areValidSegments (first :: part) =
      (isClean first && areValidSegments part) := by
  rw [areValidSegments_cons plain, noDrive first List.mem_cons_self]
  cases part with
  | nil =>
    have empty : areValidSegments [] = true := rfl
    rw [empty]
    simp
  | cons second rest =>
    obtain ⟨-, later⟩ := List.forall_mem_cons.mp plain
    have second_ :=
      noDrive second (List.mem_cons_of_mem _ List.mem_cons_self)
    rw [areValidSegments_cons later, second_]
    simp

/-- The candidate that is looked for in the skill itself. -/
def ownSpec (segments : List Text) : CommandRootSpec :=
  ⟨[], ['.'].intercalate segments, false⟩

section

variable (noDrive : ∀ part ∈ first :: rest, hasDrivePrefix part = false)

include noDrive

theorem splitSpec_cons
    (count : Nat) :
    splitSpec (first :: rest) (count + 1) =
      if isClean first then
        (splitSpec rest count).map (CommandRootSpec.below first)
      else none := by
  have within :
      ∀ part ∈ first :: rest.take count, part ∈ first :: rest :=
    List.cons_subset_cons _ (List.take_subset count rest)
  unfold splitSpec
  rw [List.take_succ_cons, List.drop_succ_cons,
    areValidSegments_below (fun part member => plain part (within part member))
      (fun part member => noDrive part (within part member))]
  cases isClean first <;> cases areValidSegments (rest.take count) <;> rfl

theorem terminalSpec_cons :
    terminalSpec (first :: rest) =
      if isClean first then
        (terminalSpec rest).map (CommandRootSpec.below first)
      else none := by
  unfold terminalSpec
  rw [areValidSegments_below plain noDrive]
  cases isClean first <;> cases areValidSegments rest <;> rfl

/--
Below its own command, the candidates of a skill are those of the nested skill,
one name deeper.
-/
theorem commandRootSpecs_cons
    (some_ : rest ≠ []) :
    commandRootSpecs (first :: rest) =
      ownSpec (first :: rest) ::
        if isClean first then
          (commandRootSpecs rest).map (CommandRootSpec.below first)
        else [] := by
  have positions :
      List.range' 1 rest.length =
        (0 :: List.range' 1 (rest.length - 1)).map (· + 1) := by
    obtain ⟨second, more, rfl⟩ := List.exists_cons_of_ne_nil some_
    have shifted := List.map_add_range' (a := 1) 1 more.length 1
    rw [List.length_cons, List.range'_succ, List.map_cons,
      Nat.add_sub_cancel, ← shifted]
    refine congrArg (List.cons 1) (List.map_congr_left fun count _ => ?_)
    exact Nat.add_comm 1 count
  have cuts :
      (List.range' 1 rest.length).filterMap (splitSpec (first :: rest)) =
        (0 :: List.range' 1 (rest.length - 1)).filterMap fun count =>
          if isClean first then
            (splitSpec rest count).map (CommandRootSpec.below first)
          else none := by
    rw [positions, List.filterMap_map]
    exact List.filterMap_congr fun count _ =>
      splitSpec_cons plain noDrive count
  have own : splitSpec rest 0 = some (ownSpec rest) := rfl
  unfold commandRootSpecs
  rw [if_neg (List.cons_ne_nil _ _), if_neg some_, List.length_cons,
    Nat.add_sub_cancel, cuts, terminalSpec_cons plain noDrive]
  cases isClean first with
  | false => simp [ownSpec]
  | true =>
    simp only [if_true]
    rw [← List.map_filterMap, List.filterMap_cons_some own]
    simp [ownSpec, Option.toList_map]

end

end

theorem nestedSegments_of_mem {segments : List Text} {spec : CommandRootSpec}
    (member : spec ∈ commandRootSpecs segments) :
    areValidSegments spec.nestedSegments = true ∧
      spec.nestedSegments <+: segments := by
  unfold commandRootSpecs at member
  split at member
  · contradiction
  · rcases List.mem_append.mp member with own | whole
    · rcases List.mem_cons.mp own with rfl | isCut
      · exact ⟨rfl, List.nil_prefix⟩
      · obtain ⟨splitIndex, -, found⟩ := List.mem_filterMap.mp isCut
        unfold splitSpec at found
        split at found
        · next valid =>
            rw [← Option.some.inj found]
            exact ⟨valid, List.take_prefix _ _⟩
        · contradiction
    · rw [Option.mem_toList, terminalSpec] at whole
      split at whole
      · next valid =>
          rw [← Option.some.inj whole]
          exact ⟨valid, List.prefix_rfl⟩
      · contradiction

theorem all_isClean_of_valid {segments : List Text}
    (plain : ∀ part ∈ segments, IsPlainSegment part)
    (valid : areValidSegments segments = true) :
    segments.all isClean = true := by
  cases segments with
  | nil => rfl
  | cons first rest =>
    rw [areValidSegments_cons plain] at valid
    exact (Bool.and_eq_true_iff.mp valid).1

end DeveloperDashboard.Skills
