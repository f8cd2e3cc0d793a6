import DeveloperDashboard.Library.Joined
import DeveloperDashboard.Skills.SkillInstall

namespace DeveloperDashboard.Skills

open Library Perl

/-!
# Forgetting a skill

An install appends its source to the ddfile of the home root.  An uninstall
removes the lines that name the skill, and a later install of the registered
skills goes through the lines that are left.  Both take a name from a line, by
different routes; the directories are those of the time of the uninstall.
-/

def trimLine (line : Text) : Text :=
  (line.dropWhile isByteSpace).rdropWhile isByteSpace

/-- `$line =~ /\A\s*#/ || $line =~ /\A\s*\z/` -/
def isCommentOrBlank (line : Text) : Bool :=
  (line.dropWhile isByteSpace).head?.all (· == '#')

/-- A trimmed line that is neither empty nor a comment. -/
def isEntry (line : Text) : Bool :=
  !(line.head?.all (· == '#'))

/-- The entries that `_dependency_file_lines` reads. -/
def dependencyFileLines (content : Text) : List Text :=
  ((splitLines content).map trimLine).filter isEntry

/-- `_register_root_ddfile_source`, on the text of the ddfile. -/
def registerRootDdfileSource (source existing : Text) : Text :=
  if (dependencyFileLines existing).contains source then existing
  else
    existing ++
      (if existing ≠ [] ∧ existing.getLast? ≠ some '\n' then ['\n'] else []) ++
      source ++ ['\n']

namespace SkillManager

variable (manager : SkillManager) (name : Text)

/-- `_ddfile_source_matches_repo_name` -/
def ddfileSourceMatchesRepoName (line : Text) : Bool :=
  let source := trimLine line
  isEntry source &&
    decide (extractRepoName (manager.dirs.dirOf source).isSome source =
      some name)

def removesLine (line : Text) : Bool :=
  !isCommentOrBlank line && manager.ddfileSourceMatchesRepoName name line

/-- `_unregister_root_ddfile_source`, on the text of the ddfile. -/
def unregisterRootDdfileSource (existing : Text) : Text :=
  if (splitLines existing).any (manager.removesLine name) then
    let kept := ((splitLines existing).filter fun line =>
      !manager.removesLine name line).rdropWhile (· = [])
    if kept = [] then [] else joinLines kept ++ ['\n']
  else existing

/-- The repository name of `_install_to_skills_root`. -/
def repoNameOf (source : Text) : Option Text :=
  if !isTrue source then none
  else
    match manager.localCheckedOutSource source with
    | .refused _ => none
    | .checkout dir => dir.getLast?
    | .none =>
      let cloneSource :=
        normalizeInstallSource (manager.dirs.dirOf source).isSome source
      extractRepoName (manager.dirs.dirOf cloneSource).isSome cloneSource

/-- A comment, or a line that the installer takes for another skill. -/
def isOfOthers (line : Text) : Bool :=
  (isCommentOrBlank line && decide (trimLine line ≠ [])) ||
    (isEntry (trimLine line) &&
      (manager.repoNameOf (trimLine line)).any (· ≠ name))

/--
After an install and an uninstall no entry stands for the skill, and comments
and lines of other skills are where they were.
-/
structure Forgets (source existing : Text) : Prop where
  gone :
    ∀ entry ∈ dependencyFileLines (manager.unregisterRootDdfileSource name
        (registerRootDdfileSource source existing)),
      manager.repoNameOf entry ≠ some name
  registered :
    (splitLines existing).Sublist
      (splitLines (registerRootDdfileSource source existing))
  kept :
    ((splitLines (registerRootDdfileSource source existing)).filter
      (manager.isOfOthers name)).Sublist
        (splitLines (manager.unregisterRootDdfileSource name
          (registerRootDdfileSource source existing)))

/-- The name of a repository whose last part is given. -/
def lastName (isDirectory : Bool) (last : Text) : Option Text :=
  if isDirectory then some last else withoutGit last

/--
A bare name is not the skill's, and the GitHub URL of an owner and a name is
no directory of another name.
-/
def IsShorthandAlike (source : Text) : Prop :=
  (isTrue source = true → isBareName source = true →
    lastName (manager.dirs.dirOf
      ("https://github.com/manif3station/".toList ++ source)).isSome source ≠
        some name) ∧
  (isOwnerAndName source = true →
    (manager.dirs.dirOf ("https://github.com/".toList ++ source)).isSome =
      true →
    (((source.splitOn '/').getLast?).getD [] = name ↔
      withoutGit (((source.splitOn '/').getLast?).getD []) = some name))

/-- A shorthand is alike, and a checkout has the name of its real path. -/
def NamedAlike (source : Text) : Prop :=
  match manager.localCheckedOutSource source with
  | .refused _ => True
  | .checkout dir => ∀ last ∈ dir.getLast?, last = name ↔ baseName source = name
  | .none => manager.IsShorthandAlike name source

/-- An uninstall takes a name from a text where an install takes it. -/
def IsTakenAlike (source : Text) : Prop :=
  (manager.repoNameOf source = some name →
    extractRepoName (manager.dirs.dirOf source).isSome source = some name) ∧
  (extractRepoName (manager.dirs.dirOf source).isSome source = some name →
    ∀ other ∈ manager.repoNameOf source, other = name)

end SkillManager

theorem lastPart_append (front : Text) {last : Text} (noSlash : '/' ∉ last) :
    (((front ++ '/' :: last).splitOn '/').getLast?).getD [] = last := by
  rw [List.splitOn_append_cons_self, List.splitOn_eq_singleton noSlash,
    List.getLast?_concat]
  rfl

theorem extractRepoName_append (isDirectory : Bool) (front : Text)
    {last : Text} (noSlash : '/' ∉ last) (nonempty : last ≠ []) :
    extractRepoName isDirectory (front ++ '/' :: last) =
      SkillManager.lastName isDirectory last := by
  have slash : '/' ∈ front ++ '/' :: last :=
    List.mem_append_right front List.mem_cons_self
  have given : isTrue (front ++ '/' :: last) = true := by
    refine decide_eq_true ⟨List.ne_nil_of_mem slash, fun zero => ?_⟩
    rw [zero] at slash
    revert slash
    decide
  have ends : (front ++ '/' :: last).rdropWhile (· == '/') =
      front ++ '/' :: last := by
    refine List.rdropWhile_eq_self_iff.mpr fun _ isSlash => noSlash ?_
    rw [List.getLast_append_of_ne_nil _ (List.cons_ne_nil _ _),
      List.getLast_cons nonempty, beq_iff_eq] at isSlash
    rw [← isSlash]
    exact List.getLast_mem nonempty
  unfold extractRepoName SkillManager.lastName
  rw [given, List.contains_iff_mem.mpr slash, lastPart_append front noSlash,
    baseName, ends, if_neg (List.ne_nil_of_mem slash),
    lastPart_append front noSlash]
  rfl

theorem noSlash_of_isBareName {source : Text}
    (bare : isBareName source = true) : '/' ∉ source ∧ source ≠ [] := by
  obtain ⟨nonempty, all⟩ := Bool.and_eq_true_iff.mp bare
  refine ⟨fun slash => ?_, of_decide_eq_true nonempty⟩
  have isSourceChar := List.all_eq_true.mp all '/' slash
  revert isSourceChar
  decide

theorem of_isOwnerAndName {source : Text}
    (shorthand : isOwnerAndName source = true) :
    ∃ owner last, source = owner ++ '/' :: last ∧
      isBareName owner = true ∧ isBareName last = true := by
  unfold isOwnerAndName at shorthand
  split at shorthand
  · next owner last parts =>
      obtain ⟨isOwner, isLast⟩ := Bool.and_eq_true_iff.mp shorthand
      refine ⟨owner, last, ?_, isOwner, isLast⟩
      have joined : ['/'].intercalate (source.splitOn '/') = source :=
        List.intercalate_splitOn '/'
      rw [parts] at joined
      exact joined.symm.trans (by simp)
  · cases shorthand

theorem plain_of_shorthand {source : Text} {char : Char}
    (member : char ∈ source)
    (shorthand : isBareName source = true ∨ isOwnerAndName source = true) :
    isSourceChar char = true ∨ char = '/' := by
  have plain : ∀ {name : Text}, isBareName name = true → char ∈ name →
      isSourceChar char = true := fun bare isIn =>
    List.all_eq_true.mp (Bool.and_eq_true_iff.mp bare).2 char isIn
  rcases shorthand with bare | shorthand
  · exact Or.inl (plain bare member)
  · obtain ⟨owner, last, rfl, isOwner, isLast⟩ := of_isOwnerAndName shorthand
    rcases List.mem_append.mp member with isIn | isIn
    · exact Or.inl (plain isOwner isIn)
    · rcases List.mem_cons.mp isIn with rfl | isIn
      · exact Or.inr rfl
      · exact Or.inl (plain isLast isIn)

/-- A shorthand is neither a URL nor an address of Git. -/
theorem not_remote_of_shorthand {source : Text}
    (shorthand : isBareName source = true ∨ isOwnerAndName source = true) :
    isUrl source = false ∧ ("git@".toList).isPrefixOf source = false := by
  refine ⟨Bool.eq_false_iff.mpr fun url => ?_,
    Bool.eq_false_iff.mpr fun git => ?_⟩
  · cases source with
    | nil => cases url
    | cons first rest =>
      have starts := List.isPrefixOf_iff_prefix.mp
        (Bool.and_eq_true_iff.mp url).2
      have colon : ':' ∈ rest :=
        (List.dropWhile_suffix _).mem (starts.mem List.mem_cons_self)
      have plain := plain_of_shorthand (List.mem_cons_of_mem _ colon)
        shorthand
      revert plain
      decide
  · have sign : '@' ∈ source :=
      (List.isPrefixOf_iff_prefix.mp git).mem (by decide)
    have plain := plain_of_shorthand sign shorthand
    revert plain
    decide

namespace SkillManager

variable {manager : SkillManager} {name source : Text}

theorem isSome_dirOf_of_checkout {dir : Path}
    (here : manager.localCheckedOutSource source = .checkout dir) :
    (manager.dirs.dirOf source).isSome = true := by
  unfold localCheckedOutSource at here
  split at here
  · cases here
  split at here
  · cases here
  split at here
  · cases here
  · next isDir =>
      rw [isDir]
      rfl

theorem isUrl_or_of_none (given : isTrue source = true)
    (here : manager.localCheckedOutSource source = .none) :
    isUrl source = true ∨ manager.dirs.dirOf source = none := by
  unfold localCheckedOutSource at here
  rw [given] at here
  split at here
  · next zero => cases zero
  split at here
  · next url => exact Or.inl url
  split at here
  · next isNone => exact Or.inr isNone
  · split at here
    · cases here
    · split at here <;> cases here

theorem isTakenAlike_of_eq
    (same : manager.repoNameOf source =
      extractRepoName (manager.dirs.dirOf source).isSome source) :
    manager.IsTakenAlike name source := by
  rw [IsTakenAlike, same]
  exact ⟨id, fun taken _ member =>
    Option.some.inj (member.symm.trans taken)⟩

theorem isShorthandAlike_iff (given : isTrue source = true)
    (here : manager.localCheckedOutSource source = .none) :
    manager.IsShorthandAlike name source ↔
      manager.IsTakenAlike name source := by
  have named : manager.repoNameOf source =
      extractRepoName (manager.dirs.dirOf (normalizeInstallSource
        (manager.dirs.dirOf source).isSome source)).isSome
        (normalizeInstallSource (manager.dirs.dirOf source).isSome
          source) := by
    rw [repoNameOf, given, here]
    rfl
  have nonempty : source ≠ [] := (of_decide_eq_true given).1
  by_cases shorthand : isBareName source = true ∨ isOwnerAndName source = true
  · obtain ⟨noUrl, noGit⟩ := not_remote_of_shorthand shorthand
    have absent : manager.dirs.dirOf source = none :=
      (isUrl_or_of_none given here).resolve_left
        (Bool.eq_false_iff.mp noUrl)
    rw [normalizeInstallSource, absent, if_neg nonempty,
      if_neg (by decide), noUrl, noGit, if_neg Bool.false_ne_true,
      if_neg Bool.false_ne_true] at named
    unfold IsShorthandAlike IsTakenAlike
    rw [named, absent]
    cases owned : isOwnerAndName source with
    | true =>
      obtain ⟨owner, last, rfl, -, isLast⟩ := of_isOwnerAndName owned
      obtain ⟨noSlash, isSome⟩ := noSlash_of_isBareName isLast
      have notBare : isBareName (owner ++ '/' :: last) = false :=
        Bool.eq_false_iff.mpr fun bare =>
          (noSlash_of_isBareName bare).1 (by simp)
      rw [if_pos rfl, lastPart_append owner noSlash, notBare,
        extractRepoName_append _ owner noSlash isSome]
      generalize (manager.dirs.dirOf _).isSome = isDirectory
      generalize (manager.dirs.dirOf _).isSome = isDirectory
      rw [← List.append_assoc, extractRepoName_append _ _ noSlash isSome]
      cases isDirectory with
      | false =>
        exact iff_of_true (by simp) ⟨id, fun taken _ member =>
          Option.some.inj (member.symm.trans taken)⟩
      | true => simp [lastName, iff_def]
    | false =>
      have bare := shorthand.resolve_right (Bool.eq_false_iff.mp owned)
      obtain ⟨noSlash, isSome⟩ := noSlash_of_isBareName bare
      have site : "https://github.com/manif3station/".toList =
          "https://github.com/manif3station".toList ++ ['/'] := by
        decide
      have unnamed : extractRepoName false source = none := by
        rw [extractRepoName, given, Bool.not_true,
          if_neg Bool.false_ne_true, if_neg Bool.false_ne_true,
          if_neg (mt List.contains_iff_mem.mp noSlash)]
      rw [bare, if_neg Bool.false_ne_true, if_pos rfl]
      generalize (manager.dirs.dirOf _).isSome = isDirectory
      rw [site, List.append_assoc, List.singleton_append,
        extractRepoName_append _ _ noSlash isSome]
      simp [unnamed, given]
  · have same : normalizeInstallSource (manager.dirs.dirOf source).isSome
        source = source := by
      obtain ⟨notBare, notOwned⟩ := not_or.mp shorthand
      unfold normalizeInstallSource
      rw [if_neg nonempty, if_neg notBare, if_neg notOwned]
      simp
    rw [same] at named
    refine iff_of_true ⟨fun _ bare => ?_, fun owned => ?_⟩
      (isTakenAlike_of_eq named)
    · exact absurd (Or.inl bare) shorthand
    · exact absurd (Or.inr owned) shorthand

/-- Alike is what an install and an uninstall take from a line. -/
theorem namedAlike_iff :
    manager.NamedAlike name source ↔ manager.IsTakenAlike name source := by
  cases given : isTrue source with
  | false =>
    have here : manager.localCheckedOutSource source = .none := by
      rw [localCheckedOutSource, given]
      rfl
    have unowned : isOwnerAndName source = false := by
      have zero := of_decide_eq_false given
      by_cases empty : source = []
      · rw [empty]
        rfl
      · rw [not_and_not_right.mp zero empty]
        decide
    have unnamed : manager.repoNameOf source = none := by
      rw [repoNameOf, given]
      rfl
    rw [NamedAlike, here, IsTakenAlike, unnamed]
    simp [IsShorthandAlike, given, unowned, extractRepoName]
  | true =>
    cases here : manager.localCheckedOutSource source with
    | none =>
      rw [NamedAlike, here]
      exact isShorthandAlike_iff given here
    | refused error =>
      have unnamed : manager.repoNameOf source = none := by
        rw [repoNameOf, given, here]
        rfl
      rw [NamedAlike, here, IsTakenAlike, unnamed]
      simp
    | checkout dir =>
      have named : manager.repoNameOf source = dir.getLast? := by
        rw [repoNameOf, given, here]
        rfl
      have isDirectory : extractRepoName true source =
          some (baseName source) := by
        rw [extractRepoName, given]
        rfl
      rw [NamedAlike, here, IsTakenAlike, named,
        isSome_dirOf_of_checkout here, isDirectory]
      change (∀ last ∈ dir.getLast?, last = name ↔ _) ↔ _
      cases dir.getLast? with
      | none => simp
      | some last => simp [iff_def]

theorem isEntry_trimLine (line : Text) :
    isEntry (trimLine line) = !isCommentOrBlank line := by
  unfold isEntry isCommentOrBlank trimLine
  cases front : line.dropWhile isByteSpace with
  | nil => rfl
  | cons first rest =>
    have noSpace : isByteSpace first = false := by
      have head := List.head?_dropWhile_not isByteSpace line
      rwa [front] at head
    have starts : (first :: rest).rdropWhile isByteSpace <+: first :: rest :=
      List.rdropWhile_prefix _ _
    cases kept : (first :: rest).rdropWhile isByteSpace with
    | nil =>
      have all := List.rdropWhile_eq_nil_iff.mp kept first
        List.mem_cons_self
      rw [noSpace] at all
      cases all
    | cons head tail =>
      rw [kept, List.cons_prefix_cons] at starts
      rw [starts.1]
      rfl

theorem removesLine_of_isEntry {line : Text}
    (entry : isEntry (trimLine line) = true) :
    manager.removesLine name line =
      decide (extractRepoName (manager.dirs.dirOf (trimLine line)).isSome
        (trimLine line) = some name) := by
  rw [removesLine, ddfileSourceMatchesRepoName, ← isEntry_trimLine, entry]
  rfl

/-- Where both names agree, lines of other skills are not removed. -/
theorem removesLine_of_isOfOthers {line : Text}
    (alike : isEntry (trimLine line) = true →
      manager.NamedAlike name (trimLine line))
    (others : manager.isOfOthers name line = true) :
    manager.removesLine name line = false := by
  cases entry : isEntry (trimLine line) with
  | false =>
    rw [removesLine, ← isEntry_trimLine, entry]
    rfl
  | true =>
    rw [removesLine_of_isEntry entry]
    refine decide_eq_false fun taken => ?_
    have alone := (namedAlike_iff.mp (alike entry)).2 taken
    have comment := isEntry_trimLine line
    rw [entry, eq_comm, Bool.not_eq_true'] at comment
    rw [isOfOthers, entry, comment] at others
    obtain ⟨other, isOther, different⟩ :=
      (Option.any_eq_true _ _).mp others
    exact of_decide_eq_true different (alone other isOther)

theorem filter_rdropWhile (selects drops : Text → Bool) (lines : List Text)
    (apart : ∀ line, drops line = true → selects line = false) :
    (lines.rdropWhile drops).filter selects = lines.filter selects := by
  induction lines using List.reverseRecOn with
  | nil => rfl
  | append_singleton front last ih =>
    rw [List.rdropWhile_concat]
    split
    · next dropped =>
        rw [ih, List.filter_append, List.filter_cons, apart last dropped]
        simp
    · rfl

/-- An uninstall takes out the lines it removes, and blank lines. -/
theorem filter_splitLines_unregister (manager : SkillManager)
    (name : Text) (selects : Text → Bool) (notBlank : selects [] = false)
    (existing : Text) :
    (splitLines (manager.unregisterRootDdfileSource name existing)).filter
        selects =
      ((splitLines existing).filter fun line =>
        !manager.removesLine name line).filter selects := by
  unfold unregisterRootDdfileSource
  split
  · next removed =>
      have plain : ∀ line ∈ (splitLines existing).filter fun line =>
          !manager.removesLine name line, '\n' ∉ line := by
        intro line member
        have isLine := (List.mem_filter.mp member).1
        unfold splitLines at isLine
        split at isLine
        · cases isLine
        · exact Joined.not_mem_of_mem_splitOn isLine
      refine Eq.trans ?_ (filter_rdropWhile selects (· = []) _
        fun line blank =>
          (congrArg selects (of_decide_eq_true blank)).trans notBlank)
      have others : ∀ line ∈ ((splitLines existing).filter fun line =>
          !manager.removesLine name line).rdropWhile (· = []),
          '\n' ∉ line := fun line member =>
        plain line ((List.rdropWhile_prefix _ _).mem member)
      generalize ((splitLines existing).filter _).rdropWhile _ = lines
        at others ⊢
      dsimp only
      split
      · next empty => rw [empty]; rfl
      · next some_ =>
          have split : splitLines (joinLines lines ++ ['\n']) =
              lines ++ [[]] := by
            rw [splitLines, if_neg (by simp),
              List.splitOn_append_cons_self, joinLines,
              List.splitOn_intercalate '\n' others some_]
            rfl
          rw [split, List.filter_append, List.filter_cons, notBlank]
          simp
  · next none =>
      have all : ∀ line ∈ splitLines existing,
          (!manager.removesLine name line) = true := by
        simpa using none
      rw [List.filter_eq_self.mpr all]

theorem splitLines_register (source existing : Text) :
    (splitLines existing).Sublist
      (splitLines (registerRootDdfileSource source existing)) := by
  unfold registerRootDdfileSource
  split
  · exact List.Sublist.refl _
  · by_cases empty : existing = []
    · rw [empty]
      exact List.nil_sublist _
    · rw [splitLines, splitLines, if_neg empty, if_neg (by simp [empty])]
      by_cases ends : existing.getLast? = some '\n'
      · obtain ⟨front, rfl⟩ := List.getLast?_eq_some_iff.mp ends
        rw [if_neg fun both => both.2 ends, List.append_nil,
          List.append_assoc front, List.append_assoc front,
          List.singleton_append, List.cons_append,
          List.splitOn_append_cons_self, List.splitOn_append_cons_self,
          List.splitOn_append_cons_self]
        exact (List.sublist_append_right _ _).append_left _
      · rw [if_pos ⟨empty, ends⟩, List.append_assoc existing,
          List.append_assoc existing, List.singleton_append,
          List.cons_append,
          List.splitOn_append_cons_self]
        exact List.sublist_append_left _ _

theorem forgets_iff (manager : SkillManager) (name source existing : Text) :
    manager.Forgets name source existing ↔
      ∀ entry ∈ dependencyFileLines
          (registerRootDdfileSource source existing),
        manager.NamedAlike name entry := by
  have entries : ∀ content, dependencyFileLines content =
      ((splitLines content).filter (isEntry ∘ trimLine)).map trimLine :=
    fun content => List.filter_map
  have after : ∀ content,
      (splitLines (manager.unregisterRootDdfileSource name content)).filter
          (isEntry ∘ trimLine) = _ :=
    filter_splitLines_unregister manager name (isEntry ∘ trimLine) rfl
  constructor
  · rintro ⟨gone, -, kept⟩ entry member
    rw [entries] at member
    obtain ⟨line, isLine, rfl⟩ := List.mem_map.mp member
    obtain ⟨isIn, isEntry⟩ := List.mem_filter.mp isLine
    change Skills.isEntry (trimLine line) = true at isEntry
    refine namedAlike_iff.mpr ⟨fun named => ?_, fun taken other isOther => ?_⟩
    · by_contra missed
      refine gone (trimLine line) ?_ named
      rw [entries, after]
      refine List.mem_map_of_mem (List.mem_filter.mpr
        ⟨List.mem_filter.mpr ⟨isIn, ?_⟩, isEntry⟩)
      rw [removesLine_of_isEntry isEntry, decide_eq_false missed]
      rfl
    · by_contra different
      have isOthers : manager.isOfOthers name line = true := by
        obtain ⟨found, isFound⟩ : ∃ found,
            manager.repoNameOf (trimLine line) = some found := ⟨_, isOther⟩
        rw [isOfOthers, isEntry, isFound]
        rw [isFound] at isOther
        obtain rfl := Option.some.inj isOther
        simp [different]
      have stays := kept.subset (List.mem_filter.mpr ⟨isIn, isOthers⟩)
      have isKept : line ∈ (splitLines _).filter (Skills.isEntry ∘ trimLine) :=
        List.mem_filter.mpr ⟨stays, isEntry⟩
      rw [after] at isKept
      have spared := (List.mem_filter.mp (List.mem_filter.mp isKept).1).2
      rw [removesLine_of_isEntry isEntry, decide_eq_true taken] at spared
      cases spared
  · intro alike
    refine ⟨fun entry member named => ?_, splitLines_register source existing,
      ?_⟩
    · rw [entries, after] at member
      obtain ⟨line, isLine, rfl⟩ := List.mem_map.mp member
      obtain ⟨isKept, isEntry⟩ := List.mem_filter.mp isLine
      obtain ⟨isIn, spared⟩ := List.mem_filter.mp isKept
      have taken := (namedAlike_iff.mp (alike (trimLine line) (by
        rw [entries]
        exact List.mem_map_of_mem (List.mem_filter.mpr
          ⟨isIn, isEntry⟩)))).1 named
      rw [removesLine_of_isEntry isEntry, decide_eq_true taken] at spared
      cases spared
    · have rewritten := filter_splitLines_unregister manager name
        (manager.isOfOthers name) rfl
        (registerRootDdfileSource source existing)
      rw [List.filter_filter] at rewritten
      have same : (splitLines (registerRootDdfileSource source
          existing)).filter (manager.isOfOthers name) = _ :=
        (List.filter_congr fun line isIn => ?_).trans rewritten.symm
      · rw [same]
        exact List.filter_sublist
      · cases others : manager.isOfOthers name line with
        | false => rfl
        | true =>
          rw [removesLine_of_isOfOthers (fun isEntry => alike _ (by
            rw [entries]
            exact List.mem_map_of_mem (List.mem_filter.mpr
              ⟨isIn, isEntry⟩))) others]
          rfl

def besideNothing : SkillManager where
  tree := ⟨[], by decide⟩
  dirs := ⟨fun _ => none, fun _ _ found => by cases found⟩
  cloneBranch := none

theorem bare_name_is_not_forgotten :
    besideNothing.planInstall "demo".toList [] =
        .ok ⟨none, "https://github.com/manif3station/demo".toList,
          ["demo".toList]⟩ ∧
      ¬ besideNothing.Forgets "demo".toList "demo".toList [] := by
  refine ⟨by rfl, fun forgets => ?_⟩
  exact forgets.gone "demo".toList (by decide +kernel) (by decide +kernel)

end SkillManager

end DeveloperDashboard.Skills
