import DeveloperDashboard.Page.MigrateLegacy

namespace DeveloperDashboard.Page

open Perl

/-!
# Page ids and their files

A page id is validated before it is joined to a root: it loses the space around
it, a prefix `/app/` and leading slashes, and must then be a path of plain
components.  The routes to the file of a page validate once or twice, which is
the same unless what is left of the id begins with space.
-/

/-- The class `\s` on a string with or without the UTF-8 flag. -/
def isBlank (utf8 : Bool) (char : Char) : Bool :=
  isSpace char && (utf8 || decide (char.toNat < 0x80))

/-- `s/^\s+//` and `s/\s+$//`. -/
def trimBlank (utf8 : Bool) (id : Text) : Text :=
  (id.dropWhile (isBlank utf8)).rdropWhile (isBlank utf8)

/-- `s{\A/+}{}`. -/
def stripSlashes (id : Text) : Text :=
  id.dropWhile (· = '/')

/-- `s{\A/+app/+}{}`. -/
def stripApp (id : Text) : Text :=
  let relative := stripSlashes id
  if relative ≠ id && "app/".toList.isPrefixOf relative then
    stripSlashes (relative.drop 3)
  else id

/-- `_normalized_page_id` on a string with or without the flag. -/
def normalizedHeldId (utf8 : Bool) (id : Text) : Text :=
  stripSlashes (stripApp (trimBlank utf8 id))

/-- The parts between slashes of either kind. -/
def idParts (id : Text) : List Text :=
  id.splitOnP fun char => char = '\\' || char = '/'

/-- The pattern `/\A[A-Za-z]:/`. -/
def hasDrive (id : Text) : Bool :=
  (id.head?.any Char.isAlpha) && (id.drop 1).head? == some ':'

/-- `_validated_page_id` behind its fast paths; an invalid id dies. -/
def generalHeldId (utf8 : Bool) (id : Text) : Option Text :=
  let normalized := normalizedHeldId utf8 id
  if normalized = [] then none
  else if hasDrive normalized then none
  else if (idParts normalized).any fun part =>
      part = [] || part = ['.'] || part = ['.', '.'] then
    none
  else some normalized

/-- `_validated_page_id` on a string with or without the flag. -/
def validatedHeldId (utf8 : Bool) (id : Text) : Option Text :=
  if isFlatNavId id || isFlatId id then some id
  else generalHeldId utf8 id

section Files

variable (catfile : Text → Text → Text)

/-- `page_file`; a missing or invalid id dies. -/
def pageFile (root : Text) (utf8 : Bool) (id : Text) : Option Text :=
  if id = [] then none
  else (validatedHeldId utf8 id).map (catfile root)

/-- `_page_file_candidates`, as roots and files. -/
def pageFileCandidates (roots : List Text) (utf8 : Bool) (id : Text) :
    Option (List (Text × Text)) :=
  (validatedHeldId utf8 id).map fun normalized =>
    roots.map fun root => (root, catfile root normalized)

/-- The path that `_open_saved_page_at` opens. -/
def openedPath (root : Text) (utf8 : Bool) (id : Text) : Option Text :=
  (validatedHeldId utf8 id).map (catfile root)

/-- The path that `save_page` opens for a page with an id. -/
def savedPath (root : Text) (utf8 : Bool) (id : Text) : Option Text :=
  if Perl.isTrue id then
    (pageFile catfile root utf8 id).bind fun _ =>
      (validatedHeldId utf8 id).bind fun validated =>
        openedPath catfile root utf8 validated
  else none

end Files

/-- A path of plain components, which stays beneath every root. -/
structure IsPlainPath (id : Text) : Prop where
  parts : ∀ part ∈ idParts id,
    part ≠ [] ∧ part ≠ ['.'] ∧ part ≠ ['.', '.']
  relative : id.head? ≠ some '/' ∧ id.head? ≠ some '\\'
  noDrive : hasDrive id = false

structure IsCanonical
    (catfile : Text → Text → Text) (utf8 : Bool) (id : Text) : Prop where
  plain : ∀ accepted, validatedHeldId utf8 id = some accepted →
    IsPlainPath accepted
  fastPaths : isFlatNavId id = true ∨ isFlatId id = true →
    validatedHeldId utf8 id = generalHeldId utf8 id
  idempotent : ∀ accepted, validatedHeldId utf8 id = some accepted →
    validatedHeldId utf8 accepted = some accepted
  oneFile : ∀ accepted, validatedHeldId utf8 id = some accepted →
    ∀ root roots,
      pageFile catfile root utf8 id = some (catfile root accepted) ∧
      pageFileCandidates catfile roots utf8 id =
        some (roots.map fun root => (root, catfile root accepted)) ∧
      openedPath catfile root utf8 id = some (catfile root accepted) ∧
      savedPath catfile root utf8 id =
        if Perl.isTrue id then some (catfile root accepted) else none

/-- What may be stripped: slashes, or `/app/` with more slashes. -/
def IsStripped (lead : Text) : Prop :=
  (∃ count, lead = List.replicate (count + 1) '/') ∨
    ∃ count more, lead = List.replicate (count + 1) '/' ++
      ("app".toList ++ List.replicate (more + 1) '/')

/--
A path of plain components that begins with space stands behind slashes or
`/app/`.
-/
def HasBlankName (utf8 : Bool) (id : Text) : Prop :=
  ∃ lead stripped name trail,
    id = lead ++ (stripped ++ name) ++ trail ∧
    lead.all (isBlank utf8) = true ∧ trail.all (isBlank utf8) = true ∧
    IsStripped stripped ∧
    (∃ char rest, name = char :: rest ∧ isBlank utf8 char = true) ∧
    (∃ front char, name = front ++ [char] ∧ isBlank utf8 char = false) ∧
    ∀ part ∈ idParts name,
      part ≠ [] ∧ part ≠ ['.'] ∧ part ≠ ['.', '.']

variable {utf8 : Bool}

variable {char : Char}

theorem isBlank_of_isIdChar (isId : isIdChar char = true) :
    isBlank utf8 char = false := by
  rw [isBlank, (isIdChar_bounds isId).1, Bool.false_and]

theorem isBlank_slash : isBlank utf8 '/' = false :=
  rfl

structure IsTrimmed (utf8 : Bool) (text : Text) : Prop where
  start : ∀ char rest, text = char :: rest → isBlank utf8 char = false
  stop : ∀ front char, text = front ++ [char] → isBlank utf8 char = false

theorem exists_trimBlank (utf8 : Bool) (id : Text) :
    ∃ lead trail,
      id = lead ++ trimBlank utf8 id ++ trail ∧
      lead.all (isBlank utf8) = true ∧ trail.all (isBlank utf8) = true ∧
      IsTrimmed utf8 (trimBlank utf8 id) := by
  have left :
      id.takeWhile (isBlank utf8) ++ id.dropWhile (isBlank utf8) = id :=
    List.takeWhile_append_dropWhile
  have right :
      trimBlank utf8 id ++
          (id.dropWhile (isBlank utf8)).rtakeWhile (isBlank utf8) =
        id.dropWhile (isBlank utf8) :=
    List.rdropWhile_append_rtakeWhile
  refine ⟨id.takeWhile (isBlank utf8),
    (id.dropWhile (isBlank utf8)).rtakeWhile (isBlank utf8),
    ?_, ?_, ?_, ?_, ?_⟩
  · rw [List.append_assoc, right, left]
  · exact List.all_eq_true.mpr fun char isIn => List.mem_takeWhile_imp isIn
  · exact List.all_eq_true.mpr fun char isIn => List.mem_rtakeWhile_imp isIn
  · intro char rest same
    rw [same, List.cons_append] at right
    have first := List.head?_dropWhile_not (isBlank utf8) id
    rw [← right, List.head?_cons] at first
    exact first
  · intro front char same
    have nonempty : trimBlank utf8 id ≠ [] := by
      rw [same]
      simp
    have last :
        ¬ isBlank utf8 ((trimBlank utf8 id).getLast nonempty) = true :=
      List.rdropWhile_last_not _ _ nonempty
    have isLast : (trimBlank utf8 id).getLast? = some char := by
      rw [same, List.getLast?_append]
      rfl
    have isChar : (trimBlank utf8 id).getLast nonempty = char :=
      Option.some.inj
        ((List.getLast?_eq_some_getLast nonempty).symm.trans isLast)
    rw [isChar] at last
    exact Bool.eq_false_iff.mpr last

theorem trimBlank_append {lead core trail : Text}
    (before : lead.all (isBlank utf8) = true)
    (behind : trail.all (isBlank utf8) = true)
    (given : core ≠ []) (trimmed : IsTrimmed utf8 core) :
    trimBlank utf8 (lead ++ core ++ trail) = core := by
  have start :
      (lead ++ (core ++ trail)).dropWhile (isBlank utf8) =
        core ++ trail := by
    rw [List.dropWhile_append_of_pos (List.all_eq_true.mp before)]
    cases core with
    | nil => exact absurd rfl given
    | cons char rest =>
      rw [List.cons_append, List.dropWhile_cons_of_neg]
      exact Bool.eq_false_iff.mp (trimmed.start char rest rfl)
  have stop :
      (core ++ trail).rdropWhile (isBlank utf8) =
        core.rdropWhile (isBlank utf8) := by
    unfold List.rdropWhile
    rw [List.reverse_append, List.dropWhile_append_of_pos]
    intro char isIn
    exact List.all_eq_true.mp behind char (List.mem_reverse.mp isIn)
  unfold trimBlank
  rw [List.append_assoc, start, stop, List.rdropWhile_eq_self_iff]
  intro nonempty
  exact Bool.eq_false_iff.mp (trimmed.stop core.dropLast _
    (List.dropLast_append_getLast nonempty).symm)

theorem exists_slashes (text : Text) :
    ∃ count, text = List.replicate count '/' ++ stripSlashes text := by
  refine ⟨(text.takeWhile (· = '/')).length, ?_⟩
  have slashes :
      text.takeWhile (· = '/') =
        List.replicate (text.takeWhile (· = '/')).length '/' :=
    List.eq_replicate_of_mem fun _ isIn => by
      simpa using List.mem_takeWhile_imp isIn
  rw [← slashes]
  exact List.takeWhile_append_dropWhile.symm

theorem stripSlashes_replicate
    (count : Nat) (other : char ≠ '/') (rest : Text) :
    stripSlashes (List.replicate count '/' ++ char :: rest) =
      char :: rest := by
  unfold stripSlashes
  rw [List.dropWhile_append_of_pos, List.dropWhile_cons_of_neg]
  · simpa using other
  · intro slash isIn
    exact decide_eq_true (List.eq_of_mem_replicate isIn)

theorem head?_stripSlashes (text : Text) :
    (stripSlashes text).head? ≠ some '/' := by
  intro isSlash
  have other := List.head?_dropWhile_not (· = '/') text
  unfold stripSlashes at isSlash
  rw [isSlash] at other
  exact absurd other (by decide)

variable {text : Text}

theorem stripSlashes_eq_self (relative : text.head? ≠ some '/') :
    stripSlashes text = text := by
  cases text with
  | nil => rfl
  | cons char rest =>
    refine List.dropWhile_cons_of_neg ?_
    intro isSlash
    exact relative (congrArg some (of_decide_eq_true isSlash))

theorem stripApp_eq_self (relative : text.head? ≠ some '/') :
    stripApp text = text := by
  unfold stripApp
  simp [stripSlashes_eq_self relative]

theorem exists_strip (core : Text) :
    ∃ stripped,
      core = stripped ++ stripSlashes (stripApp core) ∧
      (stripped = [] ∨ IsStripped stripped) := by
  obtain ⟨count, slashes⟩ := exists_slashes core
  unfold stripApp
  simp only
  split
  · next isApp =>
      rw [Bool.and_eq_true, decide_eq_true_eq,
        List.isPrefixOf_iff_prefix] at isApp
      obtain ⟨changed, more, isPrefix⟩ := isApp
      have relative : stripSlashes core = "app".toList ++ '/' :: more :=
        isPrefix.symm
      obtain ⟨later, behind⟩ := exists_slashes ('/' :: more)
      rw [stripSlashes_eq_self (head?_stripSlashes _)]
      refine ⟨List.replicate count '/' ++
        ("app".toList ++ List.replicate later '/'), ?_, .inr (.inr ?_)⟩
      · rw [relative] at slashes ⊢
        change core = _ ++ _ ++ stripSlashes ('/' :: more)
        rw [List.append_assoc, List.append_assoc, ← behind]
        exact slashes
      · have some : count ≠ 0 := by
          rintro rfl
          exact changed slashes.symm
        have someLater : later ≠ 0 := by
          rintro rfl
          have head := head?_stripSlashes ('/' :: more)
          rw [List.replicate_zero, List.nil_append] at behind
          rw [← behind] at head
          exact head rfl
        obtain ⟨count, rfl⟩ := Nat.exists_eq_succ_of_ne_zero some
        obtain ⟨later, rfl⟩ := Nat.exists_eq_succ_of_ne_zero someLater
        exact ⟨count, later, rfl⟩
  · cases count with
    | zero => exact ⟨[], slashes, .inl rfl⟩
    | succ count => exact ⟨_, slashes, .inr (.inl ⟨count, rfl⟩)⟩

/-- What stands behind a stripped prefix is left. -/
theorem strip_append {stripped : Text} (isStripped : IsStripped stripped)
    (rest : Text) (noSlash : char ≠ '/') (noLetter : char ≠ 'a') :
    stripSlashes (stripApp (stripped ++ char :: rest)) = char :: rest := by
  have plain : stripSlashes (char :: rest) = char :: rest :=
    stripSlashes_replicate 0 noSlash rest
  rcases isStripped with ⟨count, rfl⟩ | ⟨count, more, rfl⟩
  · have noApp : "app/".toList.isPrefixOf (char :: rest) = false := by
      rw [Bool.eq_false_iff]
      intro isApp
      obtain ⟨more, same⟩ := List.isPrefixOf_iff_prefix.mp isApp
      exact noLetter (List.cons.inj same).1.symm
    unfold stripApp
    simp only [stripSlashes_replicate (count + 1) noSlash rest]
    rw [noApp, Bool.and_false, if_neg Bool.false_ne_true,
      stripSlashes_replicate _ noSlash]
  · have relative :
        stripSlashes (List.replicate (count + 1) '/' ++
            ("app".toList ++ List.replicate (more + 1) '/') ++
            char :: rest) =
          "app".toList ++ (List.replicate (more + 1) '/' ++
            char :: rest) := by
      rw [List.append_assoc, List.append_assoc]
      exact stripSlashes_replicate _ (by decide) _
    have changed :
        "app".toList ++ (List.replicate (more + 1) '/' ++ char :: rest) ≠
          List.replicate (count + 1) '/' ++
            ("app".toList ++ List.replicate (more + 1) '/') ++
            char :: rest := by
      intro same
      exact absurd (List.cons.inj same).1 (by decide)
    have isApp :
        "app/".toList.isPrefixOf
          ("app".toList ++ (List.replicate (more + 1) '/' ++
            char :: rest)) = true :=
      List.isPrefixOf_iff_prefix.mpr
        ⟨List.replicate more '/' ++ char :: rest, rfl⟩
    unfold stripApp
    simp only [relative]
    rw [isApp, Bool.and_true, if_pos (decide_eq_true changed)]
    change stripSlashes (stripSlashes
      (List.replicate (more + 1) '/' ++ char :: rest)) = _
    rw [stripSlashes_replicate _ noSlash, plain]

variable {id : Text}

theorem normalizedHeldId_eq_self (trimmed : IsTrimmed utf8 id)
    (relative : id.head? ≠ some '/') :
    normalizedHeldId utf8 id = id := by
  have same : trimBlank utf8 id = id := by
    by_cases given : id = []
    · rw [given]
      rfl
    · have around :=
        @trimBlank_append utf8 [] id [] rfl rfl given trimmed
      rwa [List.nil_append, List.append_nil] at around
  unfold normalizedHeldId
  rw [same, stripApp_eq_self relative, stripSlashes_eq_self relative]

theorem exists_normalizedHeldId (utf8 : Bool) (id : Text) :
    ∃ lead stripped trail,
      id = lead ++ (stripped ++ normalizedHeldId utf8 id) ++ trail ∧
      lead.all (isBlank utf8) = true ∧ trail.all (isBlank utf8) = true ∧
      (stripped = [] ∨ IsStripped stripped) ∧
      IsTrimmed utf8 (stripped ++ normalizedHeldId utf8 id) := by
  obtain ⟨lead, trail, around, before, behind, trimmed⟩ :=
    exists_trimBlank utf8 id
  obtain ⟨stripped, whole, isStripped⟩ := exists_strip (trimBlank utf8 id)
  refine ⟨lead, stripped, trail, ?_, before, behind, isStripped, ?_⟩
  · rw [normalizedHeldId, ← whole]
    exact around
  · rw [normalizedHeldId, ← whole]
    exact trimmed

theorem IsTrimmed.of_append
    {front back : Text} (trimmed : IsTrimmed utf8 (front ++ back))
    (start :
      ∀ char rest, back = char :: rest → isBlank utf8 char = false) :
    IsTrimmed utf8 back where
  start := start
  stop before char same :=
    trimmed.stop (front ++ before) char (by rw [same, List.append_assoc])

theorem generalHeldId_eq_some_iff {accepted : Text} :
    generalHeldId utf8 id = some accepted ↔
      normalizedHeldId utf8 id = accepted ∧ accepted ≠ [] ∧
        hasDrive accepted = false ∧
        ∀ part ∈ idParts accepted,
          part ≠ [] ∧ part ≠ ['.'] ∧ part ≠ ['.', '.'] := by
  unfold generalHeldId
  simp only
  constructor
  · intro accepts
    split at accepts
    · contradiction
    · next given =>
      split at accepts
      · contradiction
      · next noDrive =>
        split at accepts
        · contradiction
        · next plain =>
          obtain rfl := Option.some.inj accepts
          refine ⟨rfl, given, Bool.eq_false_iff.mpr noDrive, ?_⟩
          intro part member
          refine ⟨?_, ?_, ?_⟩
          · rintro rfl
            exact plain (List.any_eq_true.mpr ⟨_, member, rfl⟩)
          · rintro rfl
            exact plain (List.any_eq_true.mpr ⟨_, member, rfl⟩)
          · rintro rfl
            exact plain (List.any_eq_true.mpr ⟨_, member, rfl⟩)
  · rintro ⟨rfl, given, noDrive, plain⟩
    rw [if_neg given, if_neg (Bool.eq_false_iff.mp noDrive), if_neg]
    rw [List.any_eq_true]
    rintro ⟨part, member, refused⟩
    obtain ⟨nonempty, noDot, noDots⟩ := plain part member
    simp [nonempty, noDot, noDots] at refused

theorem nil_mem_idParts
    {separator : Char} (separates : separator = '\\' ∨ separator = '/')
    (rest : Text) :
    [] ∈ idParts (separator :: rest) := by
  have split :
      idParts ([] ++ separator :: rest) = [] :: idParts rest :=
    List.splitOnP_append_cons_of_forall_mem (by simp) separator
      (by simpa using separates) rest
  rw [List.nil_append] at split
  rw [split]
  exact List.mem_cons_self

theorem isPlainPath_of_general {accepted : Text}
    (accepts : generalHeldId utf8 id = some accepted) :
    IsPlainPath accepted := by
  obtain ⟨-, given, noDrive, plain⟩ := generalHeldId_eq_some_iff.1 accepts
  refine ⟨plain, ?_, noDrive⟩
  cases accepted with
  | nil => exact absurd rfl given
  | cons char rest =>
    refine ⟨fun isSlash => ?_, fun isSlash => ?_⟩
    · exact (plain [] (nil_mem_idParts
        (.inr (Option.some.inj isSlash)) rest)).1 rfl
    · exact (plain [] (nil_mem_idParts
        (.inl (Option.some.inj isSlash)) rest)).1 rfl

theorem isTrimmed_of_chars
    (chars : ∀ char ∈ text, isBlank utf8 char = false) :
    IsTrimmed utf8 text where
  start char rest same := chars char (same ▸ List.mem_cons_self)
  stop front char same :=
    chars char (same ▸ List.mem_append_right _ List.mem_cons_self)

theorem ne_of_isIdChar {other : Char} (isId : isIdChar char = true)
    (notId : isIdChar other = false) : char ≠ other := by
  rintro rfl
  rw [isId] at notId
  contradiction

theorem idParts_of_isIdChar (chars : ∀ char ∈ text, isIdChar char = true) :
    idParts text = [text] := by
  refine List.splitOnP_eq_singleton fun char member => ?_
  have isId := chars char member
  simp [ne_of_isIdChar isId (by decide : isIdChar '\\' = false),
    ne_of_isIdChar isId (by decide : isIdChar '/' = false)]

/-- The general path accepts flat ids as they are. -/
theorem generalHeldId_of_isFlatId (flat : isFlatId id = true) :
    generalHeldId utf8 id = some id := by
  unfold isFlatId at flat
  rw [Bool.and_eq_true, List.all_eq_true] at flat
  obtain ⟨starts, chars⟩ := flat
  cases id with
  | nil => contradiction
  | cons first rest =>
    have start : isIdStart first = true := starts
    have noDot : first ≠ '.' := by
      rintro rfl
      contradiction
    have noSlash : first ≠ '/' :=
      ne_of_isIdChar (chars first List.mem_cons_self) (by decide)
    refine generalHeldId_eq_some_iff.2
      ⟨normalizedHeldId_eq_self ?_ ?_, List.cons_ne_nil _ _, ?_, ?_⟩
    · exact isTrimmed_of_chars fun char member =>
        isBlank_of_isIdChar (chars char member)
    · simpa using noSlash
    · unfold hasDrive
      cases rest with
      | nil => exact Bool.and_false _
      | cons second rest =>
        have noColon : second ≠ ':' :=
          ne_of_isIdChar (chars second (by simp)) (by decide)
        simp [noColon]
    · intro part member
      rw [idParts_of_isIdChar chars, List.mem_singleton] at member
      subst member
      exact ⟨List.cons_ne_nil _ _, by simp [noDot], by simp [noDot]⟩

/-- The general path accepts flat ids below `nav` as they are. -/
theorem generalHeldId_of_isFlatNavId (flat : isFlatNavId id = true) :
    generalHeldId utf8 id = some id := by
  obtain ⟨name, rfl, -, nameChars⟩ := exists_of_isFlatNavId flat
  rw [List.all_eq_true] at nameChars
  have chars : ∀ char ∈ name ++ ".tt".toList, isIdChar char = true := by
    intro char member
    rcases List.mem_append.mp member with inName | inEnd
    · exact nameChars char inName
    · have ending : ".tt".toList.all isIdChar = true := by decide
      exact List.all_eq_true.mp ending char inEnd
  have split :
      idParts ('n' :: 'a' :: 'v' :: '/' :: (name ++ ".tt".toList)) =
        [['n', 'a', 'v'], name ++ ".tt".toList] := by
    have first :
        idParts (['n', 'a', 'v'] ++ '/' :: (name ++ ".tt".toList)) =
          ['n', 'a', 'v'] :: idParts (name ++ ".tt".toList) :=
      List.splitOnP_append_cons_of_forall_mem (by simp) '/' rfl _
    rw [idParts_of_isIdChar chars] at first
    exact first
  have long : 3 ≤ (name ++ ".tt".toList).length := by
    rw [List.length_append]
    exact Nat.le_add_left _ _
  refine generalHeldId_eq_some_iff.2
    ⟨normalizedHeldId_eq_self ?_ ?_, List.cons_ne_nil _ _, rfl, ?_⟩
  · refine isTrimmed_of_chars fun char member => ?_
    simp only [List.mem_cons] at member
    rcases member with rfl | rfl | rfl | rfl | later
    · exact isBlank_of_isIdChar rfl
    · exact isBlank_of_isIdChar rfl
    · exact isBlank_of_isIdChar rfl
    · exact isBlank_slash
    · exact isBlank_of_isIdChar (chars char later)
  · exact fun isSlash => absurd (Option.some.inj isSlash) (by decide)
  · intro part member
    rw [split] at member
    rcases List.mem_pair.mp member with rfl | rfl
    · decide
    · refine ⟨?_, ?_, ?_⟩
      · intro empty
        rw [empty] at long
        contradiction
      · intro dot
        rw [dot] at long
        contradiction
      · intro dots
        rw [dots] at long
        contradiction

theorem validatedHeldId_eq_general (utf8 : Bool) (id : Text) :
    validatedHeldId utf8 id = generalHeldId utf8 id := by
  unfold validatedHeldId
  split
  · next fast =>
      rcases Bool.or_eq_true_iff.mp fast with isNav | isFlat
      · exact (generalHeldId_of_isFlatNavId isNav).symm
      · exact (generalHeldId_of_isFlatId isFlat).symm
  · rfl

theorem validatedHeldId_idempotent {accepted : Text}
    (accepts : validatedHeldId utf8 id = some accepted)
    (start :
      ∀ char rest, accepted = char :: rest → isBlank utf8 char = false) :
    validatedHeldId utf8 accepted = some accepted := by
  rw [validatedHeldId_eq_general] at accepts ⊢
  obtain ⟨normalized, given, noDrive, plain⟩ :=
    generalHeldId_eq_some_iff.1 accepts
  obtain ⟨lead, stripped, trail, -, -, -, -, trimmed⟩ :=
    exists_normalizedHeldId utf8 id
  rw [normalized] at trimmed
  refine generalHeldId_eq_some_iff.2
    ⟨normalizedHeldId_eq_self (trimmed.of_append start) ?_, given, noDrive,
      plain⟩
  exact (isPlainPath_of_general accepts).relative.1

theorem not_validatedHeldId_of_blank
    (blank : isBlank utf8 char = true) (rest : Text) :
    validatedHeldId utf8 (char :: rest) ≠ some (char :: rest) := by
  intro accepts
  rw [validatedHeldId_eq_general] at accepts
  obtain ⟨normalized, -⟩ := generalHeldId_eq_some_iff.1 accepts
  obtain ⟨lead, stripped, trail, around, -, -, -, trimmed⟩ :=
    exists_normalizedHeldId utf8 (char :: rest)
  rw [normalized] at around trimmed
  have lengths := congrArg List.length around
  simp only [List.length_append] at lengths
  have noLead : stripped = [] := List.eq_nil_of_length_eq_zero (by omega)
  rw [noLead, List.nil_append] at trimmed
  rw [trimmed.start char rest rfl] at blank
  contradiction

/-- A path that begins with space behind slashes is accepted. -/
theorem validatedHeldId_of_hasBlankName (blankName : HasBlankName utf8 id) :
    ∃ char rest, validatedHeldId utf8 id = some (char :: rest) ∧
      isBlank utf8 char = true := by
  obtain ⟨lead, stripped, name, trail, rfl, before, behind, isStripped,
    ⟨char, rest, rfl, blank⟩, ⟨front, last, ends, shown⟩, plain⟩ :=
    blankName
  have notId : isIdChar char = false := by
    by_contra isId
    rw [isBlank_of_isIdChar (Bool.not_eq_false _ |>.mp isId)] at blank
    contradiction
  have noSlash : char ≠ '/' := by
    rintro rfl
    rw [isBlank_slash] at blank
    contradiction
  have noLetter : char ≠ 'a' :=
    Ne.symm (ne_of_isIdChar (by decide) notId)
  have startsSlash : ∃ others, stripped = '/' :: others := by
    rcases isStripped with ⟨count, rfl⟩ | ⟨count, more, rfl⟩
    · exact ⟨_, rfl⟩
    · exact ⟨_, rfl⟩
  have trimmed : IsTrimmed utf8 (stripped ++ char :: rest) := by
    refine ⟨fun first others same => ?_, fun others final same => ?_⟩
    · obtain ⟨behindSlash, rfl⟩ := startsSlash
      rw [← (List.cons.inj same).1]
      exact isBlank_slash
    · rw [ends, ← List.append_assoc] at same
      rw [← (List.append_singleton_inj.mp same).2]
      exact shown
  have normalized :
      normalizedHeldId utf8 (lead ++ (stripped ++ char :: rest) ++ trail) =
        char :: rest := by
    rw [normalizedHeldId, trimBlank_append before behind (by simp) trimmed]
    exact strip_append isStripped rest noSlash noLetter
  have noDrive : hasDrive (char :: rest) = false := by
    have noAlpha : char.isAlpha = false := by
      by_contra alpha
      rw [isIdChar, isIdStart, Char.isAlphanum,
        Bool.not_eq_false _ |>.mp alpha] at notId
      contradiction
    unfold hasDrive
    simp [noAlpha]
  refine ⟨char, rest, ?_, blank⟩
  rw [validatedHeldId_eq_general]
  exact generalHeldId_eq_some_iff.2
    ⟨normalized, List.cons_ne_nil _ _, noDrive, plain⟩

theorem hasBlankName_of_validatedHeldId {rest : Text}
    (accepts : validatedHeldId utf8 id = some (char :: rest))
    (blank : isBlank utf8 char = true) :
    HasBlankName utf8 id := by
  rw [validatedHeldId_eq_general] at accepts
  obtain ⟨normalized, -, -, plain⟩ := generalHeldId_eq_some_iff.1 accepts
  obtain ⟨lead, stripped, trail, around, before, behind, strips, trimmed⟩ :=
    exists_normalizedHeldId utf8 id
  rw [normalized] at around trimmed
  have isStripped : IsStripped stripped := by
    refine strips.resolve_left ?_
    rintro rfl
    rw [trimmed.start char rest rfl] at blank
    contradiction
  have ends :
      char :: rest =
        (char :: rest).dropLast ++
          [(char :: rest).getLast (List.cons_ne_nil _ _)] :=
    (List.dropLast_append_getLast _).symm
  refine ⟨lead, stripped, char :: rest, trail, around, before, behind,
    isStripped, ⟨char, rest, rfl, blank⟩, ⟨_, _, ends, ?_⟩, plain⟩
  refine trimmed.stop (stripped ++ (char :: rest).dropLast) _ ?_
  rw [List.append_assoc, ← ends]

/--
Validation is canonical for an id if and only if no path of plain components
that begins with space stands behind its slashes or its `/app/`.
-/
theorem isCanonical_iff
    (catfile : Text → Text → Text) (utf8 : Bool) (id : Text) :
    IsCanonical catfile utf8 id ↔ ¬ HasBlankName utf8 id := by
  constructor
  · intro canonical blankName
    obtain ⟨char, rest, accepts, blank⟩ :=
      validatedHeldId_of_hasBlankName blankName
    exact not_validatedHeldId_of_blank blank rest
      (canonical.idempotent _ accepts)
  · intro noBlank
    have idempotent (accepted : Text)
        (accepts : validatedHeldId utf8 id = some accepted) :
        validatedHeldId utf8 accepted = some accepted := by
      refine validatedHeldId_idempotent accepts fun char rest same => ?_
      rw [same] at accepts
      exact Bool.eq_false_iff.mpr fun blank =>
        noBlank (hasBlankName_of_validatedHeldId accepts blank)
    refine ⟨?_, ?_, idempotent, ?_⟩
    · intro accepted accepts
      rw [validatedHeldId_eq_general] at accepts
      exact isPlainPath_of_general accepts
    · intro _
      exact validatedHeldId_eq_general utf8 id
    · intro accepted accepts root roots
      have given : id ≠ [] := by
        rintro rfl
        rw [validatedHeldId_eq_general] at accepts
        obtain ⟨rfl, nonempty, -⟩ := generalHeldId_eq_some_iff.1 accepts
        exact nonempty rfl
      have file : pageFile catfile root utf8 id =
          some (catfile root accepted) := by
        rw [pageFile, if_neg given, accepts]
        rfl
      refine ⟨file, ?_, ?_, ?_⟩
      · rw [pageFileCandidates, accepts]
        rfl
      · rw [openedPath, accepts]
        rfl
      · unfold savedPath
        split
        · rw [file, accepts, Option.bind_some, Option.bind_some,
            openedPath, idempotent accepted accepts]
          rfl
        · rfl

def joined (root file : Text) : Text :=
  root ++ '/' :: file

/-- An id that begins with space behind `/app/` names two files. -/
theorem blank_name_is_two_files :
    ¬ ∀ (catfile : Text → Text → Text) (utf8 : Bool) (id : Text),
      IsCanonical catfile utf8 id := by
  intro always
  have canonical := always joined true "/app/ /x".toList
  have accepts :
      validatedHeldId true "/app/ /x".toList = some " /x".toList := by
    decide +kernel
  have again : validatedHeldId true " /x".toList = some "x".toList := by
    decide +kernel
  rw [canonical.idempotent _ accepts] at again
  exact absurd (Option.some.inj again) (by decide)

end DeveloperDashboard.Page
