import DeveloperDashboard.Page.SectionFrame

namespace DeveloperDashboard.Page

open Library Perl

/-!
# Reading back the sections that were written

The sections of a page are scanned one after the other.  A section whose text
holds no separator is one part; any other one falls into parts none of which
has all of its text.
-/

structure IsSectionName (name : Text) : Prop where
  first : name.head?.any Char.isAlpha = true
  chars : name.all isNameChar = true
  upper : name.map Char.toUpper = name
  known : name ∈ legacyFixedKeys ∨ isCodeName name = true

variable {char : Char}

theorem isNameChar_toNat (named : isNameChar char = true) :
    46 ≤ char.toNat ∧ char.toNat ≤ 122 := by
  rw [isNameChar, Bool.or_eq_true, decide_eq_true_eq] at named
  rcases named with alphanumeric | rfl
  · have codes := toNat_of_isAlphanum alphanumeric
    omega
  · decide

theorem isSpace_of_isNameChar (named : isNameChar char = true) :
    isSpace char = false := by
  have codes := isNameChar_toNat named
  simp only [isSpace, Bool.or_eq_false_iff, decide_eq_false_iff_not]
  omega

variable {name : Text}

theorem IsSectionName.not_mem (valid : IsSectionName name)
    (other : isNameChar char = false) :
    char ∉ name := by
  intro isIn
  have named := List.all_eq_true.mp valid.chars char isIn
  rw [other] at named
  contradiction

theorem IsSectionName.cons {name : Text} (valid : IsSectionName name) :
    ∃ first rest, name = first :: rest ∧ isSpace first = false := by
  cases name with
  | nil => exact absurd valid.first (by decide)
  | cons first rest =>
    refine ⟨first, rest, rfl, isSpace_of_isNameChar ?_⟩
    exact List.all_eq_true.mp valid.chars first List.mem_cons_self

theorem parseSection_named (valid : IsSectionName name) (text : Text) :
    parseSection (name ++ ": ".toList ++ text) =
      some (name, splitLines (trim text)) := by
  obtain ⟨first, rest, rfl, shown⟩ := valid.cons
  have part :
      trim (first :: rest ++ ": ".toList ++ text) =
        (first :: rest) ++ ':' :: trimEnd (' ' :: text) := by
    have colon : isSpace ':' = false := by decide
    rw [trim, List.append_assoc]
    change trimEnd (trimStart (first :: (rest ++ ':' :: ' ' :: text))) = _
    rw [trimStart_cons_of_visible shown,
      ← List.cons_append, trimEnd_append_cons (first :: rest) colon]
  have body : trimStart (trimEnd (' ' :: text)) = trim text := by
    rw [trimStart_trimEnd]
    have around := @trim_of_space_around [' '] [] text rfl rfl
    rwa [List.append_nil] at around
  have named := List.all_eq_true.mp valid.chars
  have taken :
      ((first :: rest) ++ ':' :: trimEnd (' ' :: text)).takeWhile
        isNameChar = first :: rest := by
    rw [List.takeWhile_append_of_pos named,
      List.takeWhile_cons_of_neg (by decide), List.append_nil]
  have left :
      ((first :: rest) ++ ':' :: trimEnd (' ' :: text)).dropWhile
        isNameChar = ':' :: trimEnd (' ' :: text) := by
    rw [List.dropWhile_append_of_pos named,
      List.dropWhile_cons_of_neg (by decide)]
  have known :
      ((first :: rest).head?.any Char.isAlpha &&
        (decide (first :: rest ∈ legacyFixedKeys) ||
          isCodeName (first :: rest))) = true := by
    rw [valid.first, Bool.true_and, Bool.or_eq_true, decide_eq_true_eq]
    exact valid.known
  unfold parseSection
  dsimp only
  rw [part, taken, left, trimStart_cons_of_visible (by decide), valid.upper]
  change (if _ then
    some (_, splitLines (trimStart (trimEnd (' ' :: text)))) else none) = _
  rw [if_pos known, body]

theorem visible_parseSection_le {part : Text} {lines : List Text}
    (read : parseSection part = some (name, lines)) :
    visible (joinLines lines) ≤ visible part := by
  unfold parseSection at read
  dsimp only at read
  split at read
  · next body found =>
      split at read
      · obtain ⟨-, rfl⟩ := Prod.mk.inj (Option.some.inj read)
        rw [joinLines_splitLines, visible_trimStart, ← visible_trim part]
        refine visible_le ((List.sublist_cons_self ':' body).trans ?_)
        rw [← found]
        exact ((List.dropWhile_suffix _).trans
          (List.dropWhile_suffix _)).sublist
      · contradiction
  · contradiction

/-- The text of some sections, with separators between them. -/
def sectionsText : List (Text × Text) → Text
  | [] => []
  | entry :: rest =>
    sectionChunk entry ++ '\n' ::
      match rest with
      | [] => []
      | _ :: _ => legacySep ++ '\n' :: sectionsText rest

def followingText : List (Text × Text) → Text
  | [] => []
  | entry :: rest => legacySep ++ '\n' :: sectionsText (entry :: rest)

theorem sectionsText_cons (entry : Text × Text) (rest : List (Text × Text)) :
    sectionsText (entry :: rest) =
      sectionChunk entry ++ '\n' :: followingText rest := by
  cases rest <;> rfl

theorem closes_followingText (rest : List (Text × Text)) :
    Closes (followingText rest) := by
  cases rest with
  | nil => exact .inl rfl
  | cons entry rest => exact .inr ⟨_, rfl⟩

theorem legacyInstruction_eq (page : PageDocument) :
    legacyInstruction page = sectionsText (instructionSections page) := by
  have joined (entry : Text × Text) (rest : List (Text × Text)) :
      (['\n'] ++ legacySep ++ ['\n']).intercalate
          ((entry :: rest).map sectionChunk) ++ ['\n'] =
        sectionsText (entry :: rest) := by
    induction rest generalizing entry with
    | nil => simp [List.intercalate, sectionsText]
    | cons next rest ih =>
      rw [sectionsText_cons, followingText, ← ih next]
      simp [List.intercalate]
  unfold legacyInstruction
  cases sections : instructionSections page with
  | nil => simp [instructionSections] at sections
  | cons entry rest => exact joined entry rest

/-- The parts of what stands after the newline of a section. -/
def followingParts : List (Text × Text) → List Text
  | [] => []
  | entry :: rest =>
    ScanSplit.scan sectionSeparator 0 (some '\n')
      (sectionsText (entry :: rest))

structure SectionNames (entries : List (Text × Text)) : Prop where
  valid : ∀ entry ∈ entries, IsSectionName entry.1
  distinct : (entries.map Prod.fst).Nodup

variable {entry : Text × Text}

theorem SectionNames.rest {rest : List (Text × Text)}
    (names : SectionNames (entry :: rest)) : SectionNames rest where
  valid other isIn := names.valid other (List.mem_cons_of_mem _ isIn)
  distinct := (List.nodup_cons.mp names.distinct).2

/-- The separator that the writer puts between sections is taken as such. -/
theorem scan_legacySep {rest : List (Text × Text)}
    (valid : IsSectionName entry.1) (previous : Option Char) :
    ScanSplit.scan sectionSeparator 0 previous
        (followingText (entry :: rest)) =
      [] :: followingParts (entry :: rest) := by
  obtain ⟨first, name, named, shown⟩ := valid.cons
  obtain ⟨tail, text⟩ :
      ∃ tail, sectionsText (entry :: rest) = first :: tail := by
    rw [sectionsText_cons, sectionChunk, named]
    exact ⟨_, rfl⟩
  have whole :
      followingText (entry :: rest) =
        (legacySep ++ ['\n']) ++ sectionsText (entry :: rest) := by
    rw [followingText, List.append_assoc]
    rfl
  have starts :
      sectionSeparator previous
          ((legacySep ++ ['\n']) ++ sectionsText (entry :: rest)) =
        some (legacySep ++ ['\n']).length := by
    unfold sectionSeparator legacySepLength
    have isSep :
        legacySep.isPrefixOf
          ((legacySep ++ ['\n']) ++ sectionsText (entry :: rest)) = true := by
      rw [List.append_assoc]
      exact List.isPrefixOf_iff_prefix.mpr (List.prefix_append _ _)
    rw [if_pos isSep, List.append_assoc, List.drop_left, text,
      List.singleton_append, List.takeWhile_cons_of_pos (by decide),
      List.takeWhile_cons_of_neg (by simp [shown]), List.length_append]
  rw [whole, ScanSplit.scan_separator (by decide) starts]
  have newline :
      ScanSplit.lastItem previous (legacySep ++ ['\n']) = some '\n' := by
    rw [ScanSplit.lastItem_append]
    rfl
  rw [newline]
  rfl

theorem sectionSeparator_newline
    {after : Text} (closes : Closes after) (previous : Option Char) :
    sectionSeparator previous ('\n' :: after) = none := by
  refine sectionSeparator_eq_none_iff.mpr ⟨rfl, fun _ => ?_⟩
  have alone := markdownSepLength_append closes []
  rw [List.nil_append] at alone
  rw [alone]
  rfl

theorem scan_followingText
    {rest : List (Text × Text)} (names : SectionNames rest)
    (previous : Option Char) :
    ScanSplit.scan sectionSeparator 0 previous (followingText rest) =
      [] :: followingParts rest := by
  cases rest with
  | nil => rfl
  | cons entry rest =>
    exact scan_legacySep (names.valid entry List.mem_cons_self) previous

theorem scan_newline {rest : List (Text × Text)} (names : SectionNames rest)
    (previous : Option Char) :
    ScanSplit.scan sectionSeparator 0 previous
        ('\n' :: followingText rest) =
      ['\n'] :: followingParts rest := by
  rw [ScanSplit.scan, sectionSeparator_newline (closes_followingText rest)]
  dsimp only
  rw [scan_followingText names]
  rfl

theorem scan_following
    {rest : List (Text × Text)} (names : SectionNames rest)
    (skip : Nat) (near : skip ≤ 1) (previous : Option Char) :
    ∃ front,
      front ≠ [] ∧
        ScanSplit.scan sectionSeparator skip previous
            ('\n' :: followingText rest) =
          front ++ followingParts rest ∧
        ScanSplit.weight (fun char => !isSpace char) front = 0 := by
  rcases Nat.le_one_iff_eq_zero_or_eq_one.mp near with rfl | rfl
  · exact ⟨[['\n']], List.cons_ne_nil _ _, scan_newline names previous, rfl⟩
  · exact ⟨[[]], List.cons_ne_nil _ _,
      scan_followingText names (some '\n'), rfl⟩

theorem markdownSepLength_of_visible
    (shown : isSpace char = false) (notDash : char ≠ '-') (text : Text) :
    (markdownSepLength (char :: text)).isSome = false := by
  have silent : "---".toList.isPrefixOf (char :: text) = false := by
    have different : ('-' == char) = false := by
      simpa using Ne.symm notDash
    change ('-' == char && _) = false
    rw [different, Bool.false_and]
  unfold markdownSepLength
  rw [List.dropWhile_cons_of_neg (by simp [shown]),
    if_neg (by rw [silent]; exact Bool.false_ne_true)]
  rfl

/-- No separator starts within a name and what stands after it. -/
theorem quiet_name (valid : IsSectionName name)
    (previous : Option Char) (after : Text) :
    ScanSplit.Quiet sectionSeparator previous
      (name ++ ": ".toList) after := by
  refine ScanSplit.quiet_append.mpr ⟨?_, ?_, ?_, trivial⟩
  · refine ScanSplit.quiet_iff.mpr fun front back whole nonempty => ?_
    obtain ⟨char, rest, rfl⟩ := List.exists_cons_of_ne_nil nonempty
    have named : isNameChar char = true := by
      refine List.all_eq_true.mp valid.chars char ?_
      rw [whole]
      exact List.mem_append_right _ List.mem_cons_self
    have notColon : (':' == char) = false := by
      rw [beq_eq_false_iff_ne]
      rintro rfl
      contradiction
    refine sectionSeparator_eq_none_iff.mpr ⟨?_, fun _ => ?_⟩
    · change (':' == char && _) = false
      rw [notColon, Bool.false_and]
    · refine markdownSepLength_of_visible (isSpace_of_isNameChar named) ?_ _
      rintro rfl
      contradiction
  · exact sectionSeparator_eq_none_iff.mpr
      ⟨rfl, fun _ => markdownSepLength_of_visible (by decide) (by decide) _⟩
  · exact sectionSeparator_eq_none_iff.mpr
      ⟨rfl, fun starts => absurd starts (by decide)⟩

theorem scan_section {rest : List (Text × Text)}
    (names : SectionNames (entry :: rest)) (previous : Option Char) :
    ∃ first others,
      ScanSplit.scan sectionSeparator 0 previous
          (sectionsText (entry :: rest)) =
        ((entry.1 ++ ": ".toList ++ first) :: others) ++
          followingParts rest ∧
      if holdsSeparator (trimNewlines entry.2) then
        ∀ part ∈ first :: others, visible part < visible entry.2
      else first = trimNewlines entry.2 ++ ['\n'] ∧ others = [] := by
  have valid := names.valid entry List.mem_cons_self
  have closes := closes_followingText rest
  have space :
      ScanSplit.lastItem previous (entry.1 ++ ": ".toList) = some ' ' := by
    rw [ScanSplit.lastItem_append]
    rfl
  -- the name is quiet, so the parts are those of the text
  have named (front : Text) (parts : List Text)
      (split :
        ScanSplit.scan sectionSeparator 0 (some ' ')
            (trimNewlines entry.2 ++ '\n' :: followingText rest) =
          front :: parts) :
      ScanSplit.scan sectionSeparator 0 previous
          (sectionsText (entry :: rest)) =
        (entry.1 ++ ": ".toList ++ front) :: parts := by
    obtain ⟨first, others, afterName, whole⟩ :=
      ScanSplit.scan_quiet
        (quiet_name valid previous
          (trimNewlines entry.2 ++ '\n' :: followingText rest))
    rw [space, split] at afterName
    obtain ⟨rfl, rfl⟩ := List.cons.inj afterName
    rw [sectionsText_cons, sectionChunk, List.append_assoc, whole]
  cases holds : holdsSeparator (trimNewlines entry.2) with
  | false =>
    obtain ⟨first, others, atNewline, split⟩ :=
      ScanSplit.scan_quiet ((quiet_iff_holdsSeparator closes).mpr holds)
    rw [scan_newline names.rest] at atNewline
    obtain ⟨rfl, rfl⟩ := List.cons.inj atNewline
    exact ⟨_, [], named _ _ split, rfl, rfl⟩
  | true =>
    obtain ⟨front, nonempty, split, -, strict⟩ :=
      ScanSplit.scan_through (scan_following names.rest)
        (fun _ _ _ nonempty starts =>
          sectionSeparator_bounded closes nonempty starts)
        0 (Nat.zero_le _) (some ' ')
    obtain ⟨first, others, rfl⟩ := List.exists_cons_of_ne_nil nonempty
    refine ⟨first, others, named _ _ split, fun part isIn => ?_⟩
    have less :
        ScanSplit.weight (fun char => !isSpace char) (first :: others) <
          visible (trimNewlines entry.2) := by
      refine (strict rfl).resolve_left fun quiet => ?_
      rw [(quiet_iff_holdsSeparator closes).mp quiet] at holds
      contradiction
    rw [visible_trimNewlines] at less
    refine Nat.lt_of_le_of_lt ?_ less
    exact ScanSplit.countP_le_weight isIn

def sectionPart (entry : Text × Text) : Text :=
  entry.1 ++ ": ".toList ++ (trimNewlines entry.2 ++ ['\n'])

theorem parseSection_sectionPart (valid : IsSectionName entry.1) :
    parseSection (sectionPart entry) =
      some (entry.1, splitLines (trim entry.2)) := by
  rw [sectionPart, parseSection_named valid]
  have newline : (['\n'] : Text).all isSpace = true := rfl
  have around :=
    @trim_of_space_around [] ['\n'] (trimNewlines entry.2) rfl newline
  rw [List.nil_append] at around
  rw [around, trim_trimNewlines]

variable {entries : List (Text × Text)}

theorem followingParts_of_quiet (names : SectionNames entries)
    (quiet : ∀ entry ∈ entries,
      holdsSeparator (trimNewlines entry.2) = false) :
    followingParts entries = entries.map sectionPart := by
  induction entries with
  | nil => rfl
  | cons entry rest ih =>
    obtain ⟨first, others, split, parts⟩ :=
      scan_section names (some '\n')
    rw [quiet entry List.mem_cons_self, if_neg Bool.false_ne_true]
      at parts
    obtain ⟨rfl, rfl⟩ := parts
    have later :=
      ih names.rest
        fun other isIn => quiet other (List.mem_cons_of_mem _ isIn)
    rw [followingParts, split, later]
    rfl

theorem scan_of_quiet {rest : List (Text × Text)}
    (names : SectionNames (entry :: rest))
    (quiet : ∀ other ∈ entry :: rest,
      holdsSeparator (trimNewlines other.2) = false)
    (previous : Option Char) :
    ScanSplit.scan sectionSeparator 0 previous
        (sectionsText (entry :: rest)) =
      (entry :: rest).map sectionPart := by
  obtain ⟨first, others, split, parts⟩ := scan_section names previous
  rw [quiet entry List.mem_cons_self, if_neg Bool.false_ne_true] at parts
  obtain ⟨rfl, rfl⟩ := parts
  rw [split, followingParts_of_quiet names.rest
    fun other isIn => quiet other (List.mem_cons_of_mem _ isIn)]
  rfl

/-- A section stays, or a later part of its name replaces it. -/
theorem lookup_foldl_addSection {sections : Sections} {lines : List Text}
    (found : sections.lookup name = some lines) (parts : List Text) :
    ∃ last,
      (parts.foldl addSection sections).lookup name = some last ∧
        (last = lines ∨
          ∃ part ∈ parts, parseSection part = some (name, last)) := by
  induction parts generalizing sections lines with
  | nil => exact ⟨lines, found, .inl rfl⟩
  | cons part rest ih =>
    have next :
        ∃ new, (addSection sections part).lookup name = some new ∧
          (new = lines ∨ parseSection part = some (name, new)) := by
      unfold addSection
      cases read : parseSection part with
      | none => exact ⟨lines, found, .inl rfl⟩
      | some entry =>
        obtain ⟨other, new⟩ := entry
        by_cases same : other = name
        · subst same
          exact ⟨new, Entries.lookup_store_self _ _ _, .inr rfl⟩
        · refine ⟨lines, ?_, .inl rfl⟩
          exact (Entries.lookup_store_of_ne _ same _).trans found
    obtain ⟨new, nowFound, origin⟩ := next
    obtain ⟨last, atEnd, source⟩ := ih nowFound
    refine ⟨last, atEnd, ?_⟩
    rcases source with rfl | ⟨later, isIn, read⟩
    · rcases origin with rfl | read
      · exact .inl rfl
      · exact .inr ⟨part, List.mem_cons_self, read⟩
    · exact .inr ⟨later, List.mem_cons_of_mem _ isIn, read⟩

def SomeLess (entries : List (Text × Text)) (sections : Sections) : Prop :=
  ∃ entry ∈ entries,
    holdsSeparator (trimNewlines entry.2) = true ∧
      ∃ lines,
        sections.lookup entry.1 = some lines ∧
          visible (joinLines lines) < visible entry.2

theorem someLess_section {rest : List (Text × Text)}
    (names : SectionNames (entry :: rest)) (previous : Option Char)
    (sections : Sections)
    (later : ∀ sections : Sections,
      (∀ other ∈ rest, holdsSeparator (trimNewlines other.2) = false) ∨
        SomeLess rest ((followingParts rest).foldl addSection sections)) :
    (∀ other ∈ entry :: rest,
        holdsSeparator (trimNewlines other.2) = false) ∨
      SomeLess (entry :: rest)
        ((ScanSplit.scan sectionSeparator 0 previous
          (sectionsText (entry :: rest))).foldl addSection sections) := by
  obtain ⟨first, others, split, parts⟩ := scan_section names previous
  rw [split, List.foldl_append]
  rcases later
      (((entry.1 ++ ": ".toList ++ first) :: others).foldl addSection
        sections) with
    quiet | ⟨other, isIn, less⟩
  swap
  · exact .inr ⟨other, List.mem_cons_of_mem _ isIn, less⟩
  cases holds : holdsSeparator (trimNewlines entry.2) with
  | false =>
    left
    intro other isIn
    rcases List.mem_cons.mp isIn with rfl | inRest
    · exact holds
    · exact quiet other inRest
  | true =>
    right
    rw [holds, if_pos rfl] at parts
    have valid := names.valid entry List.mem_cons_self
    have start :
        (addSection sections (entry.1 ++ ": ".toList ++ first)).lookup
            entry.1 = some (splitLines (trim first)) := by
      unfold addSection
      rw [parseSection_named valid]
      exact Entries.lookup_store_self _ _ _
    obtain ⟨last, found, source⟩ :=
      lookup_foldl_addSection start (others ++ followingParts rest)
    rw [List.foldl_append] at found
    refine ⟨entry, List.mem_cons_self, holds, last, found, ?_⟩
    rcases source with rfl | ⟨part, isIn, read⟩
    · rw [joinLines_splitLines, visible_trim]
      exact parts first List.mem_cons_self
    · rcases List.mem_append.mp isIn with inOthers | inRest
      · exact Nat.lt_of_le_of_lt (visible_parseSection_le read)
          (parts part (List.mem_cons_of_mem _ inOthers))
      · -- the later sections have other names
        rw [followingParts_of_quiet names.rest quiet] at inRest
        obtain ⟨other, otherIn, rfl⟩ := List.mem_map.mp inRest
        rw [parseSection_sectionPart
          (names.rest.valid other otherIn)] at read
        obtain ⟨same, -⟩ := Prod.mk.inj (Option.some.inj read)
        refine absurd ?_ (List.nodup_cons.mp names.distinct).1
        exact List.mem_map.mpr ⟨other, otherIn, same⟩

theorem someLess_followingParts (names : SectionNames entries)
    (sections : Sections) :
    (∀ entry ∈ entries, holdsSeparator (trimNewlines entry.2) = false) ∨
      SomeLess entries
        ((followingParts entries).foldl addSection sections) := by
  induction entries generalizing sections with
  | nil => exact .inl fun _ isIn => absurd isIn List.not_mem_nil
  | cons entry rest ih =>
    exact someLess_section names (some '\n') sections
      (ih names.rest)

theorem quiet_or_someLess {rest : List (Text × Text)}
    (names : SectionNames (entry :: rest)) :
    (∀ other ∈ entry :: rest,
        holdsSeparator (trimNewlines other.2) = false) ∨
      SomeLess (entry :: rest)
        ((ScanSplit.scan sectionSeparator 0 none
          (sectionsText (entry :: rest))).foldl addSection []) :=
  someLess_section names none [] (someLess_followingParts names.rest)

theorem foldl_addSection_sectionPart (names : SectionNames entries)
    {sections : Sections}
    (fresh : ∀ entry ∈ entries, sections.lookup entry.1 = none) :
    (entries.map sectionPart).foldl addSection sections =
      sections ++
        entries.map fun entry => (entry.1, splitLines (trim entry.2)) := by
  induction entries generalizing sections with
  | nil => exact (List.append_nil sections).symm
  | cons entry rest ih =>
    have added :
        addSection sections (sectionPart entry) =
          sections ++ [(entry.1, splitLines (trim entry.2))] := by
      rw [addSection,
        parseSection_sectionPart (names.valid entry List.mem_cons_self)]
      exact Entries.store_of_lookup_eq_none
        (fresh entry List.mem_cons_self) _
    rw [List.map_cons, List.foldl_cons, added,
      ih names.rest, List.append_assoc]
    · rfl
    · intro other isIn
      have different : entry.1 ≠ other.1 := by
        intro same
        refine (List.nodup_cons.mp names.distinct).1 ?_
        rw [same]
        exact List.mem_map_of_mem isIn
      rw [Entries.lookup_append,
        fresh other (List.mem_cons_of_mem _ isIn), Option.none_or,
        Entries.lookup_cons, if_neg different]
      rfl

end DeveloperDashboard.Page
