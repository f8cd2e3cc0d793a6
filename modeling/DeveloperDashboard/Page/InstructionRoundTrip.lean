import DeveloperDashboard.Page.SectionHeader

namespace DeveloperDashboard.Page

open Library Perl

/-!
# Reading a page back from its instruction text

The module settles exactly which pages are read back as they were written: the
texts of all their sections, that of the state included, must hold neither a
separator nor a header.
-/

structure IsSingleLine (text : Text) : Prop where
  nonempty : text ≠ []
  trimmed : trim text = text
  oneLine : '\n' ∉ text

/-- The name `CODEn` for a decimal number. -/
def IsCodeId (id : Text) : Prop :=
  ∃ digits,
    digits ≠ [] ∧ digits.all Char.isDigit = true ∧
      id = "CODE".toList ++ digits

structure PageTexts (page : PageDocument) : Prop where
  title : trim page.title = page.title
  description : trim page.description = page.description
  head : ∀ head, page.metadata.head = some head → trim head = head
  body : ∃ html, page.body = some html ∧ trim html = html
  id : ∃ id, page.id = some id ∧ IsSingleLine id
  icon : ∃ icon, page.metadata.icon = some icon ∧ IsSingleLine icon
  codeIds : ∀ code ∈ page.metadata.codes, IsCodeId code.id
  codeBodies : ∀ code ∈ page.metadata.codes, trim code.body = code.body
  distinct : (page.metadata.codes.map CodeBlock.id).Nodup

/--
A page that was read has the texts of another one, its code blocks by their
numbers, and the state that its whole state text decodes to.
-/
structure ReadsBack
    (decodeStash : Text → StashHash) (page read : PageDocument) : Prop where
  title : read.title = page.title
  id : read.id = page.id
  icon : read.metadata.icon = page.metadata.icon
  description : read.description = page.description
  head : read.metadata.head = page.metadata.head
  body : read.body = page.body
  codes : read.metadata.codes.Perm page.metadata.codes
  sorted :
    read.metadata.codes.Pairwise fun left right =>
      codeNumber left.id ≤ codeNumber right.id
  state : read.state = decodeStash (trim (legacyStashText page.state))

/-- The sections of a page are kept apart, and none is taken as absent. -/
structure KeepsSections (page : PageDocument) : Prop where
  unframed : ∀ entry ∈ instructionSections page,
    isFramed (trimNewlines entry.2) = false
  title : Perl.isTrue page.title = true
  id : page.id ≠ some ['0']
  head : page.metadata.head ≠ some []

inductive SectionOf (page : PageDocument) : Text → Text → Prop where
  | title : SectionOf page "TITLE".toList page.title
  | icon {icon : Text} :
      page.metadata.icon = some icon → icon ≠ [] →
        SectionOf page "ICON".toList icon
  | head {head : Text} :
      page.metadata.head = some head → head ≠ [] →
        SectionOf page "HEAD".toList head
  | bookmark {id : Text} :
      page.id = some id → id ≠ [] → SectionOf page "BOOKMARK".toList id
  | note :
      page.description ≠ [] →
        SectionOf page "NOTE".toList page.description
  | stash : SectionOf page "STASH".toList (legacyStashText page.state)
  | html {html : Text} :
      page.body = some html → html ≠ [] →
        SectionOf page "HTML".toList html
  | code {code : CodeBlock} :
      code ∈ page.metadata.codes → isCodeName code.id = true →
        SectionOf page code.id code.body

variable {name : Text}

theorem mem_optionalSection {text : Option Text} {entry : Text × Text} :
    entry ∈ optionalSection name text ↔
      ∃ found, text = some found ∧ found ≠ [] ∧ entry = (name, found) := by
  cases text with
  | none => simp [optionalSection]
  | some found => cases found <;> simp [optionalSection]

variable {page : PageDocument}

theorem mem_instructionSections {entry : Text × Text} :
    entry ∈ instructionSections page ↔
      SectionOf page entry.1 entry.2 := by
  obtain ⟨name, text⟩ := entry
  simp only [instructionSections, List.mem_append, List.mem_singleton,
    mem_optionalSection, List.mem_map, List.mem_filter]
  constructor
  · rintro (((((((same | ⟨_, found, some', same⟩) | ⟨_, found, some', same⟩) |
      ⟨_, found, some', same⟩) | ⟨_, found, some', same⟩) | same) |
      ⟨_, found, some', same⟩) | ⟨code, ⟨isIn, named⟩, same⟩) <;>
      obtain ⟨rfl, rfl⟩ := Prod.mk.inj same
    · exact .title
    · exact .icon found some'
    · exact .head found some'
    · exact .bookmark found some'
    · obtain rfl := Option.some.inj found
      exact .note some'
    · exact .stash
    · exact .html found some'
    · exact .code isIn named
  · rintro (_ | ⟨found, some'⟩ | ⟨found, some'⟩ | ⟨found, some'⟩ | some' | _ |
      ⟨found, some'⟩ | ⟨isIn, named⟩)
    · simp
    · simp [found, some']
    · simp [found, some']
    · simp [found, some']
    · simp [some']
    · simp
    · simp [found, some']
    · exact .inr ⟨_, ⟨isIn, named⟩, rfl⟩

theorem isSectionName_fixed (fixed : name ∈ legacyFixedKeys) :
    IsSectionName name := by
  have checked :
      ∀ name ∈ legacyFixedKeys,
        name.head?.any Char.isAlpha = true ∧
          name.all isNameChar = true ∧ name.map Char.toUpper = name := by
    decide
  obtain ⟨first, chars, upper⟩ := checked name fixed
  exact { first, chars, upper, known := .inl fixed }

theorem toNat_of_isDigit {char : Char} (digit : char.isDigit = true) :
    48 ≤ char.toNat ∧ char.toNat ≤ 57 := by
  simp only [Char.isDigit, Bool.and_eq_true, decide_eq_true_eq,
    UInt32.le_iff_toNat_le] at digit
  exact digit

theorem toUpper_of_isDigit {char : Char} (digit : char.isDigit = true) :
    char.toUpper = char := by
  have code := (toNat_of_isDigit digit).2
  unfold Char.toUpper
  split
  · next lower =>
      have least : 97 ≤ char.toNat := UInt32.le_iff_toNat_le.mp lower.1
      omega
  · rfl

/-- A `CODEn` name is read as it is written. -/
theorem isSectionName_code {id : Text} (code : IsCodeId id) :
    IsSectionName id ∧ isCodeName id = true := by
  obtain ⟨digits, nonempty, decimal, rfl⟩ := code
  have each := List.all_eq_true.mp decimal
  have taken : digits.takeWhile isDigit = digits :=
    List.takeWhile_eq_self_iff.mpr
      fun char isIn => isDigit_of_ascii (each char isIn)
  have left : digits.dropWhile isDigit = [] :=
    List.dropWhile_eq_nil_iff.mpr
      fun char isIn => isDigit_of_ascii (each char isIn)
  have named : isCodeName ("CODE".toList ++ digits) = true := by
    have start :
        "CODE".toList.isPrefixOf ("CODE".toList ++ digits) = true :=
      List.isPrefixOf_iff_prefix.mpr (List.prefix_append _ _)
    have dropped : ("CODE".toList ++ digits).drop 4 = digits := rfl
    unfold isCodeName
    dsimp only
    rw [start, dropped, taken, left]
    simpa using nonempty
  refine ⟨{
    first := rfl
    chars := ?_
    upper := ?_
    known := .inr named }, named⟩
  · rw [List.all_append, Bool.and_eq_true]
    refine ⟨rfl, List.all_eq_true.mpr fun char isIn => ?_⟩
    simp [isNameChar, Char.isAlphanum, each char isIn]
  · rw [List.map_append]
    have same : digits.map Char.toUpper = digits := by
      conv_rhs => rw [← List.map_id digits]
      exact List.map_congr_left
        fun char isIn => toUpper_of_isDigit (each char isIn)
    rw [same]
    rfl

def fixedSections (page : PageDocument) : List (Text × Text) :=
  [("TITLE".toList, page.title)] ++
    optionalSection "ICON".toList page.metadata.icon ++
    optionalSection "HEAD".toList page.metadata.head ++
    optionalSection "BOOKMARK".toList page.id ++
    optionalSection "NOTE".toList (some page.description) ++
    [("STASH".toList, legacyStashText page.state)] ++
    optionalSection "HTML".toList page.body

theorem fixedSections_names (page : PageDocument) :
    ((fixedSections page).map Prod.fst).Sublist
      ["TITLE".toList, "ICON".toList, "HEAD".toList, "BOOKMARK".toList,
        "NOTE".toList, "STASH".toList, "HTML".toList] := by
  have optional (name : Text) (text : Option Text) :
      ((optionalSection name text).map Prod.fst).Sublist [name] := by
    rcases text with _ | _ | _
    · exact List.nil_sublist _
    · exact List.nil_sublist _
    · exact List.Sublist.refl _
  simp only [fixedSections, List.map_append]
  exact ((((((List.Sublist.refl ["TITLE".toList]).append
    (optional _ _)).append (optional _ _)).append (optional _ _)).append
      (optional _ _)).append (List.Sublist.refl ["STASH".toList])).append
        (optional _ _)

theorem isCodeName_fixedSections (page : PageDocument) (name : Text)
    (fixed : name ∈ (fixedSections page).map Prod.fst) :
    isCodeName name = false := by
  have notCode :
      ∀ name ∈ ["TITLE".toList, "ICON".toList, "HEAD".toList,
          "BOOKMARK".toList, "NOTE".toList, "STASH".toList,
          "HTML".toList], isCodeName name = false := by
    decide
  exact notCode name ((fixedSections_names page).subset fixed)

theorem codeSections_names (texts : PageTexts page) :
    (instructionSections page).map Prod.fst =
      (fixedSections page).map Prod.fst ++
        page.metadata.codes.map CodeBlock.id := by
  have all :
      (page.metadata.codes.filter fun code => isCodeName code.id) =
        page.metadata.codes :=
    List.filter_eq_self.mpr
      fun code isIn => (isSectionName_code (texts.codeIds code isIn)).2
  change (fixedSections page ++
    (page.metadata.codes.filter fun code => isCodeName code.id).map
      fun code => (code.id, code.body)).map Prod.fst = _
  rw [all, List.map_append, List.map_map]
  rfl

theorem sectionNames_instructionSections (texts : PageTexts page) :
    SectionNames (instructionSections page) where
  valid entry isIn := by
    have written := mem_instructionSections.mp isIn
    generalize entry.1 = name at written ⊢
    generalize entry.2 = text at written
    cases written with
    | code isIn => exact (isSectionName_code (texts.codeIds _ isIn)).1
    | _ => exact isSectionName_fixed (by decide)
  distinct := by
    rw [codeSections_names texts, List.nodup_append]
    refine ⟨(fixedSections_names page).nodup (by decide), texts.distinct, ?_⟩
    rintro name fixed other isCode rfl
    obtain ⟨code, isIn, rfl⟩ := List.mem_map.mp isCode
    have named := (isSectionName_code (texts.codeIds code isIn)).2
    rw [isCodeName_fixedSections page _ fixed] at named
    contradiction

def readSections (text : Text) : Sections :=
  if hasHeader text then parseModernSections text
  else parseLegacySections text

structure ReadFromSections
    (keyOrder : List Text → List Text) (decodeStash : Text → StashHash)
    (sections : Sections) (read : PageDocument) : Prop where
  nonempty : sections.isEmpty = false
  id :
    read.id =
      let bookmark := trim (sectionText sections "BOOKMARK".toList)
      if Perl.isTrue bookmark then some bookmark else none
  title :
    read.title =
      let title := trim (sectionText sections "TITLE".toList)
      if Perl.isTrue title then title else "Untitled".toList
  description :
    read.description =
      trimTrailingNewlines
        (match sections.lookup "NOTE".toList with
        | some lines => joinLines lines
        | none => sectionText sections "DESCRIPTION".toList)
  state :
    read.state = decodeStash (sectionText sections "STASH".toList)
  body :
    read.body =
      some (trimTrailingNewlines (sectionText sections "HTML".toList))
  icon :
    read.metadata.icon =
      (sections.lookup "ICON".toList).map fun lines =>
        trim (joinLines lines)
  head :
    read.metadata.head =
      (sections.lookup "HEAD".toList).map fun lines =>
        trimTrailingNewlines (joinLines lines)
  codes : read.metadata.codes = readCodes keyOrder sections

theorem fromInstruction_iff
    {keyOrder : List Text → List Text} {decodeStash : Text → StashHash}
    {text : Text} :
    (∃ read, fromInstruction keyOrder decodeStash text = .ok read) ↔
      (readSections text).isEmpty = false := by
  unfold fromInstruction
  change (∃ read, (if (readSections text).isEmpty then _ else _) =
    Except.ok read) ↔ _
  cases (readSections text).isEmpty with
  | true =>
    rw [if_pos rfl]
    refine ⟨?_, fun some' => absurd some' (by decide)⟩
    rintro ⟨read, ⟨⟩⟩
  | false =>
    rw [if_neg Bool.false_ne_true]
    exact iff_of_true ⟨_, rfl⟩ rfl

variable {text : Text} {keyOrder : List Text → List Text}
  {read : PageDocument}

theorem readFromSections_of_ok {decodeStash : Text → StashHash}
    (ok : fromInstruction keyOrder decodeStash text = .ok read) :
    ReadFromSections keyOrder decodeStash (readSections text) read := by
  have nonempty := fromInstruction_iff.mp ⟨read, ok⟩
  unfold fromInstruction at ok
  change (if (readSections text).isEmpty then _ else _) =
    Except.ok read at ok
  rw [nonempty, if_neg Bool.false_ne_true] at ok
  obtain rfl := Except.ok.inj ok
  exact {
    nonempty
    id := rfl
    title := rfl
    description := rfl
    state := rfl
    body := rfl
    icon := rfl
    head := rfl
    codes := rfl }

/--
How the text of a section that was read relates to the text that was written.
-/
inductive ReadFrom (source text : Text) : Prop where
  | around {lead trail : Text} :
      source = lead ++ (text ++ trail) → trail.all isSpace = true →
        trimNewlines text = text → ReadFrom source text
  | trimmed : source = trim text → trimEnd text = text →
      ReadFrom source text
  | untitled : text = "Untitled".toList → ReadFrom source text

theorem ReadFrom.of_trim {source : Text} (read : trim source = text) :
    ReadFrom source text := by
  obtain ⟨lead, trail, whole, -, after⟩ := exists_trim source
  rw [read] at whole
  refine .around whole after (trimNewlines_of_trimmed ?_)
  rw [← read, trim_trim]

theorem ReadFrom.of_trimTrailingNewlines
    {source : Text} (read : trimTrailingNewlines source = text)
    (trimmed : trim text = text) :
    ReadFrom source text := by
  obtain ⟨trail, whole, after⟩ := exists_trimTrailingNewlines source
  rw [read] at whole
  have padded : source = [] ++ (text ++ trail) := whole
  exact .around padded after (trimNewlines_of_trimmed trimmed)

def probeStash (text : Text) : StashHash :=
  [(text, .undef)]

theorem exists_readFrom {sections : Sections} (texts : PageTexts page)
    (source : ReadFromSections keyOrder probeStash sections read)
    (back : ReadsBack probeStash page read)
    (written : SectionOf page name text) :
    ∃ from',
      (sections.lookup name ≠ none → from' = name) ∧
        ReadFrom (sectionText sections from') text := by
  have ofLookup {name : Text} {change : Text → Text} {text : Text}
      (found :
        (sections.lookup name).map (fun lines => change (joinLines lines)) =
          some text) :
      change (sectionText sections name) = text := by
    obtain ⟨lines, stored, same⟩ := Option.map_eq_some_iff.mp found
    rw [sectionText, stored]
    exact same
  cases written with
  | title =>
    refine ⟨_, fun _ => rfl, ?_⟩
    have title := source.title
    rw [back.title] at title
    dsimp only at title
    split at title
    · exact .of_trim title.symm
    · exact .untitled title
  | icon found some' =>
    refine ⟨_, fun _ => rfl, .of_trim (ofLookup ?_)⟩
    rw [← source.icon, back.icon, found]
  | head found some' =>
    refine ⟨_, fun _ => rfl,
      .of_trimTrailingNewlines (ofLookup ?_) (texts.head _ found)⟩
    rw [← source.head, back.head, found]
  | bookmark found some' =>
    refine ⟨_, fun _ => rfl, .of_trim ?_⟩
    have id := source.id
    rw [back.id, found] at id
    dsimp only at id
    split at id
    · exact (Option.some.inj id).symm
    · contradiction
  | note some' =>
    have description := source.description
    rw [back.description] at description
    cases stored : sections.lookup "NOTE".toList with
    | some lines =>
      rw [stored] at description
      refine ⟨"NOTE".toList, fun _ => rfl,
        .of_trimTrailingNewlines ?_ texts.description⟩
      rw [sectionText, stored]
      exact description.symm
    | none =>
      rw [stored] at description
      exact ⟨"DESCRIPTION".toList, fun present => absurd rfl present,
        .of_trimTrailingNewlines description.symm texts.description⟩
  | stash =>
    refine ⟨_, fun _ => rfl,
      .trimmed ?_ (trimEnd_legacyStashText page.state)⟩
    have state := source.state
    rw [back.state] at state
    exact (Prod.mk.inj (List.cons.inj state).1).1.symm
  | html found some' =>
    obtain ⟨html, isHtml, trimmed⟩ := texts.body
    obtain rfl := Option.some.inj (found.symm.trans isHtml)
    refine ⟨_, fun _ => rfl, .of_trimTrailingNewlines ?_ trimmed⟩
    have body := source.body
    rw [back.body, found] at body
    exact (Option.some.inj body).symm
  | code isIn named =>
    have isRead := back.codes.mem_iff.mpr isIn
    rw [source.codes, readCodes] at isRead
    obtain ⟨id, _, rfl⟩ := List.mem_map.mp isRead
    exact ⟨id, fun _ => rfl,
      .of_trimTrailingNewlines rfl (texts.codeBodies _ isIn)⟩

theorem ReadFrom.visible {source : Text} (read : ReadFrom source text) :
    Perl.visible text ≤ Perl.visible source ∨
      text = "Untitled".toList := by
  rcases read with ⟨whole, -, -⟩ | ⟨whole, -⟩ | default
  · left
    rw [whole, visible_append, visible_append]
    omega
  · left
    rw [whole, visible_trim]
  · exact .inr default

theorem ReadFrom.hasHeaderLine {source : Text} (read : ReadFrom source text)
    (header :
      hasHeaderLine (some ' ') (trimNewlines text) = true) :
    Page.hasHeaderLine none source = true := by
  rcases read with ⟨whole, after, trimmed⟩ | ⟨whole, ending⟩ | rfl
  · rw [trimmed] at header
    rw [whole]
    exact hasHeaderLine_of_space_around after header
  · obtain ⟨lead, before, split⟩ := exists_trimNewlines_of_trimEnd ending
    rw [split] at header
    rw [whole]
    exact hasHeaderLine_of_space_before before header
  · exact absurd header (by decide)

theorem hasHeader_canonicalInstruction (texts : PageTexts page) :
    hasHeader (canonicalInstruction page) =
      (instructionSections page).any fun entry =>
        holdsHeader (trimNewlines entry.2) := by
  rw [canonicalInstruction, legacyInstruction_eq]
  exact anyLineStart_sectionsText headerPattern_headerStart?
    (sectionNames_instructionSections texts) none

theorem instructionSections_cons (page : PageDocument) :
    ∃ next rest,
      instructionSections page =
        ("TITLE".toList, page.title) :: next :: rest := by
  have some' :
      ("STASH".toList, legacyStashText page.state) ∈
        (instructionSections page).tail := by
    simp [instructionSections]
  obtain ⟨next, rest, others⟩ :=
    List.exists_cons_of_ne_nil (List.ne_nil_of_mem some')
  refine ⟨next, rest, ?_⟩
  rw [← others]
  simp [instructionSections]

theorem hasSeparator_canonicalInstruction (page : PageDocument) :
    hasSeparator (canonicalInstruction page) = true := by
  obtain ⟨next, rest, sections⟩ := instructionSections_cons page
  rw [canonicalInstruction, legacyInstruction_eq, sections, hasSeparator,
    Bool.or_eq_true, any_tails_iff]
  left
  refine ⟨sectionChunk ("TITLE".toList, page.title) ++ ['\n'],
    followingText (next :: rest), ?_, ?_⟩
  · rw [sectionsText_cons, List.append_assoc]
    rfl
  · exact List.isPrefixOf_iff_prefix.mpr (List.prefix_append _ _)

theorem readSections_canonicalInstruction
    (plain : hasHeader (canonicalInstruction page) = false) :
    readSections (canonicalInstruction page) =
      (ScanSplit.scan sectionSeparator 0 none
        (sectionsText (instructionSections page))).foldl addSection [] := by
  rw [readSections, plain, if_neg Bool.false_ne_true, parseLegacySections,
    hasSeparator_canonicalInstruction, if_pos rfl, canonicalInstruction,
    legacyInstruction_eq]

theorem hasHeader_of_readsBack (texts : PageTexts page)
    (source :
      ReadFromSections keyOrder probeStash
        (readSections (canonicalInstruction page)) read)
    (back : ReadsBack probeStash page read) :
    hasHeader (canonicalInstruction page) = false := by
  rw [← Bool.not_eq_true]
  intro header
  have modern :
      readSections (canonicalInstruction page) =
        parseModernSections (canonicalInstruction page) := by
    rw [readSections, header, if_pos rfl]
  have nonempty := source.nonempty
  rw [modern] at nonempty
  -- a header line stands in the text of some section
  have line := exists_header_of_parseModernSections nonempty
  rw [hasHeaderLine, canonicalInstruction, legacyInstruction_eq,
    anyLineStart_sectionsText headerPattern_isHeaderLine
      (sectionNames_instructionSections texts),
    List.any_eq_true] at line
  obtain ⟨entry, isIn, inText⟩ := line
  -- and so in the section from which that text was read
  obtain ⟨from', -, readText⟩ :=
    exists_readFrom texts source back (mem_instructionSections.mp isIn)
  have inSource := readText.hasHeaderLine inText
  rw [modern, hasHeaderLine_sectionText
    (headerFree_parseModernSections _)] at inSource
  contradiction

theorem quiet_of_readsBack (texts : PageTexts page)
    (source :
      ReadFromSections keyOrder probeStash
        (readSections (canonicalInstruction page)) read)
    (back : ReadsBack probeStash page read) :
    ∀ entry ∈ instructionSections page,
      holdsSeparator (trimNewlines entry.2) = false := by
  have names := sectionNames_instructionSections texts
  have sections :=
    readSections_canonicalInstruction
      (hasHeader_of_readsBack texts source back)
  obtain ⟨next, rest, whole⟩ := instructionSections_cons page
  rw [whole] at names
  rcases quiet_or_someLess names with
    quiet | ⟨entry, isIn, holds, lines, found, less⟩
  · rw [whole]
    exact quiet
  · rw [← whole] at isIn found
    rw [← sections] at found
    obtain ⟨from', same, readText⟩ :=
      exists_readFrom texts source back (mem_instructionSections.mp isIn)
    obtain rfl := same (by rw [found]; exact Option.some_ne_none _)
    rw [sectionText, found, Option.getD_some] at readText
    rcases readText.visible with enough | default
    · omega
    · rw [default] at holds
      exact absurd holds (by decide)

/-- The sections of a page, as they are read when they are kept apart. -/
def writtenSections (page : PageDocument) : Sections :=
  (instructionSections page).map
    fun entry => (entry.1, splitLines (trim entry.2))

theorem readSections_of_unframed (texts : PageTexts page)
    (unframed : ∀ entry ∈ instructionSections page,
      isFramed (trimNewlines entry.2) = false) :
    readSections (canonicalInstruction page) = writtenSections page := by
  have quiet (entry : Text × Text) (isIn : entry ∈ instructionSections page) :
      holdsSeparator (trimNewlines entry.2) = false ∧
        holdsHeader (trimNewlines entry.2) = false :=
    Bool.or_eq_false_iff.mp (unframed entry isIn)
  have plain : hasHeader (canonicalInstruction page) = false := by
    rw [hasHeader_canonicalInstruction texts, List.any_eq_false]
    intro entry isIn
    rw [(quiet entry isIn).2]
    exact Bool.false_ne_true
  have names := sectionNames_instructionSections texts
  obtain ⟨next, rest, whole⟩ := instructionSections_cons page
  have parts :
      ScanSplit.scan sectionSeparator 0 none
          (sectionsText (instructionSections page)) =
        (instructionSections page).map sectionPart := by
    rw [whole] at names quiet ⊢
    exact scan_of_quiet names (fun entry isIn => (quiet entry isIn).1) none
  rw [readSections_canonicalInstruction plain, parts,
    foldl_addSection_sectionPart names fun _ _ => rfl, List.nil_append,
    writtenSections]

theorem map_fst_writtenSections (page : PageDocument) :
    (writtenSections page).map Prod.fst =
      (instructionSections page).map Prod.fst := by
  rw [writtenSections, List.map_map]
  rfl

theorem lookup_writtenSections (texts : PageTexts page)
    (written : SectionOf page name text) :
    (writtenSections page).lookup name =
      some (splitLines (trim text)) := by
  have isIn := mem_instructionSections.mpr
    (show SectionOf page (name, text).1 (name, text).2 from written)
  refine Entries.lookup_of_mem ?_ ?_
  · rw [map_fst_writtenSections]
    exact (sectionNames_instructionSections texts).distinct
  · exact List.mem_map.mpr ⟨_, isIn, rfl⟩

theorem sectionText_writtenSections (texts : PageTexts page)
    (written : SectionOf page name text) :
    sectionText (writtenSections page) name = trim text := by
  rw [sectionText, lookup_writtenSections texts written, Option.getD_some,
    joinLines_splitLines]

theorem lookup_writtenSections_eq_none
    (absent : ∀ text, ¬ SectionOf page name text) :
    (writtenSections page).lookup name = none := by
  rw [Entries.lookup_eq_none_iff, map_fst_writtenSections]
  intro isIn
  obtain ⟨⟨other, text⟩, entryIn, rfl⟩ := List.mem_map.mp isIn
  exact absent text (mem_instructionSections.mp entryIn)

theorem SectionOf.optional (written : SectionOf page name text) :
    (name ≠ "NOTE".toList ∨ page.description ≠ []) ∧
      (name ≠ "HEAD".toList ∨
        ∃ head, page.metadata.head = some head ∧ head ≠ []) ∧
      (name ≠ "HTML".toList ∨
        ∃ html, page.body = some html ∧ html ≠ []) ∧
      name ≠ "DESCRIPTION".toList := by
  cases written with
  | note some' =>
    exact ⟨.inr some', .inl (by decide), .inl (by decide), by decide⟩
  | head found some' =>
    exact ⟨.inl (by decide), .inr ⟨_, found, some'⟩, .inl (by decide),
      by decide⟩
  | html found some' =>
    exact ⟨.inl (by decide), .inl (by decide), .inr ⟨_, found, some'⟩,
      by decide⟩
  | @code code _ named =>
    have other (fixed : Text) (isCode : isCodeName fixed = false) :
        code.id ≠ fixed := by
      rintro rfl
      rw [named] at isCode
      contradiction
    exact ⟨.inl (other _ (by decide)), .inl (other _ (by decide)),
      .inl (other _ (by decide)), other _ (by decide)⟩
  | _ =>
    exact ⟨.inl (by decide), .inl (by decide), .inl (by decide), by decide⟩

theorem readCodes_writtenSections (texts : PageTexts page)
    (order : ∀ names, (keyOrder names).Perm names) :
    (readCodes keyOrder (writtenSections page)).Perm page.metadata.codes ∧
      (readCodes keyOrder (writtenSections page)).Pairwise
        fun left right => codeNumber left.id ≤ codeNumber right.id := by
  have codeNames :
      (((writtenSections page).map Prod.fst).filter isCodeName) =
        page.metadata.codes.map CodeBlock.id := by
    rw [map_fst_writtenSections, codeSections_names texts,
      List.filter_append]
    have fixed :
        ((fixedSections page).map Prod.fst).filter isCodeName = [] := by
      refine List.filter_eq_nil_iff.mpr fun name isIn => ?_
      rw [isCodeName_fixedSections page name isIn]
      exact Bool.false_ne_true
    have codes :
        (page.metadata.codes.map CodeBlock.id).filter isCodeName =
          page.metadata.codes.map CodeBlock.id := by
      refine List.filter_eq_self.mpr fun id isIn => ?_
      obtain ⟨code, isCode, rfl⟩ := List.mem_map.mp isIn
      exact (isSectionName_code (texts.codeIds code isCode)).2
    rw [fixed, codes, List.nil_append]
  have sorted :
      ((((keyOrder ((writtenSections page).map Prod.fst)).filter
        isCodeName).insertionSort
          fun left right => codeNumber left ≤ codeNumber right)).Perm
        (page.metadata.codes.map CodeBlock.id) := by
    rw [← codeNames]
    exact (List.perm_insertionSort _ _).trans ((order _).filter _)
  constructor
  · refine (sorted.map _).trans ?_
    rw [List.map_map]
    refine List.Perm.of_eq ?_
    conv_rhs => rw [← List.map_id page.metadata.codes]
    refine List.map_congr_left fun code isIn => ?_
    have named := (isSectionName_code (texts.codeIds code isIn)).2
    rw [Function.comp_apply,
      sectionText_writtenSections texts (.code isIn named),
      texts.codeBodies code isIn,
      trimTrailingNewlines_of_trimmed (texts.codeBodies code isIn)]
    rfl
  · have total :
        Std.Total fun left right : Text =>
          codeNumber left ≤ codeNumber right :=
      ⟨fun left right => Nat.le_total _ _⟩
    have trans :
        IsTrans Text fun left right => codeNumber left ≤ codeNumber right :=
      ⟨fun _ _ _ => Nat.le_trans⟩
    exact List.pairwise_map.mpr (List.pairwise_insertionSort _ _)

theorem readsBack_of_keepsSections {decodeStash : Text → StashHash}
    (texts : PageTexts page) (order : ∀ names, (keyOrder names).Perm names)
    (keeps : KeepsSections page)
    (source :
      ReadFromSections keyOrder decodeStash (writtenSections page) read) :
    ReadsBack decodeStash page read := by
  obtain ⟨id, isId, idLine⟩ := texts.id
  obtain ⟨icon, isIcon, iconLine⟩ := texts.icon
  obtain ⟨html, isHtml, htmlTrimmed⟩ := texts.body
  have codes := readCodes_writtenSections texts order
  refine {
    title := ?_
    id := ?_
    icon := ?_
    description := ?_
    head := ?_
    body := ?_
    codes := by rw [source.codes]; exact codes.1
    sorted := by rw [source.codes]; exact codes.2
    state := by rw [source.state, sectionText_writtenSections texts .stash] }
  · rw [source.title, sectionText_writtenSections texts .title, trim_trim,
      texts.title]
    dsimp only
    rw [if_pos keeps.title]
  · have isTrue : Perl.isTrue id = true := by
      refine decide_eq_true ⟨idLine.nonempty, ?_⟩
      rintro rfl
      exact keeps.id isId
    rw [source.id, isId,
      sectionText_writtenSections texts (.bookmark isId idLine.nonempty),
      trim_trim, idLine.trimmed]
    dsimp only
    rw [if_pos isTrue]
  · rw [source.icon, isIcon,
      lookup_writtenSections texts (.icon isIcon iconLine.nonempty),
      Option.map_some, joinLines_splitLines, trim_trim, iconLine.trimmed]
  · rw [source.description]
    by_cases empty : page.description = []
    · have noNote :
          (writtenSections page).lookup "NOTE".toList = none :=
        lookup_writtenSections_eq_none
          fun _ written =>
            (written.optional.1.resolve_left fun other => other rfl) empty
      have noDescription :
          (writtenSections page).lookup "DESCRIPTION".toList = none :=
        lookup_writtenSections_eq_none
          fun _ written => written.optional.2.2.2 rfl
      rw [noNote, empty, sectionText, noDescription]
      rfl
    · rw [lookup_writtenSections texts (.note empty)]
      dsimp only
      rw [joinLines_splitLines, texts.description,
        trimTrailingNewlines_of_trimmed texts.description]
  · rw [source.head]
    cases isHead : page.metadata.head with
    | none =>
      have noHead :
          (writtenSections page).lookup "HEAD".toList = none :=
        lookup_writtenSections_eq_none fun _ written => by
          obtain ⟨head, found, -⟩ :=
            written.optional.2.1.resolve_left fun other => other rfl
          rw [isHead] at found
          contradiction
      rw [noHead]
      rfl
    | some head =>
      have nonempty : head ≠ [] := by
        rintro rfl
        exact keeps.head isHead
      have trimmed := texts.head head isHead
      rw [lookup_writtenSections texts (.head isHead nonempty),
        Option.map_some, joinLines_splitLines, trimmed,
        trimTrailingNewlines_of_trimmed trimmed]
  · rw [source.body, isHtml]
    by_cases empty : html = []
    · have noHtml :
          (writtenSections page).lookup "HTML".toList = none :=
        lookup_writtenSections_eq_none fun _ written => by
          obtain ⟨found, same, some'⟩ :=
            written.optional.2.2.1.resolve_left fun other => other rfl
          rw [isHtml, empty] at same
          exact some' (Option.some.inj same).symm
      rw [sectionText, noHtml, empty]
      rfl
    · rw [sectionText_writtenSections texts (.html isHtml empty),
        htmlTrimmed, trimTrailingNewlines_of_trimmed htmlTrimmed]

theorem keepsSections_of_readsBack (texts : PageTexts page)
    (ok :
      fromInstruction keyOrder probeStash (canonicalInstruction page) =
        .ok read)
    (back : ReadsBack probeStash page read) :
    KeepsSections page := by
  have source := readFromSections_of_ok ok
  have quiet := quiet_of_readsBack texts source back
  have plain := hasHeader_of_readsBack texts source back
  rw [hasHeader_canonicalInstruction texts, List.any_eq_false] at plain
  have unframed : ∀ entry ∈ instructionSections page,
      isFramed (trimNewlines entry.2) = false := by
    intro entry isIn
    rw [isFramed, quiet entry isIn, Bool.false_or]
    exact Bool.not_eq_true _ ▸ plain entry isIn
  rw [readSections_of_unframed texts unframed] at source
  refine { unframed, title := ?_, id := ?_, head := ?_ }
  · have title := source.title
    rw [back.title] at title
    dsimp only at title
    split at title
    · next shown => rwa [← title] at shown
    · rw [title]
      decide
  · have id := source.id
    rw [back.id] at id
    intro zero
    rw [zero] at id
    dsimp only at id
    split at id
    · next shown =>
        rw [← Option.some.inj id] at shown
        exact absurd shown (by decide)
    · exact Option.some_ne_none _ id
  · intro empty
    have head := source.head
    rw [back.head, empty] at head
    have noHead : (writtenSections page).lookup "HEAD".toList = none :=
      lookup_writtenSections_eq_none fun _ written => by
        obtain ⟨found, same, some'⟩ :=
          written.optional.2.1.resolve_left fun other => other rfl
        rw [empty] at same
        exact some' (Option.some.inj same).symm
    rw [noHead, Option.map_none] at head
    exact Option.some_ne_none _ head

/--
A page is read back from its instruction text, the whole state text included,
exactly when no text of its sections holds a separator or a header, and its
title, id and head are not ones that the reader takes as absent.
-/
theorem instruction_round_trip_iff
    (keyOrder : List Text → List Text) (page : PageDocument)
    (order : ∀ names, (keyOrder names).Perm names) (texts : PageTexts page) :
    (∀ decodeStash, ∃ read,
      fromInstruction keyOrder decodeStash (canonicalInstruction page) =
          .ok read ∧
        ReadsBack decodeStash page read) ↔
      KeepsSections page := by
  constructor
  · intro back
    obtain ⟨read, ok, readsBack⟩ := back probeStash
    exact keepsSections_of_readsBack texts ok readsBack
  · intro keeps decodeStash
    have sections := readSections_of_unframed texts keeps.unframed
    have nonempty :
        (readSections (canonicalInstruction page)).isEmpty = false := by
      obtain ⟨next, rest, whole⟩ := instructionSections_cons page
      rw [sections, writtenSections, whole]
      rfl
    obtain ⟨read, ok⟩ :=
      (@fromInstruction_iff keyOrder decodeStash _).mpr nonempty
    have source := readFromSections_of_ok ok
    rw [sections] at source
    exact ⟨read, ok, readsBack_of_keepsSections texts order keeps source⟩

def fullPage (html : String) : PageDocument where
  id := some "index".toList
  title := "Index".toList
  description := "A note".toList
  state := [("count".toList, .scalar "3".toList)]
  body := some html.toList
  metadata := {
    icon := some "home".toList
    head := some "<base>".toList
    codes := [⟨"CODE2".toList, "print 2".toList⟩,
      ⟨"CODE1".toList, "print 1\n\n1;".toList⟩]
    sourceFormat := none
    sourceKind := none
    rawInstruction := none }

theorem pageTexts_fullPage
    {html : String} (trimmed : trim html.toList = html.toList) :
    PageTexts (fullPage html) where
  title := by
    change trim "Index".toList = "Index".toList
    decide
  description := by
    change trim "A note".toList = "A note".toList
    decide
  head head found := by
    obtain rfl := Option.some.inj found
    decide
  body := ⟨html.toList, rfl, trimmed⟩
  id := ⟨"index".toList, rfl, by decide, by decide, by decide⟩
  icon := ⟨"home".toList, rfl, by decide, by decide, by decide⟩
  codeIds code isIn := by
    simp only [fullPage, List.mem_cons, List.not_mem_nil, or_false] at isIn
    rcases isIn with rfl | rfl
    · exact ⟨['2'], by decide, by decide, rfl⟩
    · exact ⟨['1'], by decide, by decide, rfl⟩
  codeBodies code isIn := by
    simp only [fullPage, List.mem_cons, List.not_mem_nil, or_false] at isIn
    rcases isIn with rfl | rfl <;> decide
  distinct := by
    change ["CODE2".toList, "CODE1".toList].Nodup
    decide

/-- A body of several lines is read back with the rest of the page. -/
theorem instruction_round_trip_fullPage :
    ∃ read,
      fromInstruction id probeStash
          (canonicalInstruction (fullPage "<p>a\n--\n=== b</p>")) =
          .ok read ∧
        ReadsBack probeStash (fullPage "<p>a\n--\n=== b</p>") read :=
  (instruction_round_trip_iff id (fullPage "<p>a\n--\n=== b</p>")
    (fun names => List.Perm.refl names)
    (pageTexts_fullPage (by decide))).mpr
      { unframed := by decide +kernel
        title := by decide
        id := by decide
        head := by decide } probeStash

/--
A line of dashes ends the body of a page, and a header line in it ends the
page.
-/
theorem instruction_round_trip_loses_text :
    PageTexts (fullPage "<p>a</p>\n---\n<p>b</p>") ∧
      (fromInstruction id (fun _ => [])
          (canonicalInstruction
            (fullPage "<p>a</p>\n---\n<p>b</p>"))).map PageDocument.body =
        .ok (some "<p>a</p>".toList) ∧
      PageTexts (fullPage "<p>a</p>\n=== HTML ===\n<p>b</p>") ∧
      (fromInstruction id (fun _ => [])
          (canonicalInstruction
            (fullPage "<p>a</p>\n=== HTML ===\n<p>b</p>"))).map
              PageDocument.title =
        .ok "Untitled".toList :=
  ⟨pageTexts_fullPage (by decide), by decide +kernel,
    pageTexts_fullPage (by decide), by decide +kernel⟩

end DeveloperDashboard.Page
