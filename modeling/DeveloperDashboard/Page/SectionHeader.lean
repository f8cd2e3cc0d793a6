import DeveloperDashboard.Page.SectionScan

namespace DeveloperDashboard.Page

open Library Perl

/-!
# Headers in the sections that were written

A header of the modern syntax can only start within the text of a section.  If
one does, the page is read in that syntax, whose sections hold no header lines.
-/

def firstLine (text : Text) : Text :=
  text.takeWhile fun char => char ≠ '\n'

theorem firstLine_cons (char : Char) (text : Text) :
    firstLine (char :: text) =
      if char = '\n' then [] else char :: firstLine text := by
  by_cases newline : char = '\n' <;> simp [firstLine, newline]

theorem exists_splitOn (text : Text) :
    ∃ rest, text.splitOn '\n' = firstLine text :: rest := by
  induction text with
  | nil => exact ⟨[], rfl⟩
  | cons char text ih =>
    obtain ⟨rest, lines⟩ := ih
    rw [List.splitOn_cons_eq_if_modifyHead, lines, firstLine_cons]
    by_cases newline : char = '\n'
    · subst newline
      exact ⟨_, rfl⟩
    · refine ⟨rest, ?_⟩
      simp [newline]

variable {matches? : Text → Bool}

/-- The lines that begin after the start of a text, or also the first one. -/
theorem anyLineStart_firstLine (notEmpty : matches? [] = false)
    (previous : Option Char) (text : Text) :
    anyLineStart (fun rest => matches? (firstLine rest)) previous text =
      if startsLine previous then (text.splitOn '\n').any matches?
      else (text.splitOn '\n').tail.any matches? := by
  induction text generalizing previous with
  | nil => simp [anyLineStart, notEmpty]
  | cons char rest ih =>
    obtain ⟨lines, split⟩ := exists_splitOn rest
    rw [anyLineStart, ih,
      List.splitOn_cons_eq_if_modifyHead, split, firstLine_cons]
    by_cases newline : char = '\n'
    · subst newline
      cases startsLine previous <;> simp [startsLine, notEmpty]
    · have notStart : startsLine (some char) = false := by
        simp [startsLine, newline]
      cases startsLine previous <;> simp [newline, notStart]

theorem anyLineStart_append
    (matches? : Text → Bool) (previous : Option Char) (front back : Text) :
    anyLineStart matches? previous (front ++ back) =
      (anyLineStart (fun rest => matches? (rest ++ back)) previous front ||
        anyLineStart matches? (ScanSplit.lastItem previous front) back) := by
  induction front generalizing previous with
  | nil => simp [anyLineStart, ScanSplit.lastItem]
  | cons char front ih =>
    rw [List.cons_append, anyLineStart, anyLineStart,
      ih, ScanSplit.lastItem_cons, Bool.or_assoc]
    rfl

variable {text : Text}

theorem anyLineStart_eq_false {previous : Option Char}
    (silent : ∀ char ∈ text, ∀ rest, matches? (char :: rest) = false) :
    anyLineStart matches? previous text = false := by
  induction text generalizing previous with
  | nil => rfl
  | cons char rest ih =>
    rw [anyLineStart, silent char List.mem_cons_self, Bool.and_false,
      Bool.false_or]
    exact ih
      fun other isIn => silent other (List.mem_cons_of_mem _ isIn)

theorem anyLineStart_congr {other : Text → Bool}
    (same : ∀ rest, matches? rest = other rest)
    (previous : Option Char) (text : Text) :
    anyLineStart matches? previous text =
      anyLineStart other previous text := by
  rw [funext same]

/-- A pattern that needs `=` first and does not reach over a section. -/
structure HeaderPattern (matches? : Text → Bool) : Prop where
  opens : ∀ char, char ≠ '=' → ∀ rest, matches? (char :: rest) = false
  closed : ∀ text after, Closes after →
    matches? (text ++ '\n' :: after) = matches? text

theorem headerStart?_of_ne {char : Char} (other : char ≠ '=') (rest : Text) :
    headerStart? (char :: rest) = none := by
  have silent : "===".toList.isPrefixOf (char :: rest) = false := by
    have different : ('=' == char) = false := by
      simpa using Ne.symm other
    change ('=' == char && _) = false
    rw [different, Bool.false_and]
  rw [headerStart?, silent]
  rfl

theorem headerPattern_headerStart? :
    HeaderPattern fun rest => (headerStart? rest).isSome where
  opens char other rest := by rw [headerStart?_of_ne other]; rfl
  closed text _ closes := headerStart?_append closes text

def isHeaderLine (line : Text) : Bool :=
  (headerLine? line).isSome

theorem isHeaderLine_of_ne {char : Char} (other : char ≠ '=') (rest : Text) :
    isHeaderLine (char :: rest) = false := by
  rw [isHeaderLine, headerLine?, headerStart?_of_ne other]
  rfl

theorem headerPattern_isHeaderLine :
    HeaderPattern fun rest => isHeaderLine (firstLine rest) where
  opens char other rest := by
    rw [firstLine_cons]
    split
    · rfl
    · exact isHeaderLine_of_ne other _
  closed text after _ := by
    rw [firstLine, takeWhile_append_newline (by decide)]
    rfl

theorem anyLineStart_sectionsText (header : HeaderPattern matches?)
    {entries : List (Text × Text)} (names : SectionNames entries)
    (previous : Option Char) :
    anyLineStart matches? previous (sectionsText entries) =
      entries.any fun entry =>
        anyLineStart matches? (some ' ') (trimNewlines entry.2) := by
  induction entries generalizing previous with
  | nil => rfl
  | cons entry rest ih =>
    have valid := names.valid entry List.mem_cons_self
    have closes := closes_followingText rest
    have space :
        ScanSplit.lastItem previous (entry.1 ++ ": ".toList) =
          some ' ' := by
      rw [ScanSplit.lastItem_append]
      rfl
    have nameSilent (after : Text) :
        anyLineStart (fun rest => matches? (rest ++ after)) previous
          (entry.1 ++ ": ".toList) = false := by
      refine anyLineStart_eq_false fun char isIn rest => ?_
      refine header.opens char ?_ (rest ++ after)
      rintro rfl
      rcases List.mem_append.mp isIn with inName | inColon
      · exact valid.not_mem (by decide) inName
      · revert inColon
        decide
    have following (previous : Option Char) :
        anyLineStart matches? previous (followingText rest) =
          rest.any fun entry =>
            anyLineStart matches? (some ' ') (trimNewlines entry.2) := by
      cases rest with
      | nil => rfl
      | cons next rest =>
        have silent (after : Text) :
            anyLineStart (fun rest => matches? (rest ++ after))
              previous legacySep = false := by
          refine anyLineStart_eq_false fun char isIn rest => ?_
          refine header.opens char ?_ (rest ++ after)
          rintro rfl
          revert isIn
          decide
        rw [followingText, anyLineStart_append, silent, Bool.false_or,
          anyLineStart, header.opens '\n' (by decide), Bool.and_false,
          Bool.false_or]
        exact ih names.rest (some '\n')
    rw [sectionsText_cons, sectionChunk, List.append_assoc,
      anyLineStart_append, nameSilent, Bool.false_or, space,
      anyLineStart_append, anyLineStart, header.opens '\n' (by decide),
      Bool.and_false, Bool.false_or, following, List.any_cons]
    rw [anyLineStart_congr fun text => header.closed text _ closes]

theorem takeWhile_dropWhile_append {passes : Char → Bool}
    (left : text.dropWhile passes ≠ []) (more : Text) :
    (text ++ more).takeWhile passes = text.takeWhile passes ∧
      (text ++ more).dropWhile passes = text.dropWhile passes ++ more := by
  induction text with
  | nil => exact absurd rfl left
  | cons char rest ih =>
    rw [List.dropWhile_cons] at left
    rw [List.cons_append, List.takeWhile_cons, List.takeWhile_cons,
      List.dropWhile_cons, List.dropWhile_cons]
    cases passed : passes char with
    | false => exact ⟨rfl, rfl⟩
    | true =>
      rw [passed, if_pos rfl] at left
      have later := ih left
      rw [if_pos rfl, if_pos rfl, if_pos rfl, if_pos rfl, later.1]
      exact ⟨rfl, later.2⟩

theorem headerStart?_append_of_some {line name rest : Text}
    (found : headerStart? line = some (name, rest)) (more : Text) :
    headerStart? (line ++ more) = some (name, rest ++ more) := by
  unfold headerStart? at found ⊢
  split at found
  swap
  · contradiction
  next bars =>
    obtain ⟨named, rfl⟩ := List.isPrefixOf_iff_prefix.mp bars
    have dropped (tail : Text) :
        ("===".toList ++ tail).drop 3 = tail := rfl
    dsimp only at found
    rw [dropped] at found
    split at found
    swap
    · contradiction
    next closed =>
      obtain ⟨rfl, rfl⟩ := Prod.mk.inj (Option.some.inj found)
      rw [Bool.and_eq_true] at closed
      obtain ⟨upper, closing⟩ := closed
      obtain ⟨tail, closingTail⟩ := List.isPrefixOf_iff_prefix.mp closing
      have restNonempty :
          trimStart ((trimStart named).dropWhile isHeaderChar) ≠ [] := by
        rw [← closingTail]
        exact List.cons_ne_nil _ _
      have afterName : (trimStart named).dropWhile isHeaderChar ≠ [] := by
        intro empty
        rw [empty] at restNonempty
        exact restNonempty rfl
      have nameNonempty : trimStart named ≠ [] := by
        intro empty
        rw [empty] at afterName
        exact afterName rfl
      have longer : (trimStart (named ++ more)) = trimStart named ++ more :=
        (takeWhile_dropWhile_append nameNonempty more).2
      have nameSame := takeWhile_dropWhile_append afterName more
      have closingLonger :
          trimStart ((trimStart named).dropWhile isHeaderChar ++ more) =
            trimStart ((trimStart named).dropWhile isHeaderChar) ++ more :=
        (takeWhile_dropWhile_append restNonempty more).2
      have barsLonger :
          "===".toList.isPrefixOf
            (("===".toList ++ named) ++ more) = true := by
        rw [List.append_assoc]
        exact List.isPrefixOf_iff_prefix.mpr (List.prefix_append _ _)
      have closingPrefix :
          "===".toList.isPrefixOf
            (trimStart ((trimStart named).dropWhile isHeaderChar) ++
              more) = true := by
        rw [← closingTail, List.append_assoc]
        exact List.isPrefixOf_iff_prefix.mpr (List.prefix_append _ _)
      rw [if_pos barsLonger, List.append_assoc, dropped, longer]
      dsimp only
      rw [nameSame.1, nameSame.2, closingLonger, upper, closingPrefix,
        Bool.and_self, if_pos rfl, ← closingTail, List.append_assoc,
        dropped, dropped]

theorem isHeaderLine_append_space
    {line trail : Text} (header : isHeaderLine line = true)
    (space : trail.all isSpace = true) :
    isHeaderLine (line ++ trail) = true := by
  unfold isHeaderLine headerLine? at header ⊢
  cases found : headerStart? line with
  | none =>
    rw [found] at header
    contradiction
  | some entry =>
    rw [found] at header
    rw [headerStart?_append_of_some found]
    dsimp only at header ⊢
    split at header
    · next blank =>
        rw [List.all_append, blank, space]
        rfl
    · contradiction

theorem firstLine_append_space
    (text : Text) {trail : Text} (space : trail.all isSpace = true) :
    ∃ more : Text,
      firstLine (text ++ trail) = firstLine text ++ more ∧
        more.all isSpace = true := by
  induction text with
  | nil =>
    refine ⟨firstLine trail, rfl, List.all_eq_true.mpr ?_⟩
    intro char isIn
    exact List.all_eq_true.mp space char
      ((List.takeWhile_prefix _).subset isIn)
  | cons char text ih =>
    obtain ⟨more, lines, blank⟩ := ih
    rw [List.cons_append, firstLine_cons, firstLine_cons, lines]
    by_cases newline : char = '\n'
    · rw [if_pos newline, if_pos newline]
      exact ⟨[], rfl, rfl⟩
    · rw [if_neg newline, if_neg newline]
      exact ⟨more, rfl, blank⟩

def hasHeaderLine (previous : Option Char) (text : Text) : Bool :=
  anyLineStart (fun rest => isHeaderLine (firstLine rest)) previous text

theorem hasHeaderLine_none (text : Text) :
    hasHeaderLine none text = (text.splitOn '\n').any isHeaderLine := by
  rw [hasHeaderLine, anyLineStart_firstLine rfl]
  rfl

theorem hasHeaderLine_of_space_around
    {lead trail : Text} (after : trail.all isSpace = true)
    (header : hasHeaderLine (some ' ') text = true) :
    hasHeaderLine none (lead ++ (text ++ trail)) = true := by
  obtain ⟨front, back, rfl, nonempty, starts, found⟩ :=
    anyLineStart_iff.mp header
  refine anyLineStart_iff.mpr
    ⟨lead ++ front, back ++ trail, by simp only [List.append_assoc],
      by simp [nonempty], ?_, ?_⟩
  · rw [ScanSplit.lastItem_append]
    cases front with
    | nil => exact absurd starts (by decide)
    | cons char front =>
      rw [ScanSplit.lastItem_cons] at starts ⊢
      exact starts
  · obtain ⟨more, lines, blank⟩ := firstLine_append_space back after
    rw [lines]
    exact isHeaderLine_append_space found blank

theorem hasHeaderLine_of_space_before
    {lead : Text} (before : lead.all isSpace = true)
    (header : hasHeaderLine (some ' ') (lead ++ text) = true) :
    hasHeaderLine none text = true := by
  unfold hasHeaderLine at header ⊢
  rw [anyLineStart_append, anyLineStart_eq_false, Bool.false_or] at header
  · cases text with
    | nil => exact header
    | cons char rest =>
      rw [anyLineStart, Bool.or_eq_true, Bool.and_eq_true] at header ⊢
      exact header.imp_left fun both => ⟨rfl, both.2⟩
  · intro char isIn rest
    refine headerPattern_isHeaderLine.opens char ?_ (rest ++ text)
    rintro rfl
    exact absurd (List.all_eq_true.mp before '=' isIn) (by decide)

theorem newline_not_mem_of_mem_splitOn
    {line : Text} (isIn : line ∈ text.splitOn '\n') :
    '\n' ∉ line := by
  induction text generalizing line with
  | nil =>
    rw [List.splitOn_nil, List.mem_singleton] at isIn
    rw [isIn]
    exact List.not_mem_nil
  | cons char text ih =>
    obtain ⟨rest, lines⟩ := exists_splitOn text
    rw [List.splitOn_cons_eq_if_modifyHead, lines] at isIn
    rw [lines] at ih
    by_cases newline : char = '\n'
    · rw [if_pos (by simpa using newline)] at isIn
      rcases List.mem_cons.mp isIn with rfl | later
      · exact List.not_mem_nil
      · exact ih later
    · rw [if_neg (by simpa using newline), List.modifyHead_cons] at isIn
      rcases List.mem_cons.mp isIn with rfl | later
      · rw [List.mem_cons, not_or]
        exact ⟨Ne.symm newline, ih List.mem_cons_self⟩
      · exact ih (List.mem_cons_of_mem _ later)

def HeaderFree (sections : Sections) : Prop :=
  ∀ name lines, sections.lookup name = some lines →
    ∀ line ∈ lines, isHeaderLine line = false ∧ '\n' ∉ line

theorem HeaderFree.store {sections : Sections} (free : HeaderFree sections)
    (name : Text) {lines : List Text}
    (plain : ∀ line ∈ lines, isHeaderLine line = false ∧ '\n' ∉ line) :
    HeaderFree (Entries.store sections name lines) := by
  intro other stored found
  by_cases same : name = other
  · subst same
    rw [Entries.lookup_store_self] at found
    obtain rfl := Option.some.inj found
    exact plain
  · rw [Entries.lookup_store_of_ne _ same] at found
    exact free other stored found

theorem headerFree_readModernLine
    {found : Option Text × Sections} {line : Text}
    (free : HeaderFree found.2) (whole : '\n' ∉ line) :
    HeaderFree (readModernLine found line).2 := by
  unfold readModernLine
  cases header : headerLine? line with
  | some name => exact free.store name (by simp)
  | none =>
    cases current : found.1 with
    | none => exact free
    | some name =>
      refine free.store name fun other isIn => ?_
      rcases List.mem_append.mp isIn with before | added
      · cases lines : found.2.lookup name with
        | none =>
          rw [lines] at before
          exact absurd before List.not_mem_nil
        | some known =>
          rw [lines] at before
          exact free name known lines other before
      · rw [List.mem_singleton] at added
        subst added
        exact ⟨by rw [isHeaderLine, header]; rfl, whole⟩

theorem headerFree_parseModernSections (text : Text) :
    HeaderFree (parseModernSections text) := by
  have whole : ∀ line ∈ splitLines text, '\n' ∉ line := by
    intro line isIn
    unfold splitLines at isIn
    split at isIn
    · exact absurd isIn List.not_mem_nil
    · exact newline_not_mem_of_mem_splitOn isIn
  have fold (lines : List Text) (found : Option Text × Sections)
      (plain : ∀ line ∈ lines, '\n' ∉ line)
      (free : HeaderFree found.2) :
      HeaderFree (lines.foldl readModernLine found).2 := by
    induction lines generalizing found with
    | nil => exact free
    | cons line rest ih =>
      exact ih _
        (fun other isIn => plain other (List.mem_cons_of_mem _ isIn))
        (headerFree_readModernLine free (plain line List.mem_cons_self))
  refine fold _ _ whole ?_
  rintro name lines ⟨⟩

theorem exists_header_of_parseModernSections
    (some' : (parseModernSections text).isEmpty = false) :
    hasHeaderLine none text = true := by
  have fold (lines : List Text)
      (plain : ∀ line ∈ lines, isHeaderLine line = false) :
      lines.foldl readModernLine (none, []) = (none, []) := by
    induction lines with
    | nil => rfl
    | cons line rest ih =>
      have ignored : readModernLine (none, []) line = (none, []) := by
        have notHeader := plain line List.mem_cons_self
        unfold isHeaderLine at notHeader
        rw [Option.isSome_eq_false_iff, Option.isNone_iff_eq_none]
          at notHeader
        rw [readModernLine, notHeader]
      rw [List.foldl_cons, ignored]
      exact ih
        fun other isIn => plain other (List.mem_cons_of_mem _ isIn)
  by_contra noHeader
  rw [Bool.not_eq_true, hasHeaderLine_none] at noHeader
  have plain : ∀ line ∈ splitLines text, isHeaderLine line = false := by
    intro line isIn
    unfold splitLines at isIn
    split at isIn
    · exact absurd isIn List.not_mem_nil
    · simpa using List.any_eq_false.mp noHeader line isIn
  rw [parseModernSections, fold _ plain] at some'
  contradiction

theorem hasHeaderLine_sectionText
    {sections : Sections} (free : HeaderFree sections) (name : Text) :
    hasHeaderLine none (sectionText sections name) = false := by
  unfold sectionText
  cases found : sections.lookup name with
  | none => rfl
  | some lines =>
    have plain := free name lines found
    cases lines with
    | nil => rfl
    | cons line rest =>
      have split :
          (joinLines (line :: rest)).splitOn '\n' = line :: rest :=
        List.splitOn_intercalate '\n'
          (fun other isIn => (plain other isIn).2)
          (List.cons_ne_nil _ _)
      rw [hasHeaderLine_none, Option.getD_some, split]
      exact List.any_eq_false.mpr fun other isIn =>
        Bool.not_eq_true _ ▸ (plain other isIn).1

end DeveloperDashboard.Page
