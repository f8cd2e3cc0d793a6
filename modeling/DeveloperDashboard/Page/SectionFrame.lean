import DeveloperDashboard.Page.PageDocument

namespace DeveloperDashboard.Page

open Library Perl

/-!
# What frames a section

The writer puts the texts of a page between separators as they are.  A text is
framed when the reader takes something within it for a separator, or for a
header of the modern syntax.
-/

/-- Whether the reader finds a separator in the text of a section. -/
def holdsSeparator (text : Text) : Bool :=
  text.tails.any (fun rest => legacySep.isPrefixOf rest) ||
    anyLineStart (fun rest => (markdownSepLength rest).isSome) (some ' ')
      text

/-- Whether the reader finds a header in the text of a section. -/
def holdsHeader (text : Text) : Bool :=
  anyLineStart (fun rest => (headerStart? rest).isSome) (some ' ') text

def isFramed (text : Text) : Bool :=
  holdsSeparator text || holdsHeader text

variable {previous : Option Char} {text : Text}

/-- Where `^` of `/m` and a pattern match. -/
theorem anyLineStart_iff {matches? : Text → Bool} :
    anyLineStart matches? previous text = true ↔
      ∃ front back,
        text = front ++ back ∧ back ≠ [] ∧
          startsLine (ScanSplit.lastItem previous front) = true ∧
            matches? back = true := by
  induction text generalizing previous with
  | nil =>
    refine ⟨fun found => absurd found Bool.false_ne_true, ?_⟩
    rintro ⟨front, back, whole, nonempty, -⟩
    exact absurd (List.append_eq_nil_iff.mp whole.symm).2 nonempty
  | cons char rest ih =>
    rw [anyLineStart, Bool.or_eq_true, Bool.and_eq_true, ih]
    constructor
    · rintro (⟨starts, found⟩ | ⟨front, back, rfl, nonempty, starts, found⟩)
      · exact ⟨[], char :: rest, rfl, List.cons_ne_nil _ _,
          by simpa [ScanSplit.lastItem] using starts, found⟩
      · refine ⟨char :: front, back, rfl, nonempty, ?_, found⟩
        rwa [ScanSplit.lastItem_cons]
    · rintro ⟨front, back, whole, nonempty, starts, found⟩
      cases front with
      | nil =>
        rw [List.nil_append] at whole
        subst whole
        exact .inl ⟨by simpa [ScanSplit.lastItem] using starts, found⟩
      | cons first front =>
        obtain ⟨rfl, rfl⟩ := List.cons.inj whole
        rw [ScanSplit.lastItem_cons] at starts
        exact .inr ⟨front, back, rfl, nonempty, starts, found⟩

theorem isPrefixOf_append_of_not_mem
    {start : Text} {item : Char} (absent : item ∉ start)
    (text after : Text) :
    start.isPrefixOf (text ++ item :: after) = start.isPrefixOf text := by
  induction start generalizing text with
  | nil => rfl
  | cons first start ih =>
    rw [List.mem_cons, not_or] at absent
    cases text with
    | nil =>
      have different : (first == item) = false := by
        simpa using fun same => absent.1 (Eq.symm same)
      simp [List.isPrefixOf, different]
    | cons char rest =>
      simp only [List.cons_append, List.isPrefixOf, ih absent.2]

/-- What the writer puts after the newline of a section. -/
def Closes (after : Text) : Prop :=
  after = [] ∨ ∃ rest, after = ':' :: rest

variable {after : Text}

theorem Closes.isPrefixOf (closes : Closes after)
    {first : Char} (other : first ≠ ':') (rest : Text) :
    (first :: rest).isPrefixOf after = false := by
  rcases closes with rfl | ⟨tail, rfl⟩
  · rfl
  · simp [List.isPrefixOf, other]

theorem Closes.trimStart (closes : Closes after) (text : Text) :
    trimStart (text ++ '\n' :: after) =
      if text.all isSpace then after
      else Perl.trimStart text ++ '\n' :: after := by
  rcases space_cases text with
    space | ⟨lead, char, rest, rfl, space, shown⟩
  · rw [if_pos space, trimStart_append_of_space space]
    rcases closes with rfl | ⟨tail, rfl⟩ <;> rfl
  · have notSpace : ¬ (lead ++ char :: rest).all isSpace = true := by
      simp [shown]
    rw [if_neg notSpace, List.append_assoc, List.cons_append,
      trimStart_append_of_space space, trimStart_append_of_space space,
      trimStart_cons_of_visible shown, trimStart_cons_of_visible shown]
    rfl

theorem Closes.takeWhile (closes : Closes after) (text : Text) :
    (text ++ '\n' :: after).takeWhile isSpace =
      if text.all isSpace then text ++ ['\n']
      else text.takeWhile isSpace := by
  rw [List.takeWhile_append]
  have whole :
      (text.takeWhile isSpace).length = text.length ↔
        text.all isSpace = true := by
    rw [List.all_eq_true]
    constructor
    · intro same
      have self := (List.takeWhile_prefix isSpace).eq_of_length same
      exact List.takeWhile_eq_self_iff.mp self
    · intro space
      rw [List.takeWhile_eq_self_iff.mpr space]
  have newline : ('\n' :: after).takeWhile isSpace = ['\n'] := by
    rcases closes with rfl | ⟨tail, rfl⟩ <;> rfl
  simp only [whole, newline]

theorem takeWhile_append_newline
    {passes : Char → Bool} (stops : passes '\n' = false)
    (text after : Text) :
    (text ++ '\n' :: after).takeWhile passes = text.takeWhile passes := by
  induction text with
  | nil => simp [stops]
  | cons char rest ih =>
    rw [List.cons_append, List.takeWhile_cons, List.takeWhile_cons, ih]

theorem dropWhile_append_newline
    {passes : Char → Bool} (stops : passes '\n' = false)
    (text after : Text) :
    (text ++ '\n' :: after).dropWhile passes =
      text.dropWhile passes ++ '\n' :: after := by
  induction text with
  | nil => simp [stops]
  | cons char rest ih =>
    rw [List.cons_append, List.dropWhile_cons, List.dropWhile_cons, ih]
    split <;> rfl

/-- A separator line does not depend on what closes the section. -/
theorem markdownSepLength_append (closes : Closes after) (text : Text) :
    (markdownSepLength (text ++ '\n' :: after)).isSome =
      (markdownSepLength text).isSome := by
  unfold markdownSepLength
  dsimp only
  have rest := closes.trimStart text
  unfold trimStart at rest
  rw [rest]
  by_cases space : text.all isSpace = true
  · have empty : text.dropWhile isSpace = [] := trimStart_of_space space
    rw [if_pos space, empty]
    have silent : "---".toList.isPrefixOf after = false :=
      closes.isPrefixOf (by decide) _
    rw [if_neg (by rw [silent]; exact Bool.false_ne_true),
      if_neg (by decide)]
  · rw [if_neg space]
    generalize text.dropWhile isSpace = tail
    rw [isPrefixOf_append_of_not_mem (by decide)]
    by_cases dashes : "---".toList.isPrefixOf tail = true
    · rw [if_pos dashes, if_pos dashes]
      obtain ⟨line, rfl⟩ := List.isPrefixOf_iff_prefix.mp dashes
      have dropped (tail : Text) :
          ("---".toList ++ tail).drop 3 = tail := rfl
      rw [List.append_assoc, dropped, dropped, closes.takeWhile line]
      by_cases blank : line.all isSpace = true
      · rw [if_pos blank, if_pos blank]
        split
        · rfl
        · rw [if_pos (by simp)]
          rfl
      · have more : ¬ (line ++ '\n' :: after).all isSpace = true := by
          rw [List.all_append, Bool.and_eq_true]
          exact fun both => blank both.1
        rw [if_neg blank, if_neg blank, if_neg more]
        split <;> rfl
    · rw [if_neg dashes, if_neg dashes]

theorem headerStart?_append (closes : Closes after) (text : Text) :
    (headerStart? (text ++ '\n' :: after)).isSome =
      (headerStart? text).isSome := by
  unfold headerStart?
  rw [isPrefixOf_append_of_not_mem (by decide)]
  by_cases bars : "===".toList.isPrefixOf text = true
  swap
  · rw [if_neg bars, if_neg bars]
  rw [if_pos bars, if_pos bars]
  obtain ⟨named, rfl⟩ := List.isPrefixOf_iff_prefix.mp bars
  have dropped (tail : Text) : ("===".toList ++ tail).drop 3 = tail := rfl
  dsimp only
  rw [List.append_assoc, dropped, dropped, closes.trimStart named]
  by_cases space : named.all isSpace = true
  · rw [if_pos space, trimStart_of_space space]
    have nameless : (after.takeWhile isHeaderChar).head? = none := by
      rcases closes with rfl | ⟨tail, rfl⟩ <;> rfl
    rw [nameless]
    rfl
  · rw [if_neg space]
    generalize trimStart named = name
    have newline : isHeaderChar '\n' = false := by decide
    rw [takeWhile_append_newline newline, dropWhile_append_newline newline,
      closes.trimStart]
    by_cases blank : (name.dropWhile isHeaderChar).all isSpace = true
    · have silent : "===".toList.isPrefixOf after = false :=
        closes.isPrefixOf (by decide) _
      have ended : "===".toList.isPrefixOf [] = false := rfl
      rw [if_pos blank, trimStart_of_space blank, silent, ended,
        Bool.and_false, if_neg Bool.false_ne_true,
        if_neg Bool.false_ne_true]
    · rw [if_neg blank, isPrefixOf_append_of_not_mem (by decide)]
      split <;> rfl

theorem newline_not_mem_legacySep : '\n' ∉ legacySep := by
  decide

theorem sectionSeparator_eq_none_iff :
    sectionSeparator previous text = none ↔
      legacySep.isPrefixOf text = false ∧
        (startsLine previous = true →
          (markdownSepLength text).isSome = false) := by
  unfold sectionSeparator legacySepLength
  by_cases starts : legacySep.isPrefixOf text = true
  · rw [if_pos starts, starts]
    simp
  · rw [if_neg starts]
    rw [Bool.not_eq_true] at starts
    simp [starts]

theorem any_tails_iff :
    text.tails.any (fun rest => legacySep.isPrefixOf rest) = true ↔
      ∃ front back,
        text = front ++ back ∧ legacySep.isPrefixOf back = true := by
  rw [List.any_eq_true]
  constructor
  · rintro ⟨back, isTail, starts⟩
    obtain ⟨front, rfl⟩ := (List.mem_tails _ _).mp isTail
    exact ⟨front, back, rfl, starts⟩
  · rintro ⟨front, back, rfl, starts⟩
    exact ⟨back, (List.mem_tails _ _).mpr (List.suffix_append _ _), starts⟩

/--
The scan finds no separator in the text of a section exactly when the text
holds none.
-/
theorem quiet_iff_holdsSeparator (closes : Closes after) :
    ScanSplit.Quiet sectionSeparator (some ' ') text ('\n' :: after) ↔
      holdsSeparator text = false := by
  rw [ScanSplit.quiet_iff, ← Bool.not_eq_true, holdsSeparator,
    Bool.or_eq_true, any_tails_iff, anyLineStart_iff, not_or]
  constructor
  · intro quiet
    refine ⟨?_, ?_⟩
    · rintro ⟨front, back, rfl, starts⟩
      have nonempty : back ≠ [] := by
        rintro rfl
        exact absurd starts (by decide)
      have silent :=
        (sectionSeparator_eq_none_iff.mp (quiet front back rfl nonempty)).1
      rw [isPrefixOf_append_of_not_mem newline_not_mem_legacySep,
        starts] at silent
      exact absurd silent (by decide)
    · rintro ⟨front, back, rfl, nonempty, starts, found⟩
      have silent :=
        (sectionSeparator_eq_none_iff.mp
          (quiet front back rfl nonempty)).2 starts
      rw [markdownSepLength_append closes, found] at silent
      exact absurd silent (by decide)
  · rintro ⟨noSep, noLine⟩ front back rfl nonempty
    refine sectionSeparator_eq_none_iff.mpr ⟨?_, fun starts => ?_⟩
    · rw [isPrefixOf_append_of_not_mem newline_not_mem_legacySep,
        ← Bool.not_eq_true]
      exact fun found => noSep ⟨front, back, rfl, found⟩
    · rw [markdownSepLength_append closes, ← Bool.not_eq_true]
      exact fun found => noLine ⟨front, back, rfl, nonempty, starts, found⟩

theorem Closes.length_takeWhile_le (closes : Closes after) (line : Text) :
    ((line ++ '\n' :: after).takeWhile isSpace).length ≤
      line.length + 1 := by
  rw [closes.takeWhile line]
  split
  · rw [List.length_append]
    exact Nat.le_refl _
  · exact (List.takeWhile_prefix _).length_le.trans (Nat.le_succ _)

/-- What a separator line of dashes takes of a text and its newline. -/
theorem markdownSepLength_append_eq_some
    {length : Nat} (closes : Closes after)
    (starts : markdownSepLength (text ++ '\n' :: after) = some length) :
    ∃ lead line,
      text = lead ++ ("---".toList ++ line) ∧
        ∃ extra, length = lead.length + 3 + extra ∧
          extra ≤ line.length + 1 := by
  unfold markdownSepLength at starts
  dsimp only at starts
  have rest := closes.trimStart text
  unfold trimStart at rest
  rw [rest, closes.takeWhile text] at starts
  by_cases space : text.all isSpace = true
  · have silent : "---".toList.isPrefixOf after = false :=
      closes.isPrefixOf (by decide) _
    rw [if_pos space, if_pos space, silent] at starts
    contradiction
  rw [if_neg space, if_neg space,
    isPrefixOf_append_of_not_mem (by decide)] at starts
  have whole : text.takeWhile isSpace ++ text.dropWhile isSpace = text :=
    List.takeWhile_append_dropWhile
  generalize text.takeWhile isSpace = lead at starts whole
  generalize text.dropWhile isSpace = tail at starts whole
  split at starts
  swap
  · contradiction
  next dashes =>
    obtain ⟨line, rfl⟩ := List.isPrefixOf_iff_prefix.mp dashes
    have dropped : (("---".toList ++ line) ++ '\n' :: after).drop 3 =
        line ++ '\n' :: after := rfl
    rw [dropped] at starts
    have short := closes.length_takeWhile_le line
    refine ⟨lead, line, whole.symm, ?_⟩
    split at starts
    · exact ⟨_, (Option.some.inj starts).symm, short⟩
    · split at starts
      · refine ⟨_, (Option.some.inj starts).symm, ?_⟩
        have less :=
          (List.rdropWhile_prefix (p := fun char => decide (char ≠ '\n'))
            ((line ++ '\n' :: after).takeWhile isSpace)).length_le
        omega
      · contradiction

/-- A separator that starts within a text ends there, or with its newline. -/
theorem sectionSeparator_bounded {length : Nat}
    (closes : Closes after) (nonempty : text ≠ [])
    (starts :
      sectionSeparator previous (text ++ '\n' :: after) = some length) :
    length ≤ text.length + 1 ∧
      0 < (text.take length).countP fun char => !isSpace char := by
  unfold sectionSeparator at starts
  cases sep : legacySepLength (text ++ '\n' :: after) with
  | some found =>
    rw [sep] at starts
    obtain rfl := Option.some.inj starts
    unfold legacySepLength at sep
    split at sep
    · next isSep =>
        rw [isPrefixOf_append_of_not_mem newline_not_mem_legacySep]
          at isSep
        obtain ⟨line, rfl⟩ := List.isPrefixOf_iff_prefix.mp isSep
        rw [List.append_assoc, List.drop_left] at sep
        obtain rfl := Option.some.inj sep
        refine ⟨?_, ?_⟩
        · rw [List.length_append, Nat.add_assoc]
          exact Nat.add_le_add_left (closes.length_takeWhile_le line) _
        · rw [List.take_length_add_append, List.countP_append]
          exact Nat.add_pos_left (by decide) _
    · contradiction
  | none =>
    rw [sep] at starts
    dsimp only at starts
    split at starts
    swap
    · contradiction
    obtain ⟨lead, line, rfl, extra, rfl, short⟩ :=
      markdownSepLength_append_eq_some closes starts
    refine ⟨?_, ?_⟩
    · simp only [List.length_append]
      have three : "---".toList.length = 3 := rfl
      omega
    · have three : 3 = "---".toList.length := rfl
      rw [Nat.add_assoc, List.take_length_add_append, three,
        List.take_length_add_append, List.countP_append,
        List.countP_append]
      exact Nat.add_pos_right _ (Nat.add_pos_left (by decide) _)

end DeveloperDashboard.Page
