import DeveloperDashboard.Perl.Text

namespace DeveloperDashboard.Perl

/-!
# Trimmed texts

Trimming drops space alone, so it keeps the characters that are not space; the
two ends of a text can be trimmed in any order.
-/

/-- How many characters of a text are not space. -/
def visible (text : Text) : Nat :=
  text.countP fun char => !isSpace char

@[simp] theorem visible_append (front back : Text) :
    visible (front ++ back) = visible front + visible back :=
  List.countP_append

variable {text : Text}

theorem visible_le {part : Text} (sub : part.Sublist text) :
    visible part ≤ visible text :=
  List.Sublist.countP_le sub

variable {drops : Char → Bool}

theorem visible_dropWhile (space : ∀ char, drops char → isSpace char)
    (text : Text) :
    visible (text.dropWhile drops) = visible text := by
  induction text with
  | nil => rfl
  | cons char rest ih =>
    rw [List.dropWhile_cons]
    split
    · next dropped =>
        rw [ih]
        simp [visible, space char dropped]
    · rfl

theorem visible_rdropWhile (space : ∀ char, drops char → isSpace char)
    (text : Text) :
    visible (text.rdropWhile drops) = visible text := by
  have reversed := visible_dropWhile space text.reverse
  unfold visible at reversed ⊢
  rwa [List.countP_reverse, ← List.countP_reverse] at reversed

theorem isSpace_of_newline (char : Char) (newline : decide (char = '\n')) :
    isSpace char = true := by
  obtain rfl := of_decide_eq_true newline
  rfl

@[simp] theorem visible_trimStart (text : Text) :
    visible (trimStart text) = visible text :=
  visible_dropWhile (fun _ space => space) text

@[simp] theorem visible_trimEnd (text : Text) :
    visible (trimEnd text) = visible text :=
  visible_rdropWhile (fun _ space => space) text

@[simp] theorem visible_trim (text : Text) :
    visible (trim text) = visible text := by
  rw [trim, visible_trimEnd, visible_trimStart]

@[simp] theorem visible_trimNewlines (text : Text) :
    visible (trimNewlines text) = visible text := by
  rw [trimNewlines, visible_rdropWhile isSpace_of_newline,
    visible_dropWhile isSpace_of_newline]

theorem space_cases (text : Text) :
    text.all isSpace = true ∨
      ∃ lead char rest,
        text = lead ++ char :: rest ∧
          lead.all isSpace = true ∧ isSpace char = false := by
  induction text with
  | nil => exact .inl rfl
  | cons char rest ih =>
    cases space : isSpace char with
    | false => exact .inr ⟨[], char, rest, rfl, rfl, space⟩
    | true =>
      rcases ih with
        blank | ⟨lead, first, tail, rfl, blank, shown⟩
      · exact .inl (by rw [List.all_cons, space, blank]; rfl)
      · exact .inr ⟨char :: lead, first, tail, rfl,
          by rw [List.all_cons, space, blank]; rfl, shown⟩

theorem trimStart_of_space (space : text.all isSpace = true) :
    trimStart text = [] := by
  refine List.dropWhile_eq_nil_iff.mpr fun char isIn => ?_
  exact List.all_eq_true.mp space char isIn

theorem trimStart_append_of_space
    {lead : Text} (space : lead.all isSpace = true) (text : Text) :
    trimStart (lead ++ text) = trimStart text := by
  unfold trimStart
  rw [List.dropWhile_append_of_pos]
  exact fun char isIn => List.all_eq_true.mp space char isIn

theorem trimStart_cons_of_visible
    {char : Char} (shown : isSpace char = false) (rest : Text) :
    trimStart (char :: rest) = char :: rest := by
  unfold trimStart
  rw [List.dropWhile_cons_of_neg]
  rw [shown]
  exact Bool.false_ne_true

theorem trimEnd_append_of_space
    (text : Text) {trail : Text} (space : trail.all isSpace = true) :
    trimEnd (text ++ trail) = trimEnd text := by
  unfold trimEnd List.rdropWhile
  rw [List.reverse_append, List.dropWhile_append_of_pos]
  intro char isIn
  exact List.all_eq_true.mp space char (List.mem_reverse.mp isIn)

theorem trimEnd_append_cons
    (front : Text) {char : Char} (shown : isSpace char = false)
    (back : Text) :
    trimEnd (front ++ char :: back) = front ++ char :: trimEnd back := by
  unfold trimEnd List.rdropWhile
  have reversed :
      (front ++ char :: back).reverse =
        back.reverse ++ char :: front.reverse := by simp
  rw [reversed, List.dropWhile_append]
  split
  · next empty =>
      rw [List.isEmpty_iff] at empty
      rw [empty, List.dropWhile_cons_of_neg (by simp [shown])]
      simp
  · simp

theorem trimStart_trimEnd (text : Text) :
    trimStart (trimEnd text) = trim text := by
  unfold trim
  rcases space_cases text with
    space | ⟨lead, char, rest, rfl, space, shown⟩
  · rw [trimStart_of_space space, ← List.nil_append text,
      trimEnd_append_of_space _ space]
    rfl
  · rw [trimEnd_append_cons lead shown, trimStart_append_of_space space,
      trimStart_append_of_space space, trimStart_cons_of_visible shown,
      trimStart_cons_of_visible shown]
    exact (trimEnd_append_cons [] shown rest).symm

theorem trim_of_space_around {lead trail : Text} (text : Text)
    (before : lead.all isSpace = true) (after : trail.all isSpace = true) :
    trim (lead ++ (text ++ trail)) = trim text := by
  rw [trim, trimStart_append_of_space before]
  change trim (text ++ trail) = trim text
  rw [← trimStart_trimEnd, trimEnd_append_of_space _ after,
    trimStart_trimEnd]

theorem exists_trim (text : Text) :
    ∃ lead trail,
      text = lead ++ (trim text ++ trail) ∧
        lead.all isSpace = true ∧ trail.all isSpace = true := by
  refine ⟨text.takeWhile isSpace, (trimStart text).rtakeWhile isSpace,
    ?_, List.all_takeWhile, ?_⟩
  · unfold trim trimEnd
    rw [List.rdropWhile_append_rtakeWhile]
    exact (List.takeWhile_append_dropWhile).symm
  · unfold List.rtakeWhile
    rw [List.all_reverse]
    exact List.all_takeWhile

theorem exists_trimNewlines (text : Text) :
    ∃ lead trail,
      text = lead ++ (trimNewlines text ++ trail) ∧
        lead.all isSpace = true ∧ trail.all isSpace = true := by
  have newlines (part : Text) :
      (part.takeWhile fun char => char = '\n').all isSpace = true := by
    refine List.all_eq_true.mpr fun char isIn => ?_
    have newline : decide (char = '\n') = true := by
      simpa using List.mem_takeWhile_imp isIn
    exact isSpace_of_newline char newline
  refine ⟨text.takeWhile fun char => char = '\n',
    (text.dropWhile fun char => char = '\n').rtakeWhile
      fun char => char = '\n', ?_, newlines text, ?_⟩
  · unfold trimNewlines
    rw [List.rdropWhile_append_rtakeWhile]
    exact (List.takeWhile_append_dropWhile).symm
  · unfold List.rtakeWhile
    rw [List.all_reverse]
    exact newlines _

theorem trim_trimNewlines (text : Text) :
    trim (trimNewlines text) = trim text := by
  obtain ⟨lead, trail, whole, before, after⟩ := exists_trimNewlines text
  have around := trim_of_space_around (trimNewlines text) before after
  rwa [← whole, eq_comm] at around

theorem dropWhile_eq_self_of_imp
    {fewer : Char → Bool} (less : ∀ char, fewer char → drops char)
    (self : text.dropWhile drops = text) :
    text.dropWhile fewer = text := by
  cases text with
  | nil => rfl
  | cons char rest =>
    rw [List.dropWhile_cons] at self ⊢
    split
    · next dropped =>
        rw [if_pos (less char dropped)] at self
        have shorter := (List.dropWhile_suffix (l := rest) drops).length_le
        rw [self, List.length_cons] at shorter
        omega
    · rfl

theorem rdropWhile_eq_self_of_imp
    {fewer : Char → Bool} (less : ∀ char, fewer char → drops char)
    (self : text.rdropWhile drops = text) :
    text.rdropWhile fewer = text := by
  unfold List.rdropWhile at self ⊢
  rw [List.reverse_eq_iff] at self ⊢
  exact dropWhile_eq_self_of_imp less self

theorem trimStart_trimEnd_of_trimmed (trimmed : trim text = text) :
    trimStart text = text ∧ trimEnd text = text := by
  have start : trimStart text = text := by
    refine (List.dropWhile_suffix isSpace).eq_of_length ?_
    have shorter := (List.dropWhile_suffix (l := text) isSpace).length_le
    have least :=
      (List.rdropWhile_prefix isSpace (trimStart text)).length_le
    change (trim text).length ≤ _ at least
    rw [trimmed] at least
    exact Nat.le_antisymm shorter least
  rw [trim, start] at trimmed
  exact ⟨start, trimmed⟩

theorem trimNewlines_of_trimmed (trimmed : trim text = text) :
    trimNewlines text = text := by
  obtain ⟨start, ending⟩ := trimStart_trimEnd_of_trimmed trimmed
  unfold trimNewlines
  rw [dropWhile_eq_self_of_imp isSpace_of_newline start]
  exact rdropWhile_eq_self_of_imp isSpace_of_newline ending

theorem trimTrailingNewlines_of_trimmed (trimmed : trim text = text) :
    trimTrailingNewlines text = text :=
  rdropWhile_eq_self_of_imp isSpace_of_newline
    (trimStart_trimEnd_of_trimmed trimmed).2

@[simp] theorem trim_trim (text : Text) : trim (trim text) = trim text := by
  obtain ⟨lead, trail, whole, before, after⟩ := exists_trim text
  have around := trim_of_space_around (trim text) before after
  rwa [← whole, eq_comm] at around

theorem exists_trimTrailingNewlines (text : Text) :
    ∃ trail,
      text = trimTrailingNewlines text ++ trail ∧
        trail.all isSpace = true := by
  refine ⟨text.rtakeWhile fun char => char = '\n', ?_, ?_⟩
  · exact List.rdropWhile_append_rtakeWhile.symm
  · refine List.all_eq_true.mpr fun char isIn => ?_
    exact isSpace_of_newline char (by simpa using List.mem_rtakeWhile_imp isIn)

theorem eq_nil_of_trimEnd
    {text trail : Text} (space : trail.all isSpace = true)
    (ending : trimEnd (text ++ trail) = text ++ trail) :
    trail = [] := by
  rw [trimEnd_append_of_space text space] at ending
  have shorter := (List.rdropWhile_prefix isSpace text).length_le
  change (trimEnd text).length ≤ _ at shorter
  rw [ending, List.length_append] at shorter
  exact List.eq_nil_of_length_eq_zero (by omega)

theorem exists_trimNewlines_of_trimEnd (ending : trimEnd text = text) :
    ∃ lead : Text,
      lead.all isSpace = true ∧ trimNewlines text = lead ++ trim text := by
  obtain ⟨newlines, others, whole, -, afterText⟩ := exists_trimNewlines text
  obtain ⟨lead, trail, inner, before, after⟩ :=
    exists_trim (trimNewlines text)
  rw [trim_trimNewlines] at inner
  refine ⟨lead, before, ?_⟩
  have none' : trail ++ others = [] := by
    refine @eq_nil_of_trimEnd (newlines ++ (lead ++ trim text)) _ ?_ ?_
    · rw [List.all_append, after, afterText]
      rfl
    · have parts :
          newlines ++ (lead ++ trim text) ++ (trail ++ others) = text := by
        conv_rhs => rw [whole, inner]
        simp only [List.append_assoc]
      rw [parts, ending]
  rw [inner, (List.append_eq_nil_iff.mp none').1, List.append_nil]

/-!
# Words

`split /\s+/` of a text, and the texts that are some words with space between
them.
-/

/--
`split /\s+/, $text`: space at the start is a field that is empty, and fields
that are empty are dropped at the end.
-/
def splitSpaces (text : Text) : List Text :=
  match text.splitOnP isSpace with
  | [] => []
  | first :: rest =>
    let later := rest.filter (· ≠ [])
    if first = [] ∧ later = [] then [] else first :: later

/-- A word: some characters, none of them space. -/
def IsWord (word : Text) : Prop :=
  word ≠ [] ∧ ∀ char ∈ word, isSpace char = false

/-- A text is these words with space between them and after the last one. -/
inductive IsSpaced : Text → List Text → Prop where
  | last {word trail : Text} :
      IsWord word →
      trail.all isSpace = true →
      IsSpaced (word ++ trail) [word]
  | more {word gap rest : Text} {words : List Text} :
      IsWord word →
      gap ≠ [] →
      gap.all isSpace = true →
      IsSpaced rest words →
      IsSpaced (word ++ (gap ++ rest)) (word :: words)

def HasWords (text : Text) (words : List Text) : Prop :=
  ∃ lead rest,
    text = lead ++ rest ∧ lead.all isSpace = true ∧ IsSpaced rest words

theorem filter_splitOnP_of_space
    {gap : Text} (space : gap.all isSpace = true) (rest : Text) :
    ((gap ++ rest).splitOnP isSpace).filter (· ≠ []) =
      (rest.splitOnP isSpace).filter (· ≠ []) := by
  induction gap with
  | nil => rfl
  | cons char later ih =>
    rw [List.all_cons, Bool.and_eq_true] at space
    rw [List.cons_append, List.splitOnP_cons_eq_if_modifyHead,
      if_pos space.1]
    exact ih space.2

theorem filter_splitOnP_append
    {gap : Text} (nonempty : gap ≠ []) (space : gap.all isSpace = true)
    (text rest : Text) :
    ((text ++ (gap ++ rest)).splitOnP isSpace).filter (· ≠ []) =
      (text.splitOnP isSpace).filter (· ≠ []) ++
        (rest.splitOnP isSpace).filter (· ≠ []) := by
  cases gap with
  | nil => contradiction
  | cons char others =>
    rw [List.all_cons, Bool.and_eq_true] at space
    rw [List.cons_append, List.splitOnP_append_cons text _ space.1,
      List.filter_append, filter_splitOnP_of_space space.2]

theorem filter_splitOnP_trail
    (text : Text) {trail : Text} (space : trail.all isSpace = true) :
    ((text ++ trail).splitOnP isSpace).filter (· ≠ []) =
      (text.splitOnP isSpace).filter (· ≠ []) := by
  by_cases empty : trail = []
  · rw [empty, List.append_nil]
  · have apart := filter_splitOnP_append empty space text []
    rw [List.append_nil] at apart
    rw [apart, List.splitOnP_nil]
    exact List.append_nil _

theorem filter_splitOnP_of_isWord {word : Text} (isWord : IsWord word) :
    (word.splitOnP isSpace).filter (· ≠ []) = [word] := by
  rw [List.splitOnP_eq_singleton isWord.2]
  exact List.filter_cons_of_pos (decide_eq_true isWord.1)

variable {text : Text} {words : List Text}

theorem filter_splitOnP_of_hasWords (holds : HasWords text words) :
    (text.splitOnP isSpace).filter (· ≠ []) = words := by
  obtain ⟨lead, rest, rfl, leadSpace, spaced⟩ := holds
  rw [filter_splitOnP_of_space leadSpace]
  induction spaced with
  | last isWord space =>
    rw [filter_splitOnP_trail _ space, filter_splitOnP_of_isWord isWord]
  | more isWord nonempty space spaced ih =>
    rw [filter_splitOnP_append nonempty space,
      filter_splitOnP_of_isWord isWord, ih]
    rfl

theorem splitSpaces_of_starts
    (starts : text.head?.all fun char => !isSpace char) :
    splitSpaces text = (text.splitOnP isSpace).filter (· ≠ []) := by
  unfold splitSpaces
  cases text with
  | nil => rfl
  | cons char rest =>
    have shown : isSpace char = false := by
      simpa using starts
    obtain ⟨first, later, parts⟩ :=
      List.exists_cons_of_ne_nil (List.splitOnP_ne_nil isSpace rest)
    rw [List.splitOnP_cons_eq_if_modifyHead, shown, parts,
      if_neg Bool.false_ne_true, List.modifyHead_cons]
    refine (if_neg fun empty => List.cons_ne_nil _ _ empty.1).trans ?_
    rw [List.filter_cons_of_pos]
    exact decide_eq_true (List.cons_ne_nil char first)

theorem splitSpaces_trim (text : Text) :
    splitSpaces (trim text) =
      (text.splitOnP isSpace).filter (· ≠ []) := by
  obtain ⟨lead, trail, whole, before, after⟩ := exists_trim text
  have starts : (trim text).head?.all fun char => !isSpace char := by
    rcases space_cases text with
      space | ⟨front, char, rest, rfl, space, shown⟩
    · rw [trim, trimStart_of_space space]
      rfl
    · rw [trim, trimStart_append_of_space space,
        trimStart_cons_of_visible shown]
      have kept := trimEnd_append_cons [] shown rest
      rw [List.nil_append, List.nil_append] at kept
      rw [kept, List.head?_cons, Option.all_some, shown]
      rfl
  rw [splitSpaces_of_starts starts]
  conv => rhs; rw [whole]
  rw [filter_splitOnP_of_space before, filter_splitOnP_trail _ after]

theorem IsSpaced.cons {text : Text} {words : List Text}
    (spaced : IsSpaced text words)
    {char : Char} (shown : isSpace char = false) :
    ∃ words, IsSpaced (char :: text) words := by
  have longer : ∀ {word : Text}, IsWord word → IsWord (char :: word) :=
    fun isWord => ⟨List.cons_ne_nil _ _,
      List.forall_mem_cons.mpr ⟨shown, isWord.2⟩⟩
  cases spaced with
  | last isWord space =>
    exact ⟨_, IsSpaced.last (longer isWord) space⟩
  | more isWord nonempty space spaced =>
    exact ⟨_, IsSpaced.more (longer isWord) nonempty space spaced⟩

theorem exists_hasWords (shown : text.all isSpace = false) :
    ∃ words, HasWords text words := by
  induction text with
  | nil => contradiction
  | cons char rest ih =>
    cases space : isSpace char with
    | true =>
      rw [List.all_cons, space, Bool.true_and] at shown
      obtain ⟨words, lead, later, rfl, blank, spaced⟩ :=
        ih shown
      refine ⟨words, char :: lead, later, rfl, ?_, spaced⟩
      rw [List.all_cons, space, blank]
      rfl
    | false =>
      have isWord : IsWord [char] :=
        ⟨List.cons_ne_nil _ _,
          fun other isIn => List.mem_singleton.mp isIn ▸ space⟩
      cases blank : rest.all isSpace with
      | true =>
        exact ⟨_, [], _, rfl, rfl, IsSpaced.last isWord blank⟩
      | false =>
        obtain ⟨words, lead, later, rfl, leadSpace, spaced⟩ :=
          ih blank
        by_cases touching : lead = []
        · rw [touching, List.nil_append]
          obtain ⟨longer, again⟩ := spaced.cons space
          exact ⟨longer, [], _, rfl, rfl, again⟩
        · exact ⟨_, [], _, rfl, rfl,
            IsSpaced.more isWord touching leadSpace spaced⟩

theorem splitSpaces_trim_eq_iff (nonempty : words ≠ []) :
    splitSpaces (trim text) = words ↔ HasWords text words := by
  rw [splitSpaces_trim]
  constructor
  · intro same
    cases shown : text.all isSpace with
    | true =>
      have none := filter_splitOnP_of_space shown []
      rw [List.append_nil, same, List.splitOnP_nil] at none
      exact absurd none nonempty
    | false =>
      obtain ⟨others, holds⟩ := exists_hasWords shown
      rwa [← same, filter_splitOnP_of_hasWords holds]
  · exact filter_splitOnP_of_hasWords

theorem HasWords.shown
    (holds : HasWords text words) (nonempty : words ≠ []) :
    text.all isSpace = false := by
  cases blank : text.all isSpace with
  | false => rfl
  | true =>
    have none := filter_splitOnP_of_space blank []
    rw [List.append_nil, filter_splitOnP_of_hasWords holds,
      List.splitOnP_nil] at none
    exact absurd none nonempty

theorem HasWords.mem (holds : HasWords text words)
    {word : Text} (isWord : word ∈ words)
    {char : Char} (isIn : char ∈ word) :
    char ∈ text := by
  obtain ⟨lead, rest, rfl, -, spaced⟩ := holds
  refine List.mem_append_right _ ?_
  induction spaced with
  | last isWord space =>
    rw [List.mem_singleton] at isWord
    exact List.mem_append_left _ (isWord ▸ isIn)
  | more first nonempty space spaced ih =>
    rcases List.mem_cons.mp isWord with rfl | isLater
    · exact List.mem_append_left _ isIn
    · exact List.mem_append_right _
        (List.mem_append_right _ (ih isLater))

end DeveloperDashboard.Perl
