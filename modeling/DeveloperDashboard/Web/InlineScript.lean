import DeveloperDashboard.Library.JsLiteral
import DeveloperDashboard.Library.ScriptNesting
import DeveloperDashboard.Library.TextReplacement
import DeveloperDashboard.Perl.Text

namespace DeveloperDashboard.Web

open Library Library.ScriptData Library.JsLiteral Perl

/-!
# Texts in inline scripts

`Ajax` prints scripts that call a function of the page with quoted texts.  The
texts are escaped for the literal they stand in, and for the script element.
-/

/-- `s{</}{<\\/}g`. -/
def escapeClosings : Text → Text
  | [] => []
  | [char] => [char]
  | char :: next :: rest =>
    if char = '<' ∧ next = '/' then
      ['<', '\\', '/'] ++ escapeClosings rest
    else char :: escapeClosings (next :: rest)

/-- `_js_single_quote`. -/
def jsSingleQuote (text : Option Text) : Text :=
  let text := text.getD []
  let text := replaceEach (.single '\\' ['\\', '\\']) text
  let text := replaceEach (.single '\'' ['\\', '\'']) text
  escapeClosings text

/-- What is written for a character; a `<` may stand before it. -/
def escapeChar (afterLess : Bool) (char : Char) : Text :=
  if char = '\\' then ['\\', '\\']
  else if char = '\'' then ['\\', '\'']
  else if char = '/' ∧ afterLess then ['\\', '/']
  else [char]

/-- What is written for a text; a `<` may stand before it. -/
def escapeFrom : Bool → Text → Text
  | _, [] => []
  | afterLess, char :: rest =>
    escapeChar afterLess char ++ escapeFrom (decide (char = '<')) rest

def closingsFrom : Bool → Text → Text
  | _, [] => []
  | afterLess, char :: rest =>
    (if char = '/' ∧ afterLess then ['\\', '/'] else [char]) ++
      closingsFrom (decide (char = '<')) rest

theorem closingsFrom_of_head_ne {next : Char} (rest : Text)
    (other : next ≠ '/') (afterLess : Bool) :
    closingsFrom afterLess (next :: rest) =
      closingsFrom false (next :: rest) := by
  rw [closingsFrom, closingsFrom, if_neg (fun both => other both.1),
    if_neg (fun both => other both.1)]

theorem escapeClosings_eq (text : Text) :
    escapeClosings text = closingsFrom false text := by
  induction text using escapeClosings.induct with
  | case1 => rfl
  | case2 char =>
    rw [escapeClosings, closingsFrom,
      if_neg (fun both => Bool.false_ne_true both.2)]
    rfl
  | case3 char next rest closing ih =>
    rw [escapeClosings, if_pos closing, ih]
    obtain ⟨rfl, rfl⟩ := closing
    rfl
  | case4 char next rest apart ih =>
    rw [escapeClosings, if_neg apart, ih, closingsFrom.eq_2 false char,
      if_neg (fun both => Bool.false_ne_true both.2)]
    by_cases less : char = '<'
    · have other : next ≠ '/' := fun slash => apart ⟨less, slash⟩
      rw [closingsFrom_of_head_ne rest other (decide (char = '<'))]
      rfl
    · rw [decide_eq_false less]
      rfl

def literalTable : ReplacementTable Char :=
  (ReplacementTable.single '\\' ['\\', '\\']).extend '\'' ['\\', '\'']

/-- The last substitution behind the first two. -/
theorem closingsFrom_replaceEach (text : Text) (afterLess : Bool) :
    closingsFrom afterLess (replaceEach literalTable text) =
      escapeFrom afterLess text := by
  induction text generalizing afterLess with
  | nil => rfl
  | cons char rest ih =>
    rw [replaceEach_cons, escapeFrom, escapeChar, ← ih]
    by_cases backslash : char = '\\'
    · subst backslash
      rfl
    by_cases quote : char = '\''
    · subst quote
      rfl
    have kept : literalTable char = none := by
      rw [literalTable, ReplacementTable.extend, if_neg quote,
        ReplacementTable.single, ReplacementTable.extend,
        if_neg backslash]
      rfl
    rw [if_neg backslash, if_neg quote, kept]
    rfl

theorem jsSingleQuote_eq (text : Text) :
    jsSingleQuote (some text) = escapeFrom false text := by
  have both :
      replaceEach (.single '\'' ['\\', '\''])
          (replaceEach (.single '\\' ['\\', '\\']) text) =
        replaceEach literalTable text :=
    replaceEach_single_replaceEach rfl
      (ReplacementTable.forall_extend (by decide)
        ReplacementTable.forall_none) text
  rw [jsSingleQuote, Option.getD_some, both, escapeClosings_eq,
    closingsFrom_replaceEach]

variable {text : Text}

theorem return_not_mem_escapeFrom (noReturn : '\r' ∉ text)
    (afterLess : Bool) : '\r' ∉ escapeFrom afterLess text := by
  induction text generalizing afterLess with
  | nil => exact List.not_mem_nil
  | cons char rest ih =>
    have other : '\r' ≠ char := List.ne_of_not_mem_cons noReturn
    rw [escapeFrom, List.mem_append, not_or]
    refine ⟨?_, ih
      (List.not_mem_of_not_mem_cons noReturn) _⟩
    unfold escapeChar
    split
    · decide
    · split
      · decide
      · split
        · decide
        · exact fun member => other (List.mem_singleton.mp member)

theorem escapeFrom_append (front back : Text) (afterLess : Bool) :
    ∃ behindLess, escapeFrom afterLess (front ++ back) =
      escapeFrom afterLess front ++ escapeFrom behindLess back := by
  induction front generalizing afterLess with
  | nil => exact ⟨afterLess, rfl⟩
  | cons char rest ih =>
    obtain ⟨behindLess, later⟩ :=
      ih (decide (char = '<'))
    refine ⟨behindLess, ?_⟩
    rw [List.cons_append, escapeFrom, later, escapeFrom, List.append_assoc]

/-- `'%s'`. -/
def quoted (text : Text) : Text :=
  '\'' :: jsSingleQuote (some text) ++ ['\'']

/-- `'%s','%s'`. -/
def quotedArguments (texts : List Text) : Text :=
  [','].intercalate (texts.map quoted)

/-- What a script has before and behind its literals. -/
structure ScriptFrame where
  front : Text
  back : Text
  frontPlain : '<' ∉ front
  backPlain : '<' ∉ back
  frontLine : '\r' ∉ front
  backLine : '\r' ∉ back

def ScriptFrame.script (frame : ScriptFrame) (texts : List Text) : Text :=
  frame.front ++ (quotedArguments texts ++ frame.back)

/--
The literals are read back as the texts, and no part of the script, read from
its start, ends or nests the element.
-/
structure IsInline (separators : Bool) (frame : ScriptFrame)
    (texts : List Text) : Prop where
  read :
    readLiterals separators texts.length
        (scriptText (quotedArguments texts ++ frame.back)) =
      some (texts.map value, scriptText frame.back)
  kept : Keeps step .data (normalizeNewlines (frame.script texts))

/-- No character of a text ends a line or is dropped by the tokenizer. -/
def IsPrintable (separators : Bool) (text : Text) : Prop :=
  ∀ char ∈ text, isTerminator separators char = false ∧ char ≠ '\x00'

/-- The texts with what stands between their literals. -/
def joinedTexts (texts : List Text) : Text :=
  ['\'', ',', '\''].intercalate texts

variable {separators : Bool} {char : Char}

theorem isTerminator_emitted (stays : isTerminator separators char = false) :
    isTerminator separators (emitted char) = false := by
  unfold emitted
  split
  · cases separators <;> rfl
  · exact stays

theorem readFrom_escapeFrom
    (stays : ∀ char ∈ text, isTerminator separators char = false)
    (afterLess : Bool) (rest : Text) :
    readFrom separators .plain
        ((escapeFrom afterLess text).map emitted ++ rest) =
      (readFrom separators .plain rest).map
        (before (value (text.map emitted))) := by
  induction text generalizing afterLess with
  | nil =>
    have same : before (value []) = id := rfl
    rw [List.map_nil, same, Option.map_id]
    rfl
  | cons char others ih =>
    have later :=
      ih
        (fun other member => stays other (List.mem_cons_of_mem _ member))
        (decide (char = '<'))
    have joined :
        (readFrom separators .plain
            ((escapeFrom (decide (char = '<')) others).map emitted ++
              rest)).map (before (unitsOf (emitted char).toNat)) =
          (readFrom separators .plain rest).map
            (before (value ((char :: others).map emitted))) := by
      rw [later, Option.map_map]
      refine congrArg (Option.map · _) (funext fun read => ?_)
      exact Prod.ext (List.append_assoc _ _ _).symm rfl
    rw [← joined, escapeFrom, escapeChar]
    split
    · next same =>
        subst same
        exact readFrom_plain_escaped (Or.inl rfl)
    · next noBackslash =>
        split
        · next same =>
            subst same
            exact readFrom_plain_escaped (Or.inr (Or.inl rfl))
        · next noQuote =>
            split
            · next same =>
                obtain ⟨rfl, -⟩ := same
                exact readFrom_plain_escaped (Or.inr (Or.inr rfl))
            · have kept : ∀ special, special ≠ '\uFFFD' →
                  char ≠ special → emitted char ≠ special := by
                intro special apart other
                unfold emitted
                split
                · exact apart.symm
                · exact other
              exact readFrom_plain_cons
                (kept _ (by decide) noQuote)
                (kept _ (by decide) noBackslash)
                (isTerminator_emitted
                  (stays char List.mem_cons_self))

theorem value_map_emitted_iff :
    value (text.map emitted) = value text ↔ '\x00' ∉ text := by
  induction text with
  | nil => exact iff_of_true rfl List.not_mem_nil
  | cons char rest ih =>
    have split : ∀ first others, value (first :: others) =
        unitsOf first.toNat ++ value others := fun _ _ => rfl
    rw [List.map_cons, split, split, List.mem_cons, not_or, ← ih]
    by_cases null : char = '\x00'
    · subst null
      refine iff_of_false (fun same => ?_) (fun both => both.1 rfl)
      have first := congrArg List.head? same
      cases first
    · rw [emitted, if_neg null, List.append_cancel_left_eq]
      exact (and_iff_right (Ne.symm null)).symm

theorem scriptText_terminator
    (terminator : isTerminator separators char = true) (rest : Text) :
    ∃ other others, scriptText (char :: rest) = other :: others ∧
      isTerminator separators other = true := by
  unfold scriptText normalizeNewlines
  rw [normalizeFrom]
  split
  · exact ⟨'\n', _, rfl, rfl⟩
  · rw [if_neg (fun both => Bool.false_ne_true both.2)]
    have noNull : char ≠ '\x00' := by
      rintro rfl
      cases separators <;> cases terminator
    refine ⟨char, (normalizeFrom false rest).map emitted, ?_, terminator⟩
    rw [List.map_cons, emitted, if_neg noNull]

theorem readLiteral_quoted
    (stays : ∀ char ∈ text, isTerminator separators char = false)
    (rest : Text) :
    readLiteral separators (scriptText (quoted text ++ rest)) =
      some (value (text.map emitted), scriptText rest) := by
  have noReturn : '\r' ∉ text := by
    intro member
    have isOne := stays _ member
    cases separators <;> cases isOne
  have noReturns : '\r' ∉ quoted text := by
    rw [quoted, jsSingleQuote_eq, List.mem_append, List.mem_cons, not_or,
      not_or]
    exact ⟨⟨by decide, return_not_mem_escapeFrom noReturn false⟩, by decide⟩
  rw [scriptText_append noReturns, quoted, jsSingleQuote_eq,
    List.map_append, List.map_cons, List.cons_append, List.cons_append,
    List.append_assoc]
  have opened : ∀ others : Text,
      readLiteral separators (emitted '\'' :: others) =
        readFrom separators .plain others := fun _ => rfl
  rw [opened, readFrom_escapeFrom stays]
  have closed :
      readFrom separators .plain
          (['\''].map emitted ++ scriptText rest) =
        some ([], scriptText rest) := rfl
  rw [closed, Option.map_some, before, List.append_nil]

theorem readLiteral_quoted_of_isTerminator
    (broken : ∃ char ∈ text, isTerminator separators char = true)
    (rest : Text) :
    readLiteral separators (scriptText (quoted text ++ rest)) = none := by
  obtain ⟨first, found⟩ :=
    Option.isSome_iff_exists.mp (List.find?_isSome.mpr broken)
  obtain ⟨terminator, front, back, rfl, noOther⟩ :=
    List.find?_eq_some_iff_append.mp found
  have stays : ∀ char ∈ front, isTerminator separators char = false :=
    fun char member =>
      Bool.eq_false_iff.mpr fun isOne => by
        have other := noOther char member
        rw [isOne] at other
        cases other
  have noReturn : '\r' ∉ '\'' :: escapeFrom false front := by
    rw [List.mem_cons, not_or]
    refine ⟨by decide, return_not_mem_escapeFrom (fun member => ?_) false⟩
    have isOne := stays _ member
    cases separators <;> cases isOne
  obtain ⟨behindLess, later⟩ :=
    escapeFrom_append front (first :: back) false
  have itself : escapeChar behindLess first = [first] := by
    unfold escapeChar
    rw [if_neg, if_neg, if_neg]
    · rintro ⟨rfl, -⟩
      cases separators <;> cases terminator
    · rintro rfl
      cases separators <;> cases terminator
    · rintro rfl
      cases separators <;> cases terminator
  have shape : ∃ more,
      quoted (front ++ first :: back) ++ rest =
        ('\'' :: escapeFrom false front) ++ first :: more := by
    refine ⟨escapeFrom (decide (first = '<')) back ++ ['\''] ++ rest, ?_⟩
    rw [quoted, jsSingleQuote_eq, later, escapeFrom, itself]
    simp
  obtain ⟨more, shape⟩ := shape
  obtain ⟨other, others, broke, isOne⟩ :=
    scriptText_terminator terminator more
  rw [shape, scriptText_append noReturn, broke, List.map_cons,
    List.cons_append]
  have opened : ∀ others : Text,
      readLiteral separators (emitted '\'' :: others) =
        readFrom separators .plain others := fun _ => rfl
  rw [opened, readFrom_escapeFrom stays, readFrom_plain_of_isTerminator isOne]
  rfl

theorem readLiteral_quoted_cases (separators : Bool) (text rest : Text) :
    (∃ char ∈ text, isTerminator separators char = true) ∧
        readLiteral separators (scriptText (quoted text ++ rest)) = none ∨
      (∀ char ∈ text, isTerminator separators char = false) ∧
        readLiteral separators (scriptText (quoted text ++ rest)) =
          some (value (text.map emitted), scriptText rest) := by
  by_cases broken : ∃ char ∈ text, isTerminator separators char = true
  · exact Or.inl
      ⟨broken, readLiteral_quoted_of_isTerminator broken rest⟩
  · have stays : ∀ char ∈ text, isTerminator separators char = false :=
      fun char member =>
        Bool.eq_false_iff.mpr fun isOne => broken ⟨char, member, isOne⟩
    exact Or.inr ⟨stays, readLiteral_quoted stays rest⟩

theorem isPrintable_iff :
    IsPrintable separators text ↔
      (∀ char ∈ text, isTerminator separators char = false) ∧
        value (text.map emitted) = value text := by
  rw [value_map_emitted_iff]
  constructor
  · intro printable
    exact ⟨fun char member => (printable char member).1,
      fun member => (printable _ member).2 rfl⟩
  · rintro ⟨stays, noNull⟩ char member
    refine ⟨stays char member, ?_⟩
    rintro rfl
    exact noNull member

theorem not_isPrintable
    (broken : ∃ char ∈ text, isTerminator separators char = true) :
    ¬IsPrintable separators text := by
  intro printable
  obtain ⟨char, member, isOne⟩ := broken
  rw [(printable char member).1] at isOne
  cases isOne

theorem readLiterals_quotedArguments_iff (texts : List Text) (back : Text) :
    readLiterals separators texts.length
          (scriptText (quotedArguments texts ++ back)) =
        some (texts.map value, scriptText back) ↔
      ∀ text ∈ texts, IsPrintable separators text := by
  induction texts with
  | nil => exact iff_of_true rfl (List.forall_mem_nil _)
  | cons text rest ih =>
    rw [List.forall_mem_cons]
    cases rest with
    | nil =>
      have single : quotedArguments [text] = quoted text :=
        List.intercalate_singleton
      rw [single, and_iff_left (List.forall_mem_nil _),
        List.length_singleton, readLiterals]
      rcases readLiteral_quoted_cases separators text back with
        ⟨broken, read⟩ | ⟨stays, read⟩
      · rw [read]
        exact iff_of_false (Option.some_ne_none _).symm
          (not_isPrintable broken)
      · rw [read, isPrintable_iff, and_iff_right stays,
          Option.map_some, Option.some_inj, Prod.mk.injEq,
          and_iff_left rfl, List.map_singleton, List.singleton_inj]
    | cons next others =>
      have split :
          quotedArguments (text :: next :: others) ++ back =
            quoted text ++
              (',' :: (quotedArguments (next :: others) ++ back)) := by
        unfold quotedArguments
        rw [List.map_cons, List.map_cons, List.intercalate_cons_cons]
        simp
      rw [split, ← ih, List.length_cons,
        List.length_cons, readLiterals, List.map_cons]
      generalize quotedArguments (next :: others) ++ back = later
      rcases readLiteral_quoted_cases separators text (',' :: later)
        with ⟨broken, read⟩ | ⟨stays, read⟩
      · rw [read]
        exact iff_of_false (Option.some_ne_none _).symm
          (fun both => not_isPrintable broken both.1)
      · have comma :
            afterComma (scriptText (',' :: later)) =
              some (scriptText later) := rfl
        rw [read, Option.bind_some, comma, Option.bind_some,
          isPrintable_iff, and_iff_right stays]
        cases found :
            readLiterals separators (others.length + 1)
              (scriptText later) with
        | none => simp
        | some pair => simp [Prod.ext_iff, and_assoc]

/-- A written text is read like a text in which no `</` opens an end tag. -/
def IsReadAs (state : State) (written text : Text) : Prop :=
  ∀ rest, Keeps step state (written ++ rest) ↔
    Keeps textStep state text ∧
      Keeps step (text.foldl textStep state) rest

variable {state : State}

theorem IsReadAs.append {first second : Text}
    {written others : Text} (one : IsReadAs state written first)
    (two : IsReadAs (first.foldl textStep state) others second) :
    IsReadAs state (written ++ others) (first ++ second) := by
  intro rest
  rw [List.append_assoc, one, two, keeps_append_iff, List.foldl_append,
    and_assoc]

theorem isOpen_of_keeps {next : State → Char → State}
    (keeps : Keeps next state text) :
    state.isOpen = true :=
  keeps [] List.nil_prefix

theorem isReadAs_singleton (state : State)
    (other : char ≠ '/') : IsReadAs state [char] [char] := by
  intro rest
  rw [List.singleton_append, keeps_cons_iff, keeps_cons_iff, keeps_nil_iff,
    List.foldl_cons, List.foldl_nil, textStep_of_ne other]
  constructor
  · rintro ⟨isOpen, keeps⟩
    exact ⟨⟨isOpen, isOpen_of_keeps keeps⟩, keeps⟩
  · rintro ⟨⟨isOpen, -⟩, keeps⟩
    exact ⟨isOpen, keeps⟩

theorem textStep_slash (noLess : state.isLess = false) :
    textStep state '/' = step state '/' := by
  cases state <;> first | rfl | cases noLess

theorem isLess_cases (isOpen : state.isOpen = true)
    (less : state.isLess = true) :
    state = .dataLess ∨ state = .escapedLess := by
  cases state with
  | dataLess => exact Or.inl rfl
  | escapedLess => exact Or.inr rfl
  | doubleEscapedLess => cases isOpen
  | _ => cases less

theorem isLess_textStep (isOpen : state.isOpen = true) (char : Char) :
    (textStep state char).isLess = decide (char = '<') := by
  by_cases slash : char = '/'
  · subst slash
    by_cases less : state.isLess = true
    · rcases isLess_cases isOpen less with rfl | rfl
      · rfl
      · rfl
    · rw [textStep_slash (Bool.eq_false_iff.mpr less), isLess_step isOpen]
  · rw [textStep_of_ne slash, isLess_step isOpen]

theorem isReadAs_escapeChar (isOpen : state.isOpen = true) (char : Char) :
    IsReadAs state (escapeChar state.isLess char) [char] := by
  have backslash : (step state '\\').isOpen = true := by
    cases state <;> first | rfl | cases isOpen
  have pair : ∀ {written},
      step (step state '\\') written = textStep state char →
        IsReadAs state ['\\', written] [char] := by
    intro written same rest
    rw [List.cons_append, List.singleton_append, keeps_cons_iff,
      keeps_cons_iff, same, keeps_cons_iff, keeps_nil_iff, List.foldl_cons,
      List.foldl_nil]
    constructor
    · rintro ⟨-, -, keeps⟩
      exact ⟨⟨isOpen, isOpen_of_keeps keeps⟩, keeps⟩
    · rintro ⟨-, keeps⟩
      exact ⟨isOpen, backslash, keeps⟩
  unfold escapeChar
  split
  · next same =>
      subst same
      exact pair (by cases state <;> rfl)
  · split
    · next same =>
        subst same
        exact pair (by cases state <;> rfl)
    · split
      · next same =>
          obtain ⟨rfl, less⟩ := same
          rcases isLess_cases isOpen less with rfl | rfl
          · exact pair rfl
          · exact pair rfl
      · next apart =>
          by_cases slash : char = '/'
          · subst slash
            have noLess : state.isLess = false :=
              Bool.eq_false_iff.mpr fun less => apart ⟨rfl, less⟩
            intro rest
            rw [List.singleton_append, keeps_cons_iff, keeps_cons_iff,
              keeps_nil_iff, List.foldl_cons, List.foldl_nil,
              textStep_slash noLess]
            constructor
            · rintro ⟨-, keeps⟩
              exact ⟨⟨isOpen, isOpen_of_keeps keeps⟩, keeps⟩
            · rintro ⟨-, keeps⟩
              exact ⟨isOpen, keeps⟩
          · exact isReadAs_singleton state slash

theorem isReadAs_escapeFrom (state : State) (text : Text) :
    IsReadAs state (escapeFrom state.isLess text) text := by
  induction text generalizing state with
  | nil =>
    intro rest
    rw [keeps_nil_iff, escapeFrom, List.nil_append]
    exact ⟨fun keeps => ⟨isOpen_of_keeps keeps, keeps⟩, And.right⟩
  | cons char rest ih =>
    by_cases isOpen : state.isOpen = true
    · rw [escapeFrom, ← isLess_textStep isOpen]
      exact (isReadAs_escapeChar isOpen char).append
        (ih (textStep state char))
    · intro others
      exact iff_of_false (fun keeps => isOpen (isOpen_of_keeps keeps))
        (fun both => isOpen (isOpen_of_keeps both.1))

theorem isLess_quote (state : State) :
    (textStep state '\'').isLess = false := by
  cases state <;> rfl

theorem isReadAs_quoted (state : State) (text : Text) :
    IsReadAs state (quoted text) (['\''] ++ text ++ ['\'']) := by
  rw [quoted, jsSingleQuote_eq, ← isLess_quote state]
  exact ((isReadAs_singleton state (by decide)).append
    (isReadAs_escapeFrom (textStep state '\'') text)).append
      (isReadAs_singleton _ (by decide))

def rawArguments (texts : List Text) : Text :=
  [','].intercalate (texts.map fun text => ['\''] ++ text ++ ['\''])

/-- The literals are read like the texts between quotes. -/
theorem isReadAs_quotedArguments (state : State) (texts : List Text) :
    IsReadAs state (quotedArguments texts) (rawArguments texts) := by
  unfold quotedArguments rawArguments
  induction texts generalizing state with
  | nil => exact isReadAs_escapeFrom state []
  | cons text rest ih =>
    cases rest with
    | nil =>
      rw [List.map_singleton, List.map_singleton,
        List.intercalate_singleton, List.intercalate_singleton]
      exact isReadAs_quoted state text
    | cons next others =>
      have later := ih
      rw [List.map_cons, List.map_cons, List.map_cons, List.map_cons,
        List.intercalate_cons_cons, List.intercalate_cons_cons]
      rw [List.map_cons, List.map_cons] at later
      exact ((isReadAs_quoted state text).append
        (isReadAs_singleton _ (by decide))).append (later _)

theorem rawArguments_cons (text : Text) (rest : List Text) :
    rawArguments (text :: rest) =
      ['\''] ++ joinedTexts (text :: rest) ++ ['\''] := by
  unfold rawArguments joinedTexts
  induction rest generalizing text with
  | nil =>
    rw [List.map_singleton, List.intercalate_singleton,
      List.intercalate_singleton]
  | cons next others ih =>
    have later := ih next
    rw [List.map_cons] at later
    rw [List.map_cons, List.map_cons, List.intercalate_cons_cons, later,
      List.intercalate_cons_cons]
    simp

theorem isCalm_quote (isOpen : state.isOpen = true) :
    (textStep state '\'').isCalm = true := by
  cases state <;> first | rfl | cases isOpen

theorem isOpen_of_isCalm (isCalm : state.isCalm = true) :
    state.isOpen = true := by
  cases state <;> first | rfl | cases isCalm

variable {texts : List Text}

theorem keeps_rawArguments_iff :
    Keeps textStep .data (rawArguments texts) ↔
      Keeps textStep .data (joinedTexts texts) := by
  cases texts with
  | nil => exact Iff.rfl
  | cons text rest =>
    rw [rawArguments_cons, keeps_append_iff, List.singleton_append,
      keeps_cons_iff]
    constructor
    · exact fun both => both.1.2
    · intro keeps
      refine ⟨⟨rfl, keeps⟩, keeps_cons_iff.mpr ⟨keeps.isOpen, ?_⟩⟩
      exact keeps_nil_iff.mpr
        (isOpen_of_isCalm (isCalm_quote keeps.isOpen))

theorem isCalm_rawArguments
    (keeps : Keeps textStep .data (rawArguments texts)) :
    ((rawArguments texts).foldl textStep .data).isCalm = true := by
  cases texts with
  | nil => rfl
  | cons text rest =>
    rw [rawArguments_cons] at keeps ⊢
    rw [List.foldl_append]
    exact isCalm_quote keeps.of_append.isOpen

theorem keeps_script_iff (frame : ScriptFrame) (texts : List Text) :
    Keeps step .data (frame.script texts) ↔
      ¬NestsScript (joinedTexts texts) := by
  obtain ⟨front, reached⟩ := keeps_data_of_plain frame.frontPlain
  rw [← keeps_textStep_iff, ← keeps_rawArguments_iff, ScriptFrame.script,
    keeps_append_iff, and_iff_right front]
  have read := isReadAs_quotedArguments .data texts frame.back
  rw [run] at reached
  rw [reached, read]
  constructor
  · exact And.left
  · intro keeps
    exact ⟨keeps,
      keeps_of_isCalm (isCalm_rawArguments keeps) frame.backPlain⟩

theorem IsPrintable.noReturn
    (printable : IsPrintable separators text) : '\r' ∉ text := by
  intro member
  have stays := (printable _ member).1
  cases separators <;> cases stays

theorem return_not_mem_quotedArguments
    (printable : ∀ text ∈ texts, IsPrintable separators text) :
    '\r' ∉ quotedArguments texts := by
  unfold quotedArguments
  induction texts with
  | nil => exact List.not_mem_nil
  | cons text rest ih =>
    obtain ⟨first, later⟩ := List.forall_mem_cons.mp printable
    have here : '\r' ∉ quoted text := by
      rw [quoted, jsSingleQuote_eq, List.mem_append, List.mem_cons,
        not_or, not_or]
      exact ⟨⟨by decide,
        return_not_mem_escapeFrom first.noReturn false⟩, by decide⟩
    cases rest with
    | nil =>
      rw [List.map_singleton, List.intercalate_singleton]
      exact here
    | cons next others =>
      have behind := ih later
      rw [List.map_cons] at behind
      rw [List.map_cons, List.map_cons, List.intercalate_cons_cons,
        List.mem_append, List.mem_append, not_or, not_or]
      exact ⟨⟨here, by decide⟩, behind⟩

def inScript (script : Text) : Text :=
  "<script>".toList ++ (script ++ endTag)

/-- `<script>set_chain_value(%s,'%s','%s')</script>`. -/
def setChainValueScript (root path url : Text) : Text :=
  inScript ("set_chain_value(".toList ++ root ++ ",'".toList ++
    jsSingleQuote (some path) ++ "','".toList ++
    jsSingleQuote (some url) ++ "')".toList)

/-- `<script>dashboard_ajax_singleton_cleanup('%s')</script>`. -/
def singletonCleanupScript (singleton : Text) : Text :=
  inScript ("dashboard_ajax_singleton_cleanup('".toList ++
    jsSingleQuote (some singleton) ++ "')".toList)

/-- The call of `set_chain_value`, of which the root is not escaped. -/
def setChainValueFrame (root : Text) (plain : '<' ∉ root)
    (line : '\r' ∉ root) : ScriptFrame where
  front := "set_chain_value(".toList ++ root ++ [',']
  back := [')']
  frontPlain := by
    rw [List.mem_append, List.mem_append, not_or, not_or]
    exact ⟨⟨by decide, plain⟩, by decide⟩
  backPlain := by decide
  frontLine := by
    rw [List.mem_append, List.mem_append, not_or, not_or]
    exact ⟨⟨by decide, line⟩, by decide⟩
  backLine := by decide

/-- The call of `dashboard_ajax_singleton_cleanup`. -/
def cleanupFrame : ScriptFrame where
  front := "dashboard_ajax_singleton_cleanup(".toList
  back := [')']
  frontPlain := by decide
  backPlain := by decide
  frontLine := by decide
  backLine := by decide

theorem setChainValueScript_eq {root : Text} (plain : '<' ∉ root)
    (line : '\r' ∉ root) (path url : Text) :
    setChainValueScript root path url =
      inScript ((setChainValueFrame root plain line).script [path, url]) := by
  unfold setChainValueScript ScriptFrame.script setChainValueFrame
    quotedArguments quoted
  rw [List.map_cons, List.map_singleton, List.intercalate_cons_cons,
    List.intercalate_singleton]
  simp

theorem singletonCleanupScript_eq (singleton : Text) :
    singletonCleanupScript singleton =
      inScript (cleanupFrame.script [singleton]) := by
  unfold singletonCleanupScript ScriptFrame.script cleanupFrame
    quotedArguments quoted
  rw [List.map_singleton, List.intercalate_singleton]
  simp

/-- `split /\./, $args{jvar}, 2` and `$path ||= ''`. -/
def splitVariable (variableName : Text) : Text × Text :=
  (variableName.takeWhile fun char => decide (char ≠ '.'), orEmpty
      ((variableName.dropWhile fun char => decide (char ≠ '.')).drop 1))

/-- The scripts that `Ajax` prints; saved pages also name their singleton. -/
def ajaxScripts (variableName url : Text) (singleton : Option Text)
    (saved : Bool) : List Text :=
  let (root, path) := splitVariable variableName
  let cleanup := ((singleton.filter fun name => decide (name ≠ [])).map
    singletonCleanupScript).toList
  setChainValueScript root path url :: if saved then cleanup else []

theorem exists_frame_of_mem_ajaxScripts
    {variableName url : Text} {singleton : Option Text} {saved : Bool}
    (plain : '<' ∉ variableName) (line : '\r' ∉ variableName) {script : Text}
    (printed : script ∈ ajaxScripts variableName url singleton saved) :
    ∃ frame texts, script = inScript (ScriptFrame.script frame texts) := by
  rcases List.mem_cons.mp printed with rfl | later
  · exact ⟨_, _, setChainValueScript_eq
      (fun member => plain (List.takeWhile_subset _ member))
      (fun member => line (List.takeWhile_subset _ member)) _ url⟩
  · cases saved with
    | false => exact absurd later List.not_mem_nil
    | true =>
      obtain ⟨name, -, rfl⟩ :=
        Option.map_eq_some_iff.mp (Option.mem_toList.mp later)
      exact ⟨cleanupFrame, [name], singletonCleanupScript_eq name⟩

/--
Texts are read back and stay in their literals if and only if they have no line
terminator and no null character, and start no script inside of a comment.
-/
theorem isInline_iff (separators : Bool) (frame : ScriptFrame)
    (texts : List Text) :
    IsInline separators frame texts ↔
      (∀ text ∈ texts, IsPrintable separators text) ∧
        ¬NestsScript (joinedTexts texts) := by
  have asWritten : (∀ text ∈ texts, IsPrintable separators text) →
      normalizeNewlines (frame.script texts) = frame.script texts := by
    intro printable
    refine normalizeNewlines_of_not_mem ?_
    rw [ScriptFrame.script, List.mem_append, List.mem_append, not_or, not_or]
    exact ⟨frame.frontLine, return_not_mem_quotedArguments printable,
      frame.backLine⟩
  constructor
  · rintro ⟨read, kept⟩
    have printable := (readLiterals_quotedArguments_iff _ _).mp read
    rw [asWritten printable, keeps_script_iff] at kept
    exact ⟨printable, kept⟩
  · rintro ⟨printable, free⟩
    refine ⟨(readLiterals_quotedArguments_iff _ _).mpr printable, ?_⟩
    rw [asWritten printable]
    exact (keeps_script_iff frame texts).mpr free

/-- A line end breaks the literal, and a comment nests the script. -/
theorem not_isInline_newline_and_comment :
    ¬IsInline false cleanupFrame ["a\nb".toList] ∧
      ¬IsInline false cleanupFrame ["<!--<script>".toList] := by
  constructor
  · intro inline
    have refused :
        readLiterals false 1
            (scriptText (quotedArguments ["a\nb".toList] ++
              cleanupFrame.back)) = none := by
      decide +kernel
    exact absurd (refused.symm.trans inline.read) (Option.some_ne_none _).symm
  · intro inline
    have nested :
        (run .data (normalizeNewlines
            (cleanupFrame.script ["<!--<script>".toList]))).isOpen =
          false := by
      decide +kernel
    exact absurd (nested.symm.trans inline.kept.isOpen) Bool.false_ne_true

end DeveloperDashboard.Web
