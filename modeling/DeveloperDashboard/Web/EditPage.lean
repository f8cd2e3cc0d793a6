import DeveloperDashboard.Library.JsLiteral
import DeveloperDashboard.Library.LiteralReplacement
import DeveloperDashboard.Perl.Text

namespace DeveloperDashboard.Web.EditPage

open Library Perl

/-!
# The editor's document

`_edit_html` puts five texts in the place of five marks of its template, by
one substitution after the other over the whole document.  The source stands
in a text area, and as a JSON literal in a script that sets the editor's field.
The fixed parts of the template are parameters without a mark in them.
-/

inductive Mark where
  | title
  | topChrome
  | source
  | sourceJson
  | formAction
  deriving DecidableEq

def Mark.text : Mark → Text
  | title => "__TITLE__".toList
  | topChrome => "__TOP_CHROME__".toList
  | source => "__SOURCE__".toList
  | sourceJson => "__SOURCE_JSON__".toList
  | formAction => "__FORM_ACTION__".toList

def isMarkChar (char : Char) : Bool :=
  char.isUpper || char == '_'

/-- A fixed part of the template, with no mark in it or at its ends. -/
structure IsFixed (part : Text) : Prop where
  shape :
    ∃ first middle last, part = first :: (middle ++ [last]) ∧
      isMarkChar first = false ∧ isMarkChar last = false ∧
        ∀ mark : Mark, ¬ mark.text <:+: middle

/-- The fixed parts, by the mark that follows. -/
structure Template where
  part : Option Mark → Text
  isFixed : ∀ next, IsFixed (part next)

abbrev Insertions :=
  Mark → Text

def Template.fill (template : Template) (insertions : Insertions) : Text :=
  ([.title, .topChrome, .formAction, .source, .sourceJson].flatMap
    fun mark => template.part (some mark) ++ insertions mark) ++
      template.part none

/-- The substitutions `s/&/&amp;/g`, `s/</&lt;/g` and `s/>/&gt;/g`. -/
def escapeHtml (text : Text) : Text :=
  replaceEach (.single '>' "&gt;".toList)
    (replaceEach (.single '<' "&lt;".toList)
      (replaceEach (.single '&' "&amp;".toList) text))

/-- `_escape_html_attr` -/
def escapeHtmlAttr (text : Text) : Text :=
  replaceEach (.single '\'' "&#39;".toList)
    (replaceEach (.single '"' "&quot;".toList) (escapeHtml text))

def hexDigit (digit : Nat) : Char :=
  if digit < 10 then Char.ofNat (48 + digit) else Char.ofNat (87 + digit)

/-- What the encoder of JSON writes for a character, in bytes. -/
def jsonChar (char : Char) : Text :=
  if char = '"' ∨ char = '\\' then ['\\', char]
  else if char = '\n' then "\\n".toList
  else if char = '\r' then "\\r".toList
  else if char = '\t' then "\\t".toList
  else if char = '\x08' then "\\b".toList
  else if char = '\x0c' then "\\f".toList
  else if char.toNat < 32 then
    "\\u00".toList ++ [hexDigit (char.toNat / 16), hexDigit (char.toNat % 16)]
  else if char.toNat < 128 then [char]
  else (String.utf8EncodeChar char).map fun byte => Char.ofNat byte.toNat

/-- `json_encode` of a text: bytes of UTF-8, and a newline at the end. -/
def jsonEncode (text : Text) : Text :=
  '"' :: (text.flatMap jsonChar ++ "\"\n".toList)

/-- `_json_for_inline_script` -/
def jsonForInlineScript (text : Text) : Text :=
  replaceEach (.single '&' "\\u0026".toList)
    (replaceEach (.single '>' "\\u003e".toList)
      (replaceEach (.single '<' "\\u003c".toList) (jsonEncode text)))

def insertions (rawSource title topChrome formAction : Text) : Insertions
  | .title => escapeHtml title
  | .topChrome => topChrome
  | .source => escapeHtml rawSource
  | .sourceJson => jsonForInlineScript rawSource
  | .formAction => escapeHtmlAttr formAction

def substitute (insertions : Insertions) (html : Text) (mark : Mark) : Text :=
  replaceAll mark.text (insertions mark) html

/-- `_edit_html` -/
def editHtml (template : Template)
    (rawSource title topChrome formAction : Text) : Text :=
  [.title, .topChrome, .source, .sourceJson, .formAction].foldl
    (substitute (insertions rawSource title topChrome formAction))
    (template.fill Mark.text)

/-- What a letter behind a backslash stands for. -/
def unescape (char : Char) : Option Char :=
  if char = '"' ∨ char = '\\' ∨ char = '/' then some char
  else if char = 'n' then some '\n'
  else if char = 'r' then some '\r'
  else if char = 't' then some '\t'
  else if char = 'b' then some '\x08'
  else if char = 'f' then some '\x0c'
  else none

def readChar : Text → Option (Char × Text)
  | '\\' :: 'u' :: first :: second :: third :: fourth :: rest =>
    ([first, second, third, fourth].mapM JsLiteral.hexDigit).map
      fun digits =>
        (Char.ofNat (digits.foldl (fun code digit => code * 16 + digit) 0),
          rest)
  | '\\' :: char :: rest => (unescape char).map (·, rest)
  | char :: rest =>
    if char = '\\' ∨ char.toNat < 32 then none else some (char, rest)
  | [] => none

/-- The rest of a literal up to its quote, in so many steps at most. -/
def readString : Nat → Text → Option (Text × Text)
  | 0, _ => none
  | steps + 1, text =>
    if text.head? = some '"' then some ([], text.tail)
    else
      (readChar text).bind fun read =>
        (readString steps read.2).map fun later =>
          (read.1 :: later.1, later.2)

def literalValue (literal : Text) : Option Text :=
  if literal.head? = some '"' then
    (readString literal.length literal.tail).bind fun read =>
      if read.2 = ['\n'] then some read.1 else none
  else none

def entities : RestoringTable Char :=
  [('&', "&amp;".toList), ('<', "&lt;".toList), ('>', "&gt;".toList)]

/-- The document shows the source, and is nothing but what it should be. -/
structure ShowsSource (template : Template)
    (rawSource title topChrome formAction : Text) : Prop where
  document :
    editHtml template rawSource title topChrome formAction =
      template.fill (insertions rawSource title topChrome formAction)
  field : literalValue (jsonForInlineScript rawSource) = some rawSource
  textarea : restoreEach entities (escapeHtml rawSource) = rawSource

/-- An ASCII source, and no mark that is substituted later. -/
structure IsPlain (rawSource title topChrome : Text) : Prop where
  ascii : ∀ char ∈ rawSource, char.toNat < 128
  source : ∀ mark ∈ [Mark.sourceJson, .formAction], ¬ mark.text <:+: rawSource
  title : ∀ mark ∈ [Mark.topChrome, .source, .sourceJson, .formAction],
    ¬ mark.text <:+: title
  topChrome : ∀ mark ∈ [Mark.source, .sourceJson, .formAction],
    ¬ mark.text <:+: topChrome

theorem foreign_of_isMarkChar {char : Char}
    (foreign : isMarkChar char = false) (mark : Mark) :
    char ∉ mark.text := by
  have markChars : mark.text.all isMarkChar = true := by
    cases mark <;> decide
  intro member
  rw [List.all_eq_true.mp markChars char member] at foreign
  cases foreign

theorem text_ne_nil (mark : Mark) : mark.text ≠ [] := by
  cases mark <;> decide

theorem replaceAll_fixed {part : Text} (fixed : IsFixed part) (mark : Mark)
    (insertion front back : Text) :
    replaceAll mark.text insertion (front ++ (part ++ back)) =
      replaceAll mark.text insertion front ++
        (part ++ replaceAll mark.text insertion back) := by
  obtain ⟨first, middle, last, rfl, begins, ends, absent⟩ := fixed.shape
  rw [List.cons_append, List.append_assoc, List.singleton_append,
    replaceAll_append_cons (foreign_of_isMarkChar begins mark)
      (text_ne_nil mark),
    replaceAll_append_cons (foreign_of_isMarkChar ends mark)
      (text_ne_nil mark), replaceAll_of_absent (absent mark)]
  simp

variable {inserted : Insertions}

theorem substitute_fill (template : Template) (holes : Insertions)
    (mark : Mark) :
    substitute inserted (template.fill holes) mark =
      template.fill fun hole => substitute inserted (holes hole) mark := by
  have parts : ∀ (marks : List Mark) (front : Text),
      replaceAll mark.text (inserted mark)
          (front ++ ((marks.flatMap fun hole =>
            template.part (some hole) ++ holes hole) ++
              template.part none)) =
        replaceAll mark.text (inserted mark) front ++
          ((marks.flatMap fun hole => template.part (some hole) ++
            replaceAll mark.text (inserted mark) (holes hole)) ++
              template.part none) := by
    intro marks
    induction marks with
    | nil =>
      intro front
      have last := replaceAll_fixed (template.isFixed none) mark
        (inserted mark) front []
      rw [List.append_nil] at last
      exact last.trans (by simp [replaceAll, replaceAllAfter])
    | cons hole rest ih =>
      intro front
      rw [List.flatMap_cons, List.append_assoc, List.append_assoc,
        replaceAll_fixed (template.isFixed (some hole)), ih]
      simp
  exact parts _ []

theorem foldl_substitute_fill (template : Template) (marks : List Mark)
    (holes : Insertions) :
    marks.foldl (substitute inserted) (template.fill holes) =
      template.fill fun hole =>
        marks.foldl (substitute inserted) (holes hole) := by
  induction marks generalizing holes with
  | nil => rfl
  | cons mark rest ih =>
    rw [List.foldl_cons, substitute_fill, ih]
    rfl

theorem foldl_substitute_of_absent {marks : List Mark} {text : Text}
    (absent : ∀ mark ∈ marks, ¬ mark.text <:+: text) :
    marks.foldl (substitute inserted) text = text := by
  induction marks with
  | nil => rfl
  | cons mark rest ih =>
    rw [List.foldl_cons, substitute,
      replaceAll_of_absent (absent mark List.mem_cons_self)]
    exact ih fun other member =>
      absent other (List.mem_cons_of_mem _ member)

theorem foldl_substitute_mark (before after : List Mark) (mark : Mark)
    (earlier : ∀ other ∈ before, ¬ other.text <:+: mark.text)
    (later : ∀ other ∈ after, ¬ other.text <:+: inserted mark) :
    (before ++ mark :: after).foldl (substitute inserted) mark.text =
      inserted mark := by
  rw [List.foldl_append, foldl_substitute_of_absent earlier,
    List.foldl_cons, substitute, replaceAll_self (text_ne_nil mark),
    foldl_substitute_of_absent later]

def escapeTable : ReplacementTable Char :=
  ((ReplacementTable.none.extend '&' "&amp;".toList).extend
    '<' "&lt;".toList).extend '>' "&gt;".toList

theorem escapeHtml_eq (text : Text) :
    escapeHtml text = replaceEach escapeTable text := by
  have both : replaceEach (.single '<' "&lt;".toList)
      (replaceEach (.single '&' "&amp;".toList) text) =
        replaceEach ((ReplacementTable.none.extend '&'
          "&amp;".toList).extend '<' "&lt;".toList) text :=
    replaceEach_single_replaceEach (by decide)
      (ReplacementTable.forall_extend (by decide)
        ReplacementTable.forall_none) text
  rw [escapeHtml, both]
  exact replaceEach_single_replaceEach (by decide)
    (ReplacementTable.forall_extend (by decide)
      (ReplacementTable.forall_extend (by decide)
        ReplacementTable.forall_none)) text

theorem infix_of_infix_escapeHtml {mark : Mark} {text : Text}
    (within : mark.text <:+: escapeHtml text) : mark.text <:+: text := by
  rw [escapeHtml_eq] at within
  refine infix_of_infix_replaceEach ?_ (text_ne_nil mark) within
  have foreign : ∀ entry : Text, entry ≠ [] →
      entry.any isMarkChar = false →
      entry ≠ [] ∧ ∀ char ∈ entry, char ∉ mark.text :=
    fun entry nonempty none => ⟨nonempty, fun char member =>
      foreign_of_isMarkChar
        (eq_false_of_ne_true (List.any_eq_false.mp none char member)) mark⟩
  exact ReplacementTable.forall_extend (foreign _ (by decide) (by decide))
    (ReplacementTable.forall_extend (foreign _ (by decide) (by decide))
      (ReplacementTable.forall_extend (foreign _ (by decide) (by decide))
        ReplacementTable.forall_none))

theorem restoreEach_escapeHtml (text : Text) :
    restoreEach entities (escapeHtml text) = text := by
  rw [escapeHtml_eq]
  have isCode : IsPrefixCode (· ∈ entities) Prod.snd := by
    intro first second isFirst isSecond rest others same
    simp only [entities, List.mem_cons, List.not_mem_nil, or_false]
      at isFirst isSecond
    rcases isFirst with rfl | rfl | rfl <;>
      rcases isSecond with rfl | rfl | rfl <;>
        first | rfl | simp at same
  have marked : ∀ entry ∈ entities, entry.2.head? = some '&' := by
    decide
  refine restoreEach_replaceEach isCode marked (by decide) ?_ text
  · exact ReplacementTable.forall_extend (by decide)
      (ReplacementTable.forall_extend (by decide)
        (ReplacementTable.forall_extend (by decide)
          ReplacementTable.forall_none))

def inlineChar (char : Char) : Text :=
  replaceEach (.single '&' "\\u0026".toList)
    (replaceEach (.single '>' "\\u003e".toList)
      (replaceEach (.single '<' "\\u003c".toList) (jsonChar char)))

theorem jsonForInlineScript_eq (text : Text) :
    jsonForInlineScript text =
      '"' :: (text.flatMap inlineChar ++ "\"\n".toList) := by
  have each : ∀ table : ReplacementTable Char, ∀ entry : Char → Text,
      replaceEach table (text.flatMap entry) =
        text.flatMap fun char => replaceEach table (entry char) :=
    fun _ _ => List.flatMap_assoc
  unfold jsonForInlineScript jsonEncode
  simp only [replaceEach_cons, replaceEach_append, each]
  rfl

theorem readChar_append {text rest more : Text} {char : Char}
    (read : readChar text = some (char, rest)) :
    readChar (text ++ more) = some (char, rest ++ more) := by
  fun_cases readChar text with
  | case1 first second third fourth tail =>
    obtain ⟨digits, found, same⟩ := Option.map_eq_some_iff.mp read
    obtain ⟨rfl, rfl⟩ := Prod.mk.inj same
    exact Option.map_eq_some_iff.mpr ⟨digits, found, rfl⟩
  | case2 escaped tail noCode =>
    rw [readChar.eq_2 _ _ noCode] at read
    obtain ⟨value, found, same⟩ := Option.map_eq_some_iff.mp read
    obtain ⟨rfl, rfl⟩ := Prod.mk.inj same
    have other : escaped ≠ 'u' := by
      rintro rfl
      cases found
    refine (readChar.eq_2 _ _ ?_).trans
      (Option.map_eq_some_iff.mpr ⟨value, found, rfl⟩)
    exact fun _ _ _ _ _ same => absurd same other
  | case3 plain tail noCode noEscape refused =>
    rw [readChar.eq_3 _ _ noCode noEscape, if_pos refused] at read
    cases read
  | case4 plain tail noCode noEscape accepted =>
    rw [readChar.eq_3 _ _ noCode noEscape, if_neg accepted] at read
    obtain ⟨rfl, rfl⟩ := Prod.mk.inj (Option.some.inj read)
    have other : plain ≠ '\\' := fun same => accepted (Or.inl same)
    refine (readChar.eq_3 _ _ ?_ ?_).trans (if_neg accepted)
    · exact fun _ _ _ _ _ same => absurd same other
    · exact fun _ _ same => absurd same other
  | case5 => cases read

theorem inlineChar_ascii {char : Char} (ascii : char.toNat < 128) :
    readChar (inlineChar char) = some (char, []) ∧
      (inlineChar char).head? ≠ some '"' ∧
        (inlineChar char ≠ [char] →
          ∀ other ∈ inlineChar char, isMarkChar other = false) := by
  have each : ∀ code < 128,
      readChar (inlineChar (Char.ofNat code)) =
          some (Char.ofNat code, []) ∧
        (inlineChar (Char.ofNat code)).head? ≠ some '"' ∧
          (inlineChar (Char.ofNat code) ≠ [Char.ofNat code] →
            (inlineChar (Char.ofNat code)).any isMarkChar = false) := by
    decide +kernel
  have here := each char.toNat ascii
  rw [Char.ofNat_toNat] at here
  exact ⟨here.1, here.2.1, fun changed other member =>
    eq_false_of_ne_true (List.any_eq_false.mp (here.2.2 changed) other member)⟩

theorem readString_inline {text : Text}
    (ascii : ∀ char ∈ text, char.toNat < 128) {steps : Nat}
    (enough : (text.flatMap inlineChar).length < steps) :
    readString steps (text.flatMap inlineChar ++ "\"\n".toList) =
      some (text, ['\n']) := by
  induction text generalizing steps with
  | nil =>
    cases steps with
    | zero => cases enough
    | succ steps => rfl
  | cons char rest ih =>
    obtain ⟨read, noQuote, -⟩ := inlineChar_ascii
      (ascii char List.mem_cons_self)
    have nonempty : inlineChar char ≠ [] := by
      intro empty
      rw [empty] at read
      cases read
    cases steps with
    | zero => cases enough
    | succ steps =>
      have positive := List.length_pos_iff.mpr nonempty
      rw [List.flatMap_cons, List.length_append] at enough
      rw [List.flatMap_cons, List.append_assoc, readString,
        List.head?_append_of_ne_nil _ nonempty, if_neg noQuote,
        readChar_append read, Option.bind_some, List.nil_append,
        ih (fun other member =>
          ascii other (List.mem_cons_of_mem _ member))
          (Nat.lt_of_lt_of_le (Nat.lt_add_of_pos_left positive)
            (Nat.le_of_lt_succ enough))]
      rfl

theorem literalValue_inline {text : Text}
    (ascii : ∀ char ∈ text, char.toNat < 128) :
    literalValue (jsonForInlineScript text) = some text := by
  have enough : (text.flatMap inlineChar).length <
      (jsonForInlineScript text).length := by
    rw [jsonForInlineScript_eq, List.length_cons, List.length_append]
    exact Nat.lt_succ_of_le (Nat.le_add_right _ _)
  have read := readString_inline ascii enough
  rw [jsonForInlineScript_eq] at read ⊢
  rw [literalValue, List.head?_cons, if_pos rfl, List.tail_cons, read]
  rfl

theorem infix_of_infix_append_right {literal front entry : Text}
    (foreign : ∀ char ∈ entry, char ∉ literal) (nonempty : literal ≠ [])
    (within : literal <:+: front ++ entry) : literal <:+: front := by
  rw [← List.reverse_infix] at within ⊢
  rw [List.reverse_append] at within
  refine infix_of_infix_append (fun char member isIn => ?_)
    (mt List.reverse_eq_nil_iff.mp nonempty) within
  exact foreign char (List.mem_reverse.mp member) (List.mem_reverse.mp isIn)

/-- What the script has for an ASCII character that does not stay. -/
def inlineTable : ReplacementTable Char := fun char =>
  if char.toNat < 128 ∧ inlineChar char ≠ [char] then
    some (inlineChar char)
  else none

theorem entriesApart_inlineTable (mark : Mark) :
    EntriesApart inlineTable mark.text := by
  intro char entry found
  unfold inlineTable at found
  split at found
  · next changed =>
      obtain rfl := Option.some.inj found
      obtain ⟨read, -, foreign⟩ := inlineChar_ascii changed.1
      refine ⟨fun empty => ?_, fun other member =>
        foreign_of_isMarkChar (foreign changed.2 other member) mark⟩
      rw [empty] at read
      cases read
  · cases found

/-- A mark in the literal of an ASCII source stands in the source. -/
theorem infix_of_infix_json {mark : Mark} {text : Text}
    (ascii : ∀ char ∈ text, char.toNat < 128)
    (within : mark.text <:+: jsonForInlineScript text) :
    mark.text <:+: text := by
  have replaced : text.flatMap inlineChar = replaceEach inlineTable text := by
    refine List.flatMap_congr fun char member => ?_
    unfold inlineTable
    by_cases same : inlineChar char = [char]
    · rw [if_neg fun both => both.2 same, same]
      rfl
    · rw [if_pos ⟨ascii char member, same⟩]
      rfl
  have quotes : ∀ char ∈ "\"\n".toList, char ∉ mark.text := by
    have foreign : "\"\n".toList.any isMarkChar = false := by decide
    exact fun char member => foreign_of_isMarkChar
      (eq_false_of_ne_true (List.any_eq_false.mp foreign char member)) mark
  rw [jsonForInlineScript_eq, replaced, ← List.singleton_append] at within
  have behind := infix_of_infix_append (fun char member =>
    quotes char (List.mem_singleton.mp member ▸ List.mem_cons_self))
      (text_ne_nil mark) within
  exact infix_of_infix_replaceEach (entriesApart_inlineTable mark)
    (text_ne_nil mark)
    (infix_of_infix_append_right quotes (text_ne_nil mark) behind)

/-- The editor shows an ASCII source without marks that come later. -/
theorem editHtml_showsSource (template : Template)
    {rawSource title topChrome : Text} (formAction : Text)
    (plain : IsPlain rawSource title topChrome) :
    ShowsSource template rawSource title topChrome formAction where
  document := by
    refine (foldl_substitute_fill template _ Mark.text).trans
      (congrArg template.fill (funext fun mark => ?_))
    cases mark with
    | title =>
      exact foldl_substitute_mark [] _ .title (by decide)
        fun mark member within =>
          plain.title mark member (infix_of_infix_escapeHtml within)
    | topChrome =>
      exact foldl_substitute_mark [.title] _ .topChrome (by decide)
        plain.topChrome
    | source =>
      exact foldl_substitute_mark [.title, .topChrome] _ .source (by decide)
        fun mark member within =>
          plain.source mark member (infix_of_infix_escapeHtml within)
    | sourceJson =>
      refine foldl_substitute_mark [.title, .topChrome, .source] _
        .sourceJson (by decide) fun mark member within =>
          plain.source mark (List.mem_cons_of_mem _ member)
            (infix_of_infix_json plain.ascii within)
    | formAction =>
      exact foldl_substitute_mark
        [.title, .topChrome, .source, .sourceJson] [] .formAction
        (by decide) fun _ member => by cases member
  field := literalValue_inline plain.ascii
  textarea := restoreEach_escapeHtml rawSource

def smallTemplate : Template where
  part := fun _ => "<p>".toList
  isFixed := fun _ =>
    ⟨'<', ['p'], '>', rfl, rfl, rfl, by intro mark; cases mark <;> decide⟩

theorem editHtml_showsSource_escaped :
    ShowsSource smallTemplate "TITLE: a < \"b\" & c\n".toList "A".toList
      "<nav>".toList "/app/a".toList := by
  have ascii : "TITLE: a < \"b\" & c\n".toList.all
      (fun char => decide (char.toNat < 128)) = true := by decide
  exact editHtml_showsSource smallTemplate "/app/a".toList
    ⟨fun char member =>
      of_decide_eq_true (List.all_eq_true.mp ascii char member),
      by decide, by decide, by decide⟩

/--
A source that has the mark of the form action is shown with the action in its
place, and one with a character beyond ASCII is read as its bytes.
-/
theorem marks_and_bytes_are_shown :
    editHtml smallTemplate "__FORM_ACTION__".toList "A".toList [] "/a".toList =
        "<p>A<p><p>/a<p>/a<p>\"/a\"\n<p>".toList ∧
      literalValue (jsonForInlineScript "é".toList) = some "Ã©".toList ∧
      ¬ ShowsSource smallTemplate "__FORM_ACTION__".toList "A".toList []
        "/a".toList ∧
      ¬ ShowsSource smallTemplate "é".toList "A".toList [] "/a".toList := by
  refine ⟨by decide +kernel, by decide +kernel, fun shows => ?_,
    fun shows => ?_⟩
  · exact absurd shows.document (by decide +kernel)
  · exact absurd shows.field (by decide +kernel)

end DeveloperDashboard.Web.EditPage
