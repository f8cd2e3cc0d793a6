import DeveloperDashboard.Perl.Words
import DeveloperDashboard.Library.Entries
import DeveloperDashboard.Perl.Literal
import Mathlib.Data.List.Sort

namespace DeveloperDashboard.Page

open Perl

/-!
# Writing the state of a page

The STASH section holds the state of a page in the notation of Perl literals.
-/

/--
A value in the state of a page.  A scalar is its string; the entries of a hash
stand in the order of `sort keys`.
-/
inductive StashValue where
  | undef
  | scalar (text : Text)
  | array (items : List StashValue)
  | hash (entries : List (Text × StashValue))

abbrev StashHash :=
  List (Text × StashValue)

/-- The pattern `\A-?\d+(?:\.\d+)?\z`. -/
def isDecimal (text : Text) : Bool :=
  let unsigned :=
    match text with
    | '-' :: rest => rest
    | _ => text
  let fraction := unsigned.dropWhile isDigit
  !(unsigned.takeWhile isDigit).isEmpty &&
    (fraction.isEmpty ||
      match fraction with
      | '.' :: digits => !digits.isEmpty && digits.all isDigit
      | _ => false)

/-- `_legacy_quote`: escape the backslashes, and then the quotes. -/
def legacyQuote (text : Text) : Text :=
  let escaped :=
    text.flatMap fun char =>
      if char = '\\' then ['\\', '\\'] else [char]
  escaped.flatMap fun char =>
    if char = '\'' then ['\\', '\''] else [char]

def legacyScalar (text : Text) : Text :=
  if isDecimal text then text
  else ['\''] ++ legacyQuote text ++ ['\'']

mutual

/-- `_legacy_value`. -/
def legacyValue : StashValue → Text
  | .undef => "undef".toList
  | .scalar text => legacyScalar text
  | .array items =>
    "[\n  ".toList ++ ",\n  ".toList.intercalate (legacyItems items) ++
      "\n]".toList
  | .hash entries =>
    "\x7b\n  ".toList ++
      ",\n  ".toList.intercalate (legacyPairs entries) ++
      "\n\x7d".toList

def legacyItems : List StashValue → List Text
  | [] => []
  | item :: rest => legacyValue item :: legacyItems rest

def legacyPairs : List (Text × StashValue) → List Text
  | [] => []
  | (key, value) :: rest =>
    (key ++ " => ".toList ++ legacyValue value) :: legacyPairs rest

end

/-- `_legacy_stash_text`. -/
def legacyStashText (state : StashHash) : Text :=
  ",\n".toList.intercalate (legacyPairs state)

@[simp] theorem legacyValue_scalar (text : Text) :
    legacyValue (.scalar text) = legacyScalar text :=
  rfl

@[simp] theorem legacyValue_array (items : List StashValue) :
    legacyValue (.array items) =
      "[\n  ".toList ++ ",\n  ".toList.intercalate (legacyItems items) ++
        "\n]".toList :=
  rfl

@[simp] theorem legacyValue_hash (entries : StashHash) :
    legacyValue (.hash entries) =
      "\x7b\n  ".toList ++
        ",\n  ".toList.intercalate (legacyPairs entries) ++
        "\n\x7d".toList :=
  rfl

@[simp] theorem legacyItems_cons
    (item : StashValue) (rest : List StashValue) :
    legacyItems (item :: rest) = legacyValue item :: legacyItems rest :=
  rfl

@[simp] theorem legacyPairs_cons
    (entry : Text × StashValue) (rest : StashHash) :
    legacyPairs (entry :: rest) =
      (entry.1 ++ " => ".toList ++ legacyValue entry.2) ::
        legacyPairs rest :=
  rfl

def EndsVisible (text : Text) : Prop :=
  ∃ front last, text = front ++ [last] ∧ isSpace last = false

theorem EndsVisible.append
    {back : Text} (ends : EndsVisible back) (front : Text) :
    EndsVisible (front ++ back) := by
  obtain ⟨before, last, rfl, shown⟩ := ends
  exact ⟨front ++ before, last, (List.append_assoc _ _ _).symm, shown⟩

variable {text : Text}

theorem EndsVisible.trimEnd (ends : EndsVisible text) :
    trimEnd text = text := by
  obtain ⟨front, last, rfl, shown⟩ := ends
  exact trimEnd_append_cons front shown []

theorem endsVisible_intercalate
    {glue : Text} {texts : List Text} (nonempty : texts ≠ [])
    (ends : ∀ text ∈ texts, EndsVisible text) :
    EndsVisible (glue.intercalate texts) := by
  induction texts with
  | nil => exact absurd rfl nonempty
  | cons text rest ih =>
    cases rest with
    | nil =>
      rw [List.intercalate_singleton]
      exact ends text List.mem_cons_self
    | cons next rest =>
      rw [List.intercalate_cons_cons]
      exact (ih (List.cons_ne_nil _ _)
        fun other isIn =>
          ends other (List.mem_cons_of_mem _ isIn)).append _

theorem isSpace_of_isDigit {char : Char} (digit : isDigit char = true) :
    isSpace char = false := by
  have codes :
      ∀ first ∈ decimalZeros,
        13 < first ∧ (0x200A < first ∨ first + 9 < 0x2000) ∧
          ∀ code ∈ [32, 0x85, 0xA0, 0x1680, 0x2028, 0x2029, 0x202F,
              0x205F, 0x3000],
            code < first ∨ first + 9 < code := by
    decide
  obtain ⟨first, isIn, range⟩ := List.any_eq_true.mp digit
  rw [decide_eq_true_eq] at range
  obtain ⟨control, spaces, single⟩ := codes first isIn
  simp only [List.forall_mem_cons, List.not_mem_nil, false_implies,
    implies_true, and_true] at single
  simp only [isSpace, Bool.or_eq_false_iff, decide_eq_false_iff_not]
  omega

theorem endsVisible_of_digits
    (nonempty : text ≠ []) (digits : text.all isDigit = true) :
    EndsVisible text := by
  refine ⟨text.dropLast, text.getLast nonempty,
    (List.dropLast_append_getLast nonempty).symm, isSpace_of_isDigit ?_⟩
  exact List.all_eq_true.mp digits _ (List.getLast_mem nonempty)

theorem endsVisible_of_isDecimal
    (number : isDecimal text = true) : EndsVisible text := by
  have unsigned (part : Text)
      (digits : (!(part.takeWhile isDigit).isEmpty) = true)
      (fraction :
        ((part.dropWhile isDigit).isEmpty ||
          match part.dropWhile isDigit with
          | '.' :: digits => !digits.isEmpty && digits.all isDigit
          | _ => false) = true) :
      EndsVisible part := by
    rw [← List.takeWhile_append_dropWhile (p := isDigit) (l := part)]
    cases rest : part.dropWhile isDigit with
    | nil =>
      rw [List.append_nil]
      refine endsVisible_of_digits ?_ List.all_takeWhile
      rintro empty
      rw [empty] at digits
      contradiction
    | cons char rest' =>
      rw [rest] at fraction
      refine EndsVisible.append ?_ _
      simp only [List.isEmpty_cons, Bool.false_or] at fraction
      split at fraction
      · next tail same =>
          obtain ⟨rfl, rfl⟩ := List.cons.inj same
          rw [Bool.and_eq_true] at fraction
          refine (endsVisible_of_digits ?_ fraction.2).append ['.']
          rintro rfl
          exact absurd fraction.1 (by decide)
      · contradiction
  unfold isDecimal at number
  split at number
  · rw [Bool.and_eq_true] at number
    exact (unsigned _ number.1 number.2).append ['-']
  · rw [Bool.and_eq_true] at number
    exact unsigned _ number.1 number.2

theorem endsVisible_legacyValue (value : StashValue) :
    EndsVisible (legacyValue value) := by
  cases value with
  | undef => exact ⟨"unde".toList, 'f', rfl, by decide⟩
  | scalar text =>
    rw [legacyValue_scalar, legacyScalar]
    split
    · next number => exact endsVisible_of_isDecimal number
    · exact ⟨_, '\'', rfl, by decide⟩
  | array items =>
    rw [legacyValue_array]
    exact EndsVisible.append ⟨['\n'], ']', rfl, by decide⟩ _
  | hash entries =>
    rw [legacyValue_hash]
    exact EndsVisible.append ⟨['\n'], '\x7d', rfl, by decide⟩ _

theorem trimEnd_legacyStashText (state : StashHash) :
    trimEnd (legacyStashText state) = legacyStashText state := by
  have pairs (entries : StashHash) :
      ∀ text ∈ legacyPairs entries, EndsVisible text := by
    induction entries with
    | nil => exact fun _ isIn => absurd isIn List.not_mem_nil
    | cons entry rest ih =>
      intro text isIn
      rw [legacyPairs_cons] at isIn
      rcases List.mem_cons.mp isIn with rfl | later
      · exact (endsVisible_legacyValue entry.2).append _
      · exact ih text later
  cases state with
  | nil => rfl
  | cons entry rest =>
    refine (endsVisible_intercalate ?_ (pairs (entry :: rest))).trimEnd
    rw [legacyPairs_cons]
    exact List.cons_ne_nil _ _

open Library

/-!
# Reading the state of a page

The STASH section is evaluated in a compartment whose opcodes build constants,
arrays and hashes only: it takes quoted strings, unsigned numbers, words before
an arrow, `undef`, and lists of these, and refuses any other source text.
-/

def isSourceSpace (char : Char) : Bool :=
  decide (9 ≤ char.toNat ∧ char.toNat ≤ 13) || char = ' '

def skipSpace (source : Text) : Text :=
  source.dropWhile isSourceSpace

def isWordChar (char : Char) : Bool :=
  char.isAlphanum || char = '_'

def isNumberChar (char : Char) : Bool :=
  isDigit char || char ∈ ['.', 'e', '+', '-']

/-- A single quoted string after its first quote. -/
def readQuoted : Text → Option (Text × Text)
  | '\'' :: rest => some ([], rest)
  | '\\' :: '\\' :: rest =>
    (readQuoted rest).map fun read => ('\\' :: read.1, read.2)
  | '\\' :: '\'' :: rest =>
    (readQuoted rest).map fun read => ('\'' :: read.1, read.2)
  | char :: rest =>
    (readQuoted rest).map fun read => (char :: read.1, read.2)
  | [] => none

def operandEnds (source : Text) : Bool :=
  source.head?.all fun char =>
    isSourceSpace char || char ∈ [',', '=', ']', '\x7d']

def readNumber (source : Text) : Option (StashValue × Text) :=
  let rest := source.dropWhile isNumberChar
  if operandEnds rest then
    (numberLiteral? (source.takeWhile isNumberChar)).map
      fun text => (.scalar text, rest)
  else none

/-- A word: the string of a word before an arrow, or `undef`. -/
def readWord (source : Text) : Option (StashValue × Text) :=
  let word := source.takeWhile isWordChar
  let rest := source.dropWhile isWordChar
  if word = [] || decide (252 < word.length) then none
  else if "=>".toList.isPrefixOf (skipSpace rest) then
    some (.scalar word, rest)
  else if word = "undef".toList && operandEnds rest then
    some (.undef, rest)
  else none

def afterComma : Text → Option Text
  | ',' :: rest => some rest
  | '=' :: '>' :: rest => some rest
  | _ => none

/-- What follows more commas, for as many as there can be. -/
def skipCommas : Nat → Text → Text
  | 0, source => source
  | fuel + 1, source =>
    match afterComma (skipSpace source) with
    | some rest => skipCommas fuel rest
    | none => source

def keyText : StashValue → Option Text
  | .undef => some []
  | .scalar text => some text
  | _ => none

/-- The entries of an anonymous hash; a later one replaces an earlier one. -/
def buildHash (entries : StashHash) : List StashValue → Option StashHash
  | [] => some entries
  | [key] =>
    (keyText key).map fun text => Entries.store entries text .undef
  | key :: value :: rest =>
    match keyText key with
    | some text => buildHash (Entries.store entries text value) rest
    | none => none

/-- An anonymous hash, its entries in the order of `sort keys`. -/
def anonymousHash (items : List StashValue) : Option StashHash :=
  (buildHash [] items).map fun entries =>
    entries.insertionSort fun left right => left.1 ≤ right.1

mutual

/-- One operand, with room for so many ones inside each other. -/
def readOperand : Nat → Text → Option (StashValue × Text)
  | 0, _ => none
  | fuel + 1, source =>
    match source with
    | '\'' :: rest =>
      (readQuoted rest).map fun read => (.scalar read.1, read.2)
    | '[' :: rest =>
      (readList fuel ']' rest).map fun read => (.array read.1, read.2)
    | '\x7b' :: rest =>
      match readList fuel '\x7d' rest with
      | some (items, rest) =>
        (anonymousHash items).map fun entries => (.hash entries, rest)
      | none => none
    | char :: _ => if isDigit char then readNumber source else readWord source
    | [] => none

def readList : Nat → Char → Text → Option (List StashValue × Text)
  | 0, _, _ => none
  | fuel + 1, close, source =>
    match skipSpace source with
    | [] => none
    | char :: rest =>
      if char = close then some ([], rest)
      else
        match readOperand fuel (char :: rest) with
        | none => none
        | some (item, rest) =>
          match afterComma (skipSpace rest) with
          | some rest =>
            (readList fuel close (skipCommas rest.length rest)).map
              fun read => (item :: read.1, read.2)
          | none =>
            match skipSpace rest with
            | char :: rest =>
              if char = close then some ([item], rest) else none
            | [] => none

end

/-- `_safe_eval_stash_literal`: the value of `+{ text }`, if it is a hash. -/
def safeEvalStashLiteral (text : Text) : Option StashHash :=
  let source := text ++ [' ', '\x7d']
  match readList (source.length + 1) '\x7d' source with
  | some (items, rest) =>
    if rest = [] then anonymousHash items else none
  | none => none

/--
`_decode_stash_section`, without its cache.  `decodeJson` is the hash that a
JSON text decodes to.
-/
def decodeStashSection
    (decodeJson : Text → Option StashHash) (text : Text) : StashHash :=
  match trim text with
  | [] => []
  | char :: rest =>
    if char = '\x7b' || char = '[' then
      (decodeJson (char :: rest)).getD []
    else (safeEvalStashLiteral (char :: rest)).getD []

end DeveloperDashboard.Page
