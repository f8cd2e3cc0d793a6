import DeveloperDashboard.Page.StashText

namespace DeveloperDashboard.Page

open Library Perl

/-!
# What the state of a page is read back as

A key is written bare and a number as it is, so both are read by the grammar
of Perl literals.  A state comes back exactly when this grammar reads every
one of its numbers as the text that was written.
-/

mutual

def everywhere
    (atHash : StashHash → Bool) (atScalar : Text → Bool) :
    StashValue → Bool
  | .undef => true
  | .scalar text => atScalar text
  | .array items => everywhereItems atHash atScalar items
  | .hash entries =>
    atHash entries && everywherePairs atHash atScalar entries

def everywhereItems (atHash : StashHash → Bool) (atScalar : Text → Bool) :
    List StashValue → Bool
  | [] => true
  | item :: rest =>
    everywhere atHash atScalar item &&
      everywhereItems atHash atScalar rest

def everywherePairs (atHash : StashHash → Bool) (atScalar : Text → Bool) :
    List (Text × StashValue) → Bool
  | [] => true
  | (_, value) :: rest =>
    everywhere atHash atScalar value &&
      everywherePairs atHash atScalar rest

end

/-- Whether the keys of a hash are distinct, in the order of `sort keys`. -/
def keysSorted (entries : StashHash) : Bool :=
  decide ((entries.map Prod.fst).Pairwise (· < ·))

def isWord (key : Text) : Bool :=
  key.head?.any (fun char => !isDigit char) && key.all isWordChar &&
    decide (key.length ≤ 252)

def isNumberText (text : Text) : Bool :=
  decide (numberLiteral? text = some text)

/-- Whether a key is a word, or a number as Perl prints it. -/
def isPlainKey (key : Text) : Bool :=
  isWord key || isNumberText key

def keysPlain (entries : StashHash) : Bool :=
  entries.all fun entry => isPlainKey entry.1

/-- Whether a scalar that is written as a number is read as its text. -/
def numberPlain (text : Text) : Bool :=
  !isDecimal text || isNumberText text

/-- A state: its keys, at every depth, in the order in which it is written. -/
def IsState (state : StashHash) : Prop :=
  everywhere keysSorted (fun _ => true) (.hash state) = true

def PlainKeys (state : StashHash) : Prop :=
  everywhere keysPlain (fun _ => true) (.hash state) = true

def PlainNumbers (state : StashHash) : Prop :=
  everywhere (fun _ => true) numberPlain (.hash state) = true

mutual

def rereadValue : StashValue → Option StashValue
  | .undef => some .undef
  | .scalar text =>
    if isDecimal text then (numberLiteral? text).map .scalar
    else some (.scalar text)
  | .array items => (rereadItems items).map .array
  | .hash entries => (rereadPairs entries).map .hash

/-- The values that the texts of an array are read as. -/
def rereadItems : List StashValue → Option (List StashValue)
  | [] => some []
  | item :: rest =>
    (rereadValue item).bind fun value =>
      (rereadItems rest).map (value :: ·)

def rereadPairs : List (Text × StashValue) → Option StashHash
  | [] => some []
  | (key, value) :: rest =>
    (rereadValue value).bind fun value =>
      (rereadPairs rest).map ((key, value) :: ·)

end

theorem legacyQuote_cons (char : Char) (text : Text) :
    legacyQuote (char :: text) =
      (if char = '\\' then ['\\', '\\']
        else if char = '\'' then ['\\', '\''] else [char]) ++
        legacyQuote text := by
  simp only [legacyQuote, List.flatMap_cons]
  by_cases backslash : char = '\\'
  · subst backslash
    simp
  · by_cases quote : char = '\''
    · subst quote
      simp
    · simp [backslash, quote]

theorem readQuoted_legacyQuote (text rest : Text) :
    readQuoted (legacyQuote text ++ '\'' :: rest) = some (text, rest) := by
  induction text with
  | nil => rfl
  | cons char text ih =>
    rw [legacyQuote_cons]
    by_cases backslash : char = '\\'
    · subst backslash
      simp [readQuoted, ih]
    · by_cases quote : char = '\''
      · subst quote
        simp [readQuoted, ih]
      · simp [backslash, quote, readQuoted, ih]

variable {char : Char}

theorem isNumberChar_of_ascii (digit : char.isDigit = true) :
    isNumberChar char = true := by
  rw [isNumberChar, isDigit_of_ascii digit, Bool.true_or]

theorem all_isNumberChar_of_digits
    {digits : Text} (all : digits.all Char.isDigit = true) :
    digits.all isNumberChar = true :=
  List.all_eq_true.mpr fun digit isIn =>
    isNumberChar_of_ascii (List.all_eq_true.mp all digit isIn)

variable {text : Text}

theorem all_isNumberChar_of_exponent
    {power : ℤ} (read : exponentValue? text = some power) :
    text.all isNumberChar = true := by
  unfold exponentValue? at read
  split at read
  · rfl
  · next sign digit digits =>
      split at read
      · next all =>
          have digitChars := all_isNumberChar_of_digits all
          have signChar : isNumberChar sign = true := by
            dsimp only at read
            split at read
            · decide
            · decide
            · contradiction
          rw [List.all_cons, List.all_cons, signChar, digitChars]
          decide
      · contradiction
  · contradiction

theorem all_isNumberChar_of_splitFraction
    (exponent : (splitFraction text).2.all isNumberChar = true) :
    text.all isNumberChar = true := by
  unfold splitFraction at exponent
  split at exponent
  · next rest =>
      rw [List.all_cons,
        ← List.takeWhile_append_dropWhile (p := Char.isDigit) (l := rest),
        List.all_append,
        all_isNumberChar_of_digits List.all_takeWhile, exponent]
      decide
  · exact exponent

theorem all_isNumberChar_of_numberLiteral
    {literal : Text} (read : numberLiteral? literal = some text) :
    literal.all isNumberChar = true := by
  have whole :
      (literal.takeWhile Char.isDigit).all isNumberChar = true :=
    all_isNumberChar_of_digits List.all_takeWhile
  rw [← List.takeWhile_append_dropWhile (p := Char.isDigit) (l := literal),
    List.all_append, whole, Bool.true_and]
  unfold numberLiteral? at read
  dsimp only at read
  split at read
  · contradiction
  · next empty => rw [empty, List.all_nil]
  · contradiction
  · split at read
    · contradiction
    · split at read
      · next empty => rw [empty, List.all_nil]
      · obtain ⟨power, exponent, -⟩ := Option.map_eq_some_iff.mp read
        exact all_isNumberChar_of_splitFraction
          (all_isNumberChar_of_exponent exponent)

theorem head_of_numberLiteral
    {literal : Text} (read : numberLiteral? literal = some text) :
    ∃ char rest, literal = char :: rest ∧ char.isDigit = true := by
  cases literal with
  | nil => contradiction
  | cons char rest =>
    refine ⟨char, rest, rfl, ?_⟩
    by_contra other
    rw [numberLiteral?, List.takeWhile_cons_of_neg other] at read
    contradiction

/-- A character that neither ends an operand nor stands between two. -/
def isOperandChar (char : Char) : Bool :=
  !operandEnds [char]

def endCodes : List Nat :=
  [9, 10, 11, 12, 13, 32, 44, 61, 93, 125]

theorem isOperandChar_of_class {holds : Char → Bool}
    (apart : ∀ code ∈ endCodes, holds (Char.ofNat code) = false)
    (isIn : holds char = true) :
    isOperandChar char = true := by
  by_contra other
  have ends : operandEnds [char] = true := by
    simpa [isOperandChar] using other
  have code : char.toNat ∈ endCodes := by
    simp only [operandEnds, isSourceSpace, List.head?_cons,
      Option.all_some, Bool.or_eq_true, decide_eq_true_eq,
      List.mem_cons, List.not_mem_nil, or_false] at ends
    rcases ends with (control | rfl) | rfl | rfl | rfl | rfl
    · simp only [endCodes, List.mem_cons, List.not_mem_nil, or_false]
      omega
    all_goals decide
  have other := apart _ code
  rw [Char.ofNat_toNat, isIn] at other
  contradiction

theorem isOperandChar_of_isNumberChar (number : isNumberChar char = true) :
    isOperandChar char = true :=
  isOperandChar_of_class (by decide) number

theorem isOperandChar_of_isWordChar (word : isWordChar char = true) :
    isOperandChar char = true :=
  isOperandChar_of_class (by decide) word

theorem span_operand {holds : Char → Bool} (operand rest : Text)
    (apart : ∀ char, holds char = true → isOperandChar char = true)
    (all : operand.all holds = true) (ends : operandEnds rest = true) :
    (operand ++ rest).takeWhile holds = operand ∧
      (operand ++ rest).dropWhile holds = rest := by
  have inside := List.all_eq_true.mp all
  rw [List.takeWhile_append_of_pos inside,
    List.dropWhile_append_of_pos inside]
  cases rest with
  | nil => exact ⟨List.append_nil operand, rfl⟩
  | cons char rest =>
    have stops : ¬ holds char = true := by
      intro isIn
      have := apart char isIn
      simp only [isOperandChar, Bool.not_eq_true'] at this
      exact absurd ends (Bool.eq_false_iff.mp this)
    rw [List.takeWhile_cons_of_neg stops, List.dropWhile_cons_of_neg stops]
    exact ⟨List.append_nil operand, rfl⟩

theorem operandEnds_cons (isIn : isOperandChar char = true) (rest : Text) :
    operandEnds (char :: rest) = false :=
  (Bool.not_eq_true' _).mp isIn

theorem readNumber_append {rest : Text} (all : text.all isNumberChar = true)
    (ends : operandEnds rest = true) :
    readNumber (text ++ rest) =
      (numberLiteral? text).map fun read => (.scalar read, rest) := by
  obtain ⟨number, other⟩ :=
    span_operand text rest (fun _ => isOperandChar_of_isNumberChar) all
      ends
  rw [readNumber, number, other, if_pos ends]

theorem readOperand_of_isDigit
    (digit : isDigit char = true) (fuel : Nat) (rest : Text) :
    readOperand (fuel + 1) (char :: rest) = readNumber (char :: rest) := by
  have apart {other : Char} (isOther : isDigit other = false) :
      char ≠ other := by
    rintro rfl
    rw [digit] at isOther
    contradiction
  rw [readOperand, if_pos digit]
  all_goals exact apart (by decide)

theorem decimals_of_fraction {fraction : Text}
    (read :
      (match fraction with
        | '.' :: digits => !digits.isEmpty && digits.all isDigit
        | _ => false) = true) :
    ∃ digits, fraction = '.' :: digits ∧ digits.all isDigit = true := by
  split at read
  · next digits =>
      exact ⟨digits, rfl, ((Bool.and_eq_true _ _).mp read).2⟩
  · contradiction

theorem chars_of_isDecimal (number : isDecimal text = true) :
    text.all isNumberChar = true ∧
      ∃ char rest, text = char :: rest ∧
        (isDigit char = true ∨ char = '-') := by
  have digits {part : Text} (all : part.all isDigit = true) :
      part.all isNumberChar = true :=
    List.all_eq_true.mpr fun char isIn => by
      rw [isNumberChar, List.all_eq_true.mp all char isIn, Bool.true_or]
  have unsigned {part : Text}
      (whole : (!(part.takeWhile isDigit).isEmpty) = true)
      (fraction :
        part.dropWhile isDigit = [] ∨
          ∃ digits, part.dropWhile isDigit = '.' :: digits ∧
            digits.all isDigit = true) :
      part.all isNumberChar = true ∧
        ∃ char rest, part = char :: rest ∧ isDigit char = true := by
    constructor
    · rw [← List.takeWhile_append_dropWhile (p := isDigit) (l := part),
        List.all_append, digits List.all_takeWhile, Bool.true_and]
      rcases fraction with none_ | ⟨decimals, rest, all⟩
      · rw [none_]
        rfl
      · rw [rest, List.all_cons, digits all]
        decide
    · cases part with
      | nil => contradiction
      | cons char rest =>
        refine ⟨char, rest, rfl, ?_⟩
        by_contra other
        rw [List.takeWhile_cons_of_neg other] at whole
        contradiction
  unfold isDecimal at number
  rw [Bool.and_eq_true, Bool.or_eq_true, List.isEmpty_iff] at number
  obtain ⟨whole, fraction⟩ := number
  have parts := unsigned whole (fraction.imp_right decimals_of_fraction)
  split at parts
  · next rest =>
      rw [List.all_cons, parts.1]
      exact ⟨by decide, '-', rest, rfl, Or.inr rfl⟩
  · obtain ⟨all, char, rest, rfl, digit⟩ := parts
    exact ⟨all, char, rest, rfl, Or.inl digit⟩

theorem readOperand_of_isDecimal
    {rest : Text} (number : isDecimal text = true)
    (ends : operandEnds rest = true) (fuel : Nat) :
    readOperand (fuel + 1) (text ++ rest) =
      (numberLiteral? text).map fun read => (.scalar read, rest) := by
  obtain ⟨all, char, tail, rfl, digit | rfl⟩ := chars_of_isDecimal number
  · rw [List.cons_append, readOperand_of_isDigit digit,
      ← List.cons_append, readNumber_append all ends]
  · rfl

variable {key : Text}

theorem chars_of_isWord (word : isWord key = true) :
    key.all isWordChar = true ∧ key.length ≤ 252 ∧
      ∃ char rest, key = char :: rest ∧ isDigit char = false := by
  simp only [isWord, Bool.and_eq_true, decide_eq_true_eq] at word
  obtain ⟨⟨head, all⟩, short⟩ := word
  cases key with
  | nil => contradiction
  | cons char rest =>
    exact ⟨all, short, char, rest, rfl, (Bool.not_eq_true' _).mp head⟩

theorem readOperand_of_isWordChar (word : isWordChar char = true)
    (notDigit : isDigit char = false) (fuel : Nat) (rest : Text) :
    readOperand (fuel + 1) (char :: rest) = readWord (char :: rest) := by
  have apart {other : Char} (isOther : isWordChar other = false) :
      char ≠ other := by
    rintro rfl
    rw [word] at isOther
    contradiction
  rw [readOperand, if_neg (by simp [notDigit])]
  all_goals exact apart (by decide)

theorem readOperand_undef {rest : Text} (ends : operandEnds rest = true)
    (noArrow : "=>".toList.isPrefixOf (skipSpace rest) = false)
    (fuel : Nat) :
    readOperand (fuel + 1) ("undef".toList ++ rest) =
      some (.undef, rest) := by
  obtain ⟨word, other⟩ :=
    span_operand "undef".toList rest
      (fun _ => isOperandChar_of_isWordChar) (by decide) ends
  have starts :
      readOperand (fuel + 1) ("undef".toList ++ rest) =
        readWord ("undef".toList ++ rest) :=
    readOperand_of_isWordChar (by decide) (by decide) fuel _
  rw [starts, readWord, word, other]
  rw [if_neg (by decide), if_neg (by rw [noArrow]; decide),
    if_pos (by rw [ends]; decide)]

theorem readOperand_key (plain : isPlainKey key = true) (fuel : Nat)
    (more : Text) :
    readOperand (fuel + 1) (key ++ (" => ".toList ++ more)) =
      some (.scalar key, " => ".toList ++ more) := by
  rw [isPlainKey, Bool.or_eq_true] at plain
  rcases plain with wordKey | number
  · obtain ⟨all, short, char, rest, rfl, notDigit⟩ :=
      chars_of_isWord wordKey
    obtain ⟨word, other⟩ :=
      span_operand _ (" => ".toList ++ more)
        (fun _ => isOperandChar_of_isWordChar) all rfl
    rw [List.cons_append, readOperand_of_isWordChar
      (List.all_eq_true.mp all char List.mem_cons_self) notDigit,
      ← List.cons_append, readWord, word, other]
    have arrow :
        "=>".toList.isPrefixOf (skipSpace (" => ".toList ++ more)) = true :=
      rfl
    rw [if_neg (by simpa using short), if_pos arrow]
  · have read : numberLiteral? key = some key := of_decide_eq_true number
    have all := all_isNumberChar_of_numberLiteral read
    obtain ⟨char, rest, same, digit⟩ := head_of_numberLiteral read
    have starts :
        readOperand (fuel + 1) (key ++ (" => ".toList ++ more)) =
          readNumber (key ++ (" => ".toList ++ more)) := by
      rw [same]
      exact readOperand_of_isDigit (isDigit_of_ascii digit) fuel _
    rw [starts, readNumber_append all rfl, read]
    rfl

theorem head_of_isPlainKey (plain : isPlainKey key = true) :
    ∃ char rest, key = char :: rest ∧ isWordChar char = true := by
  rw [isPlainKey, Bool.or_eq_true] at plain
  rcases plain with wordKey | number
  · obtain ⟨all, -, char, rest, rfl, -⟩ := chars_of_isWord wordKey
    exact ⟨char, rest, rfl, List.all_eq_true.mp all char List.mem_cons_self⟩
  · obtain ⟨char, rest, same, digit⟩ :=
      head_of_numberLiteral (of_decide_eq_true number)
    refine ⟨char, rest, same, ?_⟩
    rw [isWordChar, Char.isAlphanum, digit, Bool.or_true, Bool.true_or]

theorem operandEnds_key (plain : isPlainKey key = true) (more : Text) :
    operandEnds (key ++ more) = false := by
  obtain ⟨char, rest, rfl, word⟩ := head_of_isPlainKey plain
  exact operandEnds_cons (isOperandChar_of_isWordChar word) _

theorem operandEnds_legacyValue (value : StashValue) (more : Text) :
    operandEnds (legacyValue value ++ more) = false := by
  cases value with
  | undef => rfl
  | scalar text =>
    rw [legacyValue_scalar, legacyScalar]
    split
    · next number =>
        obtain ⟨all, char, rest, rfl, -⟩ := chars_of_isDecimal number
        exact operandEnds_cons (isOperandChar_of_isNumberChar
          (List.all_eq_true.mp all char List.mem_cons_self)) _
    · rfl
  | array items => rfl
  | hash entries => rfl

variable {space : Text}

theorem skipSpace_append (blank : space.all isSourceSpace = true)
    (begins : operandEnds text = false) :
    skipSpace (space ++ text) = text := by
  rw [skipSpace, List.dropWhile_append_of_pos
    (List.all_eq_true.mp blank)]
  cases text with
  | nil => contradiction
  | cons char rest =>
    refine List.dropWhile_cons_of_neg ?_
    intro isSpace
    rw [operandEnds, List.head?_cons, Option.all_some, isSpace,
      Bool.true_or] at begins
    contradiction

theorem afterComma_of_begins (begins : operandEnds text = false) :
    afterComma text = none := by
  unfold afterComma
  split
  · contradiction
  · contradiction
  · rfl

theorem skipCommas_append (blank : space.all isSourceSpace = true)
    (begins : operandEnds text = false) (fuel : Nat) :
    skipCommas fuel (space ++ text) = space ++ text := by
  cases fuel with
  | zero => rfl
  | succ fuel =>
    rw [skipCommas, skipSpace_append blank begins,
      afterComma_of_begins begins]

def IsBracket (close : Char) : Prop :=
  close = ']' ∨ close = '\x7d'

variable {close : Char}

theorem exists_of_begins (bracket : IsBracket close)
    (begins : operandEnds text = false) :
    ∃ char rest, text = char :: rest ∧ char ≠ close := by
  cases text with
  | nil => contradiction
  | cons char rest =>
    refine ⟨char, rest, rfl, ?_⟩
    rintro rfl
    rcases bracket with rfl | rfl
    · contradiction
    · contradiction

theorem readList_close {source after : Text}
    (closes : skipSpace source = close :: after) (fuel : Nat) :
    readList (fuel + 1) close source = some ([], after) := by
  rw [readList, closes]
  exact if_pos rfl

variable {fuel : Nat}

theorem readList_none
    (bracket : IsBracket close) (blank : space.all isSourceSpace = true)
    (begins : operandEnds text = false)
    (read : readOperand fuel text = none) :
    readList (fuel + 1) close (space ++ text) = none := by
  obtain ⟨char, rest, rfl, apart⟩ := exists_of_begins bracket begins
  rw [readList, skipSpace_append blank begins]
  simp only [if_neg apart, read]

theorem readList_comma {rest after : Text} {item : StashValue}
    (bracket : IsBracket close) (blank : space.all isSourceSpace = true)
    (begins : operandEnds text = false)
    (read : readOperand fuel text = some (item, rest)) (next : Text)
    (comma : afterComma (skipSpace rest) = some (next ++ after))
    (nextBlank : next.all isSourceSpace = true)
    (nextBegins : operandEnds after = false) :
    readList (fuel + 1) close (space ++ text) =
      (readList fuel close (next ++ after)).map
        fun read => (item :: read.1, read.2) := by
  obtain ⟨char, tail, rfl, apart⟩ := exists_of_begins bracket begins
  rw [readList, skipSpace_append blank begins]
  simp only [if_neg apart, read, comma,
    skipCommas_append nextBlank nextBegins]

theorem readList_last {rest after : Text} {item : StashValue}
    (bracket : IsBracket close) (blank : space.all isSourceSpace = true)
    (begins : operandEnds text = false)
    (read : readOperand fuel text = some (item, rest))
    (closes : skipSpace rest = close :: after) :
    readList (fuel + 1) close (space ++ text) = some ([item], after) := by
  obtain ⟨char, tail, rfl, apart⟩ := exists_of_begins bracket begins
  have noComma : afterComma (close :: after) = none := by
    rcases bracket with rfl | rfl
    · rfl
    · rfl
  rw [readList, skipSpace_append blank begins]
  simp only [if_neg apart, read, closes, noComma, if_true]

def hashOperands (entries : StashHash) : List StashValue :=
  entries.flatMap fun entry => [.scalar entry.1, entry.2]

/-- New keys are added at the end. -/
theorem buildHash_hashOperands (entries done : StashHash)
    (distinct : ((done ++ entries).map Prod.fst).Nodup) :
    buildHash done (hashOperands entries) = some (done ++ entries) := by
  induction entries generalizing done with
  | nil => rw [List.append_nil]; rfl
  | cons entry rest ih =>
    obtain ⟨key, value⟩ := entry
    have absent : Entries.lookup done key = none := by
      rw [Entries.lookup_eq_none_iff]
      intro present
      rw [List.map_append, List.map_cons] at distinct
      exact List.disjoint_of_nodup_append distinct present
        List.mem_cons_self
    have stored :
        Entries.store done key value = done ++ [(key, value)] :=
      Entries.store_of_lookup_eq_none absent value
    have step :
        buildHash done (hashOperands ((key, value) :: rest)) =
          buildHash (Entries.store done key value)
            (hashOperands rest) :=
      rfl
    rw [step, stored, ih]
    · rw [List.append_assoc, List.singleton_append]
    · rw [List.append_assoc, List.singleton_append]
      exact distinct

variable {entries : StashHash}

theorem anonymousHash_hashOperands (sorted : keysSorted entries = true) :
    anonymousHash (hashOperands entries) = some entries := by
  have ascending : (entries.map Prod.fst).Pairwise (· < ·) :=
    of_decide_eq_true sorted
  have distinct : (entries.map Prod.fst).Nodup := by
    refine ascending.imp fun {left right} before => ?_
    rintro rfl
    exact List.lt_asymm before before
  have inOrder :
      entries.Pairwise fun left right => left.1 ≤ right.1 :=
    (List.pairwise_map.mp ascending).imp fun before => le_of_lt before
  rw [anonymousHash, buildHash_hashOperands entries [] distinct,
    Option.map_some, List.nil_append, inOrder.insertionSort_eq]

def listText
    (glue : Text) (texts : List Text) (blank close : Char) (after : Text) :
    Text :=
  glue.intercalate texts ++ blank :: close :: after

structure FollowsValue (rest : Text) : Prop where
  ends : operandEnds rest = true
  noArrow : "=>".toList.isPrefixOf (skipSpace rest) = false

theorem listText_cons {spaces : Text} (text next : Text) (texts : List Text)
    (blank close : Char) (after : Text) :
    listText (',' :: spaces) (text :: next :: texts) blank close after =
      text ++ ',' :: (spaces ++
        listText (',' :: spaces) (next :: texts) blank close after) := by
  simp only [listText, List.intercalate_cons_cons, List.append_assoc,
    List.cons_append]

theorem listText_singleton
    (glue text : Text) (blank close : Char) (after : Text) :
    listText glue [text] blank close after =
      text ++ blank :: close :: after := by
  rw [listText, List.intercalate_singleton]

theorem followsValue_comma (rest : Text) : FollowsValue (',' :: rest) :=
  ⟨rfl, rfl⟩

theorem skipSpace_close {blank : Char} (isBlank : isSourceSpace blank = true)
    (bracket : IsBracket close) (after : Text) :
    skipSpace (blank :: close :: after) = close :: after := by
  rw [skipSpace, List.dropWhile_cons_of_pos isBlank]
  rcases bracket with rfl | rfl
  · rfl
  · rfl

theorem followsValue_close
    {blank : Char} (isBlank : isSourceSpace blank = true)
    (bracket : IsBracket close) (after : Text) :
    FollowsValue (blank :: close :: after) := by
  constructor
  · rw [operandEnds, List.head?_cons, Option.all_some, isBlank, Bool.true_or]
  · rw [skipSpace_close isBlank bracket]
    rcases bracket with rfl | rfl
    · rfl
    · rfl

theorem operandEnds_listText
    (begins : ∀ more, operandEnds (text ++ more) = false)
    (spaces : Text) (texts : List Text) (blank close : Char) (after : Text) :
    operandEnds
      (listText (',' :: spaces) (text :: texts) blank close after) =
        false := by
  cases texts with
  | nil =>
    rw [listText_singleton]
    exact begins _
  | cons next texts =>
    rw [listText_cons]
    exact begins _

theorem readList_value {spaces after : Text} {texts : List Text}
    {blank : Char} {value : Option StashValue}
    {others : Option (List StashValue)}
    (isBlank : isSourceSpace blank = true) (bracket : IsBracket close)
    (blanks : spaces.all isSourceSpace = true)
    (before : space.all isSourceSpace = true)
    (begins : ∀ more, ∀ next ∈ text :: texts,
      operandEnds (next ++ more) = false)
    (read : ∀ rest, FollowsValue rest →
      readOperand fuel (text ++ rest) =
        value.map fun read => (read, rest))
    (last : texts = [] → others = some [])
    (tail : texts ≠ [] →
      readList fuel close
          (spaces ++ listText (',' :: spaces) texts blank close after) =
        others.map fun read => (read, after)) :
    readList (fuel + 1) close
        (space ++
          listText (',' :: spaces) (text :: texts) blank close after) =
      (value.bind fun read => others.map (read :: ·)).map
        fun read => (read, after) := by
  have textBegins (more : Text) : operandEnds (text ++ more) = false :=
    begins more text List.mem_cons_self
  cases texts with
  | nil =>
    have read := read _ (followsValue_close isBlank bracket after)
    rw [listText_singleton, last rfl]
    cases value with
    | none => exact readList_none bracket before (textBegins _) read
    | some value =>
      exact readList_last bracket before (textBegins _) read
        (skipSpace_close isBlank bracket after)
  | cons next texts =>
    have read := read _ (followsValue_comma
      (spaces ++ listText (',' :: spaces) (next :: texts) blank close
        after))
    rw [listText_cons]
    cases value with
    | none => exact readList_none bracket before (textBegins _) read
    | some value =>
      have nextBegins :=
        operandEnds_listText
          (fun more => begins more next
            (List.mem_cons_of_mem _ List.mem_cons_self))
          spaces texts blank close after
      rw [readList_comma bracket before (textBegins _) read spaces rfl
        blanks nextBegins, tail (List.cons_ne_nil _ _)]
      cases others with
      | none => rfl
      | some others => rfl

theorem legacyItems_eq_map (items : List StashValue) :
    legacyItems items = items.map legacyValue := by
  induction items with
  | nil => rfl
  | cons item rest ih =>
    rw [legacyItems_cons, ih, List.map_cons]

theorem legacyPairs_eq_map (entries : StashHash) :
    legacyPairs entries =
      entries.map fun entry =>
        entry.1 ++ " => ".toList ++ legacyValue entry.2 := by
  induction entries with
  | nil => rfl
  | cons entry rest ih =>
    rw [legacyPairs_cons, ih, List.map_cons]

theorem operandEnds_of_mem_legacyItems (items : List StashValue)
    (isIn : text ∈ legacyItems items) (more : Text) :
    operandEnds (text ++ more) = false := by
  rw [legacyItems_eq_map] at isIn
  obtain ⟨item, -, rfl⟩ := List.mem_map.mp isIn
  exact operandEnds_legacyValue item more

theorem operandEnds_of_mem_legacyPairs (keys : keysPlain entries = true)
    (isIn : text ∈ legacyPairs entries) (more : Text) :
    operandEnds (text ++ more) = false := by
  rw [legacyPairs_eq_map] at isIn
  obtain ⟨entry, isEntry, rfl⟩ := List.mem_map.mp isIn
  rw [List.append_assoc, List.append_assoc]
  exact operandEnds_key (List.all_eq_true.mp keys entry isEntry) _

theorem listText_append
    (glue front text : Text) (texts : List Text) (blank close : Char)
    (after : Text) :
    listText glue ((front ++ text) :: texts) blank close after =
      front ++ listText glue (text :: texts) blank close after := by
  cases texts with
  | nil =>
    rw [listText_singleton, listText_singleton, List.append_assoc]
  | cons next texts =>
    simp only [listText, List.intercalate_cons_cons, List.append_assoc]

theorem readList_empty {blank : Char}
    (before : space.all isSourceSpace = true)
    (isBlank : isSourceSpace blank = true) (bracket : IsBracket close)
    (fuel : Nat) (glue after : Text) :
    readList (fuel + 1) close
        (space ++ listText glue [] blank close after) =
      some ([], after) := by
  refine readList_close ?_ fuel
  have front :
      skipSpace (space ++ blank :: close :: after) =
        skipSpace (blank :: close :: after) :=
    List.dropWhile_append_of_pos (List.all_eq_true.mp before)
  exact front.trans (skipSpace_close isBlank bracket after)

theorem keys_rereadPairs
    {read : StashHash} (reread : rereadPairs entries = some read) :
    read.map Prod.fst = entries.map Prod.fst := by
  induction entries generalizing read with
  | nil =>
    obtain rfl := Option.some.inj reread
    rfl
  | cons entry rest ih =>
    obtain ⟨value, -, others⟩ := Option.bind_eq_some_iff.mp reread
    obtain ⟨tail, isTail, rfl⟩ := Option.map_eq_some_iff.mp others
    rw [List.map_cons, List.map_cons, ih isTail]

theorem length_intercalate_cons (spaces text : Text) (texts : List Text) :
    text.length ≤ ((',' :: spaces).intercalate (text :: texts)).length ∧
      (texts ≠ [] →
        ((',' :: spaces).intercalate texts).length + text.length <
          ((',' :: spaces).intercalate (text :: texts)).length) := by
  cases texts with
  | nil =>
    rw [List.intercalate_singleton]
    exact ⟨Nat.le_refl _, fun nonempty => absurd rfl nonempty⟩
  | cons next texts =>
    rw [List.intercalate_cons_cons]
    simp only [List.length_append, List.length_cons]
    exact ⟨by omega, fun _ => by omega⟩

mutual

theorem readOperand_legacyValue (value : StashValue)
    (sorted : everywhere keysSorted (fun _ => true) value = true)
    (plain : everywhere keysPlain (fun _ => true) value = true)
    {fuel : Nat} (room : (legacyValue value).length ≤ fuel)
    {rest : Text} (follows : FollowsValue rest) :
    readOperand fuel (legacyValue value ++ rest) =
      (rereadValue value).map fun read => (read, rest) := by
  have blank : isSourceSpace '\n' = true := by decide
  have positive : 0 < (legacyValue value).length := by
    obtain ⟨front, last, same, -⟩ := endsVisible_legacyValue value
    rw [same, List.length_append]
    exact Nat.lt_add_left _ (Nat.zero_lt_one)
  obtain ⟨fuel, rfl⟩ : ∃ less, fuel = less + 1 :=
    ⟨fuel - 1, by omega⟩
  cases value with
  | undef => exact readOperand_undef follows.ends follows.noArrow fuel
  | scalar text =>
    rw [legacyValue_scalar, legacyScalar, rereadValue]
    split
    · next number =>
        rw [readOperand_of_isDecimal number follows.ends, Option.map_map]
        rfl
    · have text' :
          ['\''] ++ legacyQuote text ++ ['\''] ++ rest =
            '\'' :: (legacyQuote text ++ '\'' :: rest) := by
        simp
      rw [text', readOperand, readQuoted_legacyQuote]
      rfl
  | array items =>
    have text :
        legacyValue (.array items) ++ rest =
          '[' :: ("\n  ".toList ++
            listText (',' :: "\n  ".toList) (legacyItems items)
              '\n' ']' rest) := by
      rw [legacyValue_array, listText]
      simp
    have shorter :
        ((',' :: "\n  ".toList).intercalate
          (legacyItems items)).length < fuel := by
      rw [legacyValue_array] at room
      simp at room ⊢
      omega
    have read :=
      readList_legacyItems items sorted plain shorter "\n  ".toList rest
        blank (Or.inl rfl) (by decide) (by decide)
    rw [text, readOperand, read, rereadValue, Option.map_map, Option.map_map]
    rfl
  | hash entries =>
    rw [everywhere, Bool.and_eq_true] at sorted plain
    have text :
        legacyValue (.hash entries) ++ rest =
          '\x7b' :: ("\n  ".toList ++
            listText (',' :: "\n  ".toList) (legacyPairs entries)
              '\n' '\x7d' rest) := by
      rw [legacyValue_hash, listText]
      simp
    have shorter :
        ((',' :: "\n  ".toList).intercalate
          (legacyPairs entries)).length < fuel := by
      rw [legacyValue_hash] at room
      simp at room ⊢
      omega
    have read :=
      readList_legacyPairs entries sorted.2 plain.1 plain.2 shorter
        "\n  ".toList rest blank (Or.inr rfl) (by decide) (by decide)
    rw [text, readOperand, read, rereadValue]
    cases reread : rereadPairs entries with
    | none => rfl
    | some read =>
      have readSorted : keysSorted read = true := by
        rw [keysSorted, keys_rereadPairs reread]
        exact sorted.1
      rw [Option.map_some, Option.map_some, Option.map_some]
      dsimp only
      rw [anonymousHash_hashOperands readSorted, Option.map_some]

theorem readList_legacyItems (items : List StashValue)
    (sorted : everywhereItems keysSorted (fun _ => true) items = true)
    (plain : everywhereItems keysPlain (fun _ => true) items = true)
    {fuel : Nat} {spaces : Text}
    (room : ((',' :: spaces).intercalate (legacyItems items)).length < fuel)
    (space after : Text) {blank close : Char}
    (isBlank : isSourceSpace blank = true) (bracket : IsBracket close)
    (blanks : spaces.all isSourceSpace = true)
    (before : space.all isSourceSpace = true) :
    readList fuel close
        (space ++ listText (',' :: spaces) (legacyItems items)
          blank close after) =
      (rereadItems items).map fun read => (read, after) := by
  obtain ⟨fuel, rfl⟩ : ∃ less, fuel = less + 1 :=
    ⟨fuel - 1, by omega⟩
  cases items with
  | nil => exact readList_empty before isBlank bracket fuel _ after
  | cons item rest =>
    rw [everywhereItems, Bool.and_eq_true] at sorted plain
    obtain ⟨first, later⟩ :=
      length_intercalate_cons spaces (legacyValue item)
        (legacyItems rest)
    rw [legacyItems_cons] at room
    refine readList_value isBlank bracket blanks before
      (fun more next isIn =>
        operandEnds_of_mem_legacyItems (item :: rest) isIn more)
      (fun more follows =>
        readOperand_legacyValue item sorted.1 plain.1 (by omega) follows)
      (fun empty => ?_)
      (fun nonempty => ?_)
    · cases rest with
      | nil => rfl
      | cons next rest => contradiction
    · have shorter := later nonempty
      exact readList_legacyItems rest sorted.2 plain.2 (by omega) spaces
        after isBlank bracket blanks blanks

theorem readList_legacyPairs (entries : List (Text × StashValue))
    (sorted : everywherePairs keysSorted (fun _ => true) entries = true)
    (keys : keysPlain entries = true)
    (plain : everywherePairs keysPlain (fun _ => true) entries = true)
    {fuel : Nat} {spaces : Text}
    (room :
      ((',' :: spaces).intercalate (legacyPairs entries)).length < fuel)
    (space after : Text) {blank close : Char}
    (isBlank : isSourceSpace blank = true) (bracket : IsBracket close)
    (blanks : spaces.all isSourceSpace = true)
    (before : space.all isSourceSpace = true) :
    readList fuel close
        (space ++ listText (',' :: spaces) (legacyPairs entries)
          blank close after) =
      (rereadPairs entries).map fun read =>
        (hashOperands read, after) := by
  obtain ⟨fuel, rfl⟩ : ∃ less, fuel = less + 1 :=
    ⟨fuel - 1, by omega⟩
  cases entries with
  | nil => exact readList_empty before isBlank bracket fuel _ after
  | cons entry rest =>
    obtain ⟨key, value⟩ := entry
    have begins (next : Text)
        (isIn : next ∈ legacyPairs ((key, value) :: rest))
        (more : Text) :=
      operandEnds_of_mem_legacyPairs keys isIn more
    rw [everywherePairs, Bool.and_eq_true] at sorted plain
    rw [keysPlain, List.all_cons, Bool.and_eq_true] at keys
    obtain ⟨first, later⟩ :=
      length_intercalate_cons spaces
        (key ++ " => ".toList ++ legacyValue value) (legacyPairs rest)
    have pairRoom :
        ((',' :: spaces).intercalate
          ((key ++ " => ".toList ++ legacyValue value) ::
            legacyPairs rest)).length < fuel + 1 :=
      room
    have arrow : " => ".toList.length = 4 := rfl
    rw [List.length_append, List.length_append] at first later
    obtain ⟨fuel, rfl⟩ : ∃ less, fuel = less + 1 :=
      ⟨fuel - 1, by omega⟩
    have valueRead :
        readList (fuel + 1) close
            ([' '] ++ listText (',' :: spaces)
              (legacyValue value :: legacyPairs rest) blank close
              after) =
          ((rereadValue value).bind fun read =>
              ((rereadPairs rest).map hashOperands).map
                (read :: ·)).map
            fun read => (read, after) := by
      refine readList_value isBlank bracket blanks rfl
        (fun more next isIn => ?_)
        (fun more follows =>
          readOperand_legacyValue value sorted.1 plain.1 (by omega)
            follows)
        (fun empty => ?_)
        (fun nonempty => ?_)
      · rcases List.mem_cons.mp isIn with rfl | isLater
        · exact operandEnds_legacyValue value more
        · exact begins next (List.mem_cons_of_mem _ isLater) more
      · cases rest with
        | nil => rfl
        | cons next rest => contradiction
      · have shorter := later nonempty
        rw [readList_legacyPairs rest sorted.2 keys.2 plain.2
          (by omega) spaces after isBlank bracket blanks blanks,
          Option.map_map]
        rfl
    have keyRead :=
      readOperand_key keys.1 fuel
        (listText (',' :: spaces)
          (legacyValue value :: legacyPairs rest) blank close after)
    rw [legacyPairs_cons, List.append_assoc, listText_append,
      listText_append,
      readList_comma bracket before (operandEnds_key keys.1 _) keyRead
        [' '] rfl rfl
        (operandEnds_listText (operandEnds_legacyValue value) _ _ _ _
          _),
      valueRead, rereadPairs]
    cases rereadValue value with
    | none => rfl
    | some read =>
      cases rereadPairs rest with
      | none => rfl
      | some others => rfl

end

mutual

theorem rereadValue_eq_iff (value : StashValue) :
    rereadValue value = some value ↔
      everywhere (fun _ => true) numberPlain value = true := by
  cases value with
  | undef => exact iff_of_true rfl rfl
  | scalar text =>
    rw [rereadValue, everywhere, numberPlain, isNumberText]
    by_cases number : isDecimal text = true
    · rw [if_pos number, number, Bool.not_true, Bool.false_or,
        decide_eq_true_eq, Option.map_eq_some_iff]
      constructor
      · rintro ⟨read, isRead, same⟩
        rw [isRead, StashValue.scalar.inj same]
      · exact fun isRead => ⟨text, isRead, rfl⟩
    · rw [if_neg number, Bool.eq_false_iff.mpr number]
      exact iff_of_true rfl rfl
  | array items =>
    rw [rereadValue, everywhere, ← rereadItems_eq_iff items,
      Option.map_eq_some_iff]
    constructor
    · rintro ⟨read, isRead, same⟩
      rw [isRead, StashValue.array.inj same]
    · exact fun isRead => ⟨items, isRead, rfl⟩
  | hash entries =>
    rw [rereadValue, everywhere, Bool.true_and,
      ← rereadPairs_eq_iff entries, Option.map_eq_some_iff]
    constructor
    · rintro ⟨read, isRead, same⟩
      rw [isRead, StashValue.hash.inj same]
    · exact fun isRead => ⟨entries, isRead, rfl⟩

theorem rereadItems_eq_iff (items : List StashValue) :
    rereadItems items = some items ↔
      everywhereItems (fun _ => true) numberPlain items = true := by
  cases items with
  | nil => exact iff_of_true rfl rfl
  | cons item rest =>
    rw [rereadItems, everywhereItems, Bool.and_eq_true,
      ← rereadValue_eq_iff item, ← rereadItems_eq_iff rest,
      Option.bind_eq_some_iff]
    simp only [Option.map_eq_some_iff, List.cons.injEq]
    constructor
    · rintro ⟨value, isValue, tail, isTail, rfl, rfl⟩
      exact ⟨isValue, isTail⟩
    · rintro ⟨isValue, isTail⟩
      exact ⟨item, isValue, rest, isTail, rfl, rfl⟩

theorem rereadPairs_eq_iff (entries : List (Text × StashValue)) :
    rereadPairs entries = some entries ↔
      everywherePairs (fun _ => true) numberPlain entries = true := by
  cases entries with
  | nil => exact iff_of_true rfl rfl
  | cons entry rest =>
    obtain ⟨key, value⟩ := entry
    rw [rereadPairs, everywherePairs, Bool.and_eq_true,
      ← rereadValue_eq_iff value, ← rereadPairs_eq_iff rest,
      Option.bind_eq_some_iff]
    simp only [Option.map_eq_some_iff, List.cons.injEq, Prod.mk.injEq,
      true_and]
    constructor
    · rintro ⟨read, isRead, tail, isTail, rfl, rfl⟩
      exact ⟨isRead, isTail⟩
    · rintro ⟨isRead, isTail⟩
      exact ⟨value, isRead, rest, isTail, rfl, rfl⟩

end

theorem isSpace_of_isWordChar (word : isWordChar char = true) :
    isSpace char = false := by
  have code : 48 ≤ char.toNat ∧ char.toNat ≤ 122 := by
    rw [isWordChar, Bool.or_eq_true, decide_eq_true_eq] at word
    rcases word with alphanumeric | rfl
    · exact toNat_of_isAlphanum alphanumeric
    · decide
  simp only [isSpace, Bool.or_eq_false_iff, decide_eq_false_iff_not]
  omega

theorem safeEvalStashLiteral_legacyStashText
    {state : StashHash} (isState : IsState state) (plain : PlainKeys state) :
    safeEvalStashLiteral (legacyStashText state) = rereadPairs state := by
  rw [IsState, everywhere, Bool.and_eq_true] at isState
  rw [PlainKeys, everywhere, Bool.and_eq_true] at plain
  have source :
      legacyStashText state ++ [' ', '\x7d'] =
        [] ++ listText (',' :: ['\n']) (legacyPairs state) ' ' '\x7d' [] :=
    rfl
  have room :
      ((',' :: ['\n']).intercalate (legacyPairs state)).length <
        (legacyStashText state ++ [' ', '\x7d']).length + 1 := by
    rw [List.length_append]
    exact Nat.lt_succ_of_le (Nat.le_add_right _ _)
  have blank : isSourceSpace ' ' = true := by decide
  have read :=
    readList_legacyPairs state isState.2 plain.1 plain.2 room [] [] blank
      (Or.inr rfl) rfl rfl
  rw [← source] at read
  rw [safeEvalStashLiteral, read]
  cases reread : rereadPairs state with
  | none => rfl
  | some read =>
    have readSorted : keysSorted read = true := by
      rw [keysSorted, keys_rereadPairs reread]
      exact isState.1
    exact anonymousHash_hashOperands readSorted

theorem decodeStashSection_legacyStashText
    (decodeJson : Text → Option StashHash) {state : StashHash}
    (isState : IsState state) (plain : PlainKeys state) :
    decodeStashSection decodeJson (legacyStashText state) =
      (rereadPairs state).getD [] := by
  cases state with
  | nil => rfl
  | cons entry rest =>
    have keys := plain
    rw [PlainKeys, everywhere, Bool.and_eq_true, keysPlain,
      List.all_cons, Bool.and_eq_true] at keys
    obtain ⟨char, key, same, word⟩ := head_of_isPlainKey keys.1.1
    obtain ⟨tail, text⟩ :
        ∃ tail, legacyStashText (entry :: rest) = char :: tail := by
      rw [legacyStashText, legacyPairs_cons, same]
      cases legacyPairs rest with
      | nil =>
        rw [List.intercalate_singleton]
        exact ⟨_, rfl⟩
      | cons next texts =>
        rw [List.intercalate_cons_cons]
        exact ⟨_, rfl⟩
    have trimmed :
        trim (legacyStashText (entry :: rest)) = char :: tail := by
      rw [trim, trimStart, text,
        List.dropWhile_cons_of_neg (by simp [isSpace_of_isWordChar word]),
        ← text, trimEnd_legacyStashText]
    have apart (other : Char) (isOther : isWordChar other = false) :
        char ≠ other := by
      rintro rfl
      rw [word] at isOther
      contradiction
    have noJson :
        ¬ (decide (char = '\x7b') || decide (char = '[')) = true := by
      simp [apart '\x7b' (by decide), apart '[' (by decide)]
    rw [decodeStashSection, trimmed]
    dsimp only
    rw [if_neg noJson, ← text,
      safeEvalStashLiteral_legacyStashText isState plain]

def fullState : StashHash :=
  [("42".toList, .scalar "0".toList), ("items".toList,
      .array [.undef, .scalar "it's".toList, .hash [],
        .hash [("q".toList, .scalar "a\\".toList)]]),
    ("title".toList, .scalar "01 ".toList)]

def negativeState : StashHash :=
  [("n".toList, .scalar "-5".toList), ("title".toList, .scalar "x".toList)]

end DeveloperDashboard.Page
