import Mathlib.Data.List.Count

namespace Library.ShellWords

/-!
# Words of shells

How a command language reads quoted text as one word: words of a POSIX shell,
which end at a blank, and the verbatim strings of PowerShell, in which five
characters act as a quote and two of them stand for the second one.
-/

def quote : Char :=
  '\''

/-- The rest is read with one more character in the word. -/
def push (char : Char) (read : Option (List Char × List Char)) :
    Option (List Char × List Char) :=
  read.map fun found => (char :: found.1, found.2)

theorem push_eq_some_iff {char : Char}
    {read : Option (List Char × List Char)} {word rest : List Char} :
    push char read = some (word, rest) ↔
      ∃ later, read = some (later, rest) ∧ word = char :: later := by
  cases read with
  | none => simp [push]
  | some found =>
    obtain ⟨later, behind⟩ := found
    simp only [push, Option.map_some, Option.some.injEq, Prod.mk.injEq]
    grind

def isBlank (char : Char) : Bool :=
  [' ', '\t', '\n'].contains char

/-- The characters that mean something to the shell outside of quotes. -/
def isSpecial (char : Char) : Bool :=
  "|&;<>()$\\\"*?[]#~=%\x7b\x7d!\x60".toList.contains char

/--
The word at the beginning of a text, inside or outside of single quotes, and
the rest.  Text with other special characters outside of quotes is not read.
-/
def readWord : Bool → List Char → Option (List Char × List Char)
  | false, [] => some ([], [])
  | true, [] => none
  | true, char :: rest =>
    if char = quote then readWord false rest
    else push char (readWord true rest)
  | false, '\\' :: char :: rest =>
    if char = '\n' then readWord false rest
    else push char (readWord false rest)
  | false, char :: rest =>
    if char = quote then readWord true rest
    else if isBlank char then some ([], char :: rest)
    else if isSpecial char then none
    else push char (readWord false rest)

/-- The one word that a text is. -/
def onlyWord : List Char → Option (List Char)
  | [] => none
  | text => (readWord false text).bind fun found =>
      if found.2 = [] then some found.1 else none

/-- The quotes of typography between U+2018 and U+201B. -/
def isCurly (char : Char) : Bool :=
  decide ('\u2018' ≤ char ∧ char ≤ '\u201b')

/-- The characters that PowerShell takes for a single quote. -/
def isQuote (char : Char) : Bool :=
  char == quote || isCurly char

/-- A verbatim string behind its first quote, and the rest. -/
def readVerbatim : List Char → Option (List Char × List Char)
  | [] => none
  | [char] => if isQuote char then some ([], []) else none
  | char :: next :: rest =>
    if isQuote char then
      if isQuote next then push next (readVerbatim rest)
      else some ([], next :: rest)
    else push char (readVerbatim (next :: rest))

/-- The one verbatim string that a text is. -/
def verbatimArgument : List Char → Option (List Char)
  | [] => none
  | first :: text =>
    if isQuote first then
      (readVerbatim text).bind fun found =>
        if found.2 = [] then some found.1 else none
    else none

/-- `s/'/replacement/g` -/
def replaceQuote (replacement value : List Char) : List Char :=
  value.flatMap fun char => if char = quote then replacement else [char]

theorem replaceQuote_cons_self (replacement rest : List Char) :
    replaceQuote replacement (quote :: rest) =
      replacement ++ replaceQuote replacement rest := rfl

theorem replaceQuote_cons_of_ne {char : Char} (other : char ≠ quote)
    (replacement rest : List Char) :
    replaceQuote replacement (char :: rest) =
      char :: replaceQuote replacement rest := by
  simp [replaceQuote, other]

theorem readWord_quote (text : List Char) :
    readWord false (quote :: text) = readWord true text := rfl

/-- A single-quoted value that closes and reopens the quotes is one word. -/
theorem readWord_replaceQuote (value : List Char) {rest : List Char}
    (ends : readWord false rest = some ([], rest)) :
    readWord true
        (replaceQuote [quote, '\\', quote, quote] value ++ quote :: rest) =
      some (value, rest) := by
  induction value with
  | nil =>
    show readWord true (quote :: rest) = some ([], rest)
    rw [readWord, if_pos rfl, ends]
  | cons char value ih =>
    by_cases isQuoted : char = quote
    · rw [isQuoted, replaceQuote_cons_self]
      -- the quotes are closed, the quote is escaped, and they are reopened
      show push quote (readWord true (replaceQuote _ value ++ quote :: rest)) =
        some (quote :: value, rest)
      rw [ih]
      rfl
    · rw [replaceQuote_cons_of_ne isQuoted, List.cons_append, readWord,
        if_neg isQuoted, ih]
      rfl

theorem sublist_of_readWord {inside : Bool} {text word rest : List Char}
    (read : readWord inside text = some (word, rest)) :
    word.Sublist text := by
  fun_induction readWord inside text generalizing word rest with
  | case1 => cases read; exact List.Sublist.refl _
  | case2 => cases read
  | case3 _ ih => exact (ih read).cons _
  | case4 _ _ _ ih =>
    obtain ⟨later, found, rfl⟩ := push_eq_some_iff.mp read
    exact (ih found).cons_cons _
  | case5 _ ih => exact ((ih read).cons _).cons _
  | case6 _ _ _ ih =>
    obtain ⟨later, found, rfl⟩ := push_eq_some_iff.mp read
    exact ((ih found).cons_cons _).cons _
  | case7 _ _ ih => exact (ih read).cons _
  | case8 => cases read; exact List.nil_sublist _
  | case9 => cases read
  | case10 _ _ _ _ _ _ ih =>
    obtain ⟨later, found, rfl⟩ := push_eq_some_iff.mp read
    exact (ih found).cons_cons _

/-- Every pair of quotes leaves one, and one quote closes the string. -/
theorem countP_of_readVerbatim {text word rest : List Char}
    (read : readVerbatim text = some (word, rest)) :
    text.countP isQuote =
      2 * word.countP isQuote + 1 + rest.countP isQuote := by
  fun_induction readVerbatim text generalizing word rest with
  | case1 => cases read
  | case2 char isQ => cases read; simp [isQ]
  | case3 => cases read
  | case4 char next rest isQ nextQ ih =>
    obtain ⟨later, found, rfl⟩ := push_eq_some_iff.mp read
    have counted := ih found
    simp only [List.countP_cons, isQ, nextQ, if_true]
    omega
  | case5 char next rest isQ notQ =>
    cases read
    simp [List.countP_cons, isQ, notQ]
    omega
  | case6 char next rest notQ ih =>
    obtain ⟨later, found, rfl⟩ := push_eq_some_iff.mp read
    have counted := ih found
    rw [List.countP_cons_of_neg notQ, List.countP_cons_of_neg notQ]
    exact counted

theorem countP_isQuote (value : List Char) :
    value.countP isQuote = value.count quote + value.countP isCurly := by
  induction value with
  | nil => rfl
  | cons char rest ih =>
    rw [List.countP_cons, List.countP_cons, List.count_cons, ih]
    by_cases isQuoted : char = quote
    · have notCurly : isCurly quote = false := by decide
      simp [isQuote, isQuoted, notCurly]
      omega
    · simp [isQuote, isQuoted]
      omega

theorem countP_doubled (value : List Char) :
    (replaceQuote [quote, quote] value).countP isQuote =
      value.countP isQuote + value.count quote := by
  induction value with
  | nil => rfl
  | cons char rest ih =>
    by_cases isQuoted : char = quote
    · have quoted : isQuote quote = true := by decide
      rw [isQuoted, replaceQuote_cons_self, List.countP_append, ih,
        List.count_cons_self]
      simp [List.countP_cons, quoted]
      omega
    · rw [replaceQuote_cons_of_ne isQuoted, List.countP_cons, ih,
        List.countP_cons, List.count_cons_of_ne isQuoted]
      omega

theorem readVerbatim_doubled {value : List Char}
    (straight : ∀ char ∈ value, isCurly char = false) :
    readVerbatim (replaceQuote [quote, quote] value ++ [quote]) =
      some (value, []) := by
  induction value with
  | nil => rfl
  | cons char rest ih =>
    obtain ⟨notCurly, straight⟩ := List.forall_mem_cons.mp straight
    by_cases isQuoted : char = quote
    · rw [isQuoted, replaceQuote_cons_self]
      show push quote (readVerbatim (replaceQuote _ rest ++ [quote])) =
        some (quote :: rest, [])
      rw [ih straight]
      rfl
    · have notQuote : ¬isQuote char = true := by
        simp [isQuote, isQuoted, notCurly]
      rw [replaceQuote_cons_of_ne isQuoted, List.cons_append]
      have read := ih straight
      cases behind : replaceQuote [quote, quote] rest ++ [quote] with
      | nil => simp at behind
      | cons next later =>
        rw [behind] at read
        rw [readVerbatim, if_neg notQuote, read]
        rfl

/-- Doubling the straight quotes keeps a value just when it has no others. -/
theorem verbatimArgument_doubled_iff (value : List Char) :
    verbatimArgument
        (quote :: (replaceQuote [quote, quote] value ++ [quote])) =
          some value ↔
      ∀ char ∈ value, isCurly char = false := by
  have opens : isQuote quote = true := by decide
  rw [verbatimArgument, if_pos opens]
  constructor
  · intro read
    obtain ⟨⟨word, rest⟩, found, same⟩ := Option.bind_eq_some_iff.mp read
    split at same
    · next ended =>
      have counted := countP_of_readVerbatim found
      rw [show word = value from Option.some.inj same,
        List.countP_append, countP_doubled, countP_isQuote,
        show rest = [] from ended] at counted
      simp [opens] at counted
      have none_ : value.countP isCurly = 0 := by omega
      simpa using List.countP_eq_zero.mp none_
    · cases same
  · intro straight
    rw [readVerbatim_doubled straight]
    rfl

end Library.ShellWords
