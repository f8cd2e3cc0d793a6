import Mathlib.Data.List.Infix
import Mathlib.Data.Char
import Mathlib.Data.List.DropRight
import Mathlib.Data.List.Lex

namespace DeveloperDashboard.Perl

/-!
# Substitutions

`s/…/…/` and `s/…//g` for patterns that match at a place in one way only, and
the search for a literal.
-/

variable {Char : Type} [DecidableEq Char]

def afterLiteral (literal text : List Char) : Option (List Char) :=
  if literal.isPrefixOf text then some (text.drop literal.length) else none

/-- `=~ /\Qliteral\E/`. -/
def hasLiteral (literal : List Char) : List Char → Bool
  | [] => literal.isEmpty
  | char :: rest =>
    literal.isPrefixOf (char :: rest) || hasLiteral literal rest

/-- `s/pattern/replacement/`, where `match?` gives the rest behind a match. -/
def replaceFirst (match? : List Char → Option (List Char))
    (replacement : List Char) : List Char → List Char
  | [] => []
  | char :: rest =>
    match match? (char :: rest) with
    | some behind => replacement ++ behind
    | none => char :: replaceFirst match? replacement rest

/-- `s/\Qliteral\E//g`, so many characters of a match being left. -/
def removeAll (literal : List Char) : Nat → List Char → List Char
  | _, [] => []
  | left + 1, _ :: rest => removeAll literal left rest
  | 0, char :: rest =>
    if literal.isPrefixOf (char :: rest) then
      removeAll literal (literal.length - 1) rest
    else char :: removeAll literal 0 rest

/-- `=~ /^\Qline\E$/m`, for a line that is not empty. -/
def hasLine (newline : Char) (line text : List Char) : Bool :=
  (text.splitOn newline).any fun other => decide (other = line)

theorem replaceFirst_ne_nil {match? : List Char → Option (List Char)}
    {replacement text : List Char}
    (given : replacement ≠ []) (nonempty : text ≠ []) :
    replaceFirst match? replacement text ≠ [] := by
  cases text with
  | nil => exact absurd rfl nonempty
  | cons char rest =>
    unfold replaceFirst
    split
    · simp [given]
    · exact List.cons_ne_nil _ _

theorem ne_nil_of_hasLiteral {literal text : List Char}
    (nonempty : literal ≠ []) (found : hasLiteral literal text = true) :
    text ≠ [] := by
  rintro rfl
  exact nonempty (List.isEmpty_iff.mp found)

end DeveloperDashboard.Perl

namespace DeveloperDashboard.Perl

/-!
# Perl text

What the program uses of Perl's patterns: the classes `\s` and `\d`, trimming,
the anchor `^` of `/m`, and splitting into lines.
-/

abbrev Text :=
  List Char

/-- The class `\s` on a character string. -/
def isSpace (char : Char) : Bool :=
  let code := char.toNat
  decide (9 ≤ code ∧ code ≤ 13) || decide (code = 32) ||
    decide (code = 0x85) || decide (code = 0xA0) ||
    decide (code = 0x1680) || decide (0x2000 ≤ code ∧ code ≤ 0x200A) ||
    decide (code = 0x2028) || decide (code = 0x2029) ||
    decide (code = 0x202F) || decide (code = 0x205F) ||
    decide (code = 0x3000)

/-- Whether a string is true: it is neither empty nor `0`. -/
def isTrue (text : Text) : Bool :=
  decide (text ≠ [] ∧ text ≠ ['0'])

/-- `$text || ''`. -/
def orEmpty (text : Text) : Text :=
  if isTrue text then text else []

theorem orEmpty_of_isTrue {text : Text} (given : isTrue text = true) :
    orEmpty text = text :=
  if_pos given

theorem orEmpty_orEmpty (text : Text) :
    orEmpty (orEmpty text) = orEmpty text := by
  unfold orEmpty
  by_cases given : isTrue text = true
  · rw [if_pos given, if_pos given]
  · rw [if_neg given]
    rfl

def decimalZeros : List Nat :=
  [0x30, 0x660, 0x6F0, 0x7C0, 0x966, 0x9E6, 0xA66, 0xAE6, 0xB66, 0xBE6,
    0xC66, 0xCE6, 0xD66, 0xDE6, 0xE50, 0xED0, 0xF20, 0x1040, 0x1090,
    0x17E0, 0x1810, 0x1946, 0x19D0, 0x1A80, 0x1A90, 0x1B50, 0x1BB0,
    0x1C40, 0x1C50, 0xA620, 0xA8D0, 0xA900, 0xA9D0, 0xA9F0, 0xAA50,
    0xABF0, 0xFF10, 0x104A0, 0x10D30, 0x11066, 0x110F0, 0x11136, 0x111D0,
    0x112F0, 0x11450, 0x114D0, 0x11650, 0x116C0, 0x11730, 0x118E0,
    0x11950, 0x11C50, 0x11D50, 0x11DA0, 0x16A60, 0x16AC0, 0x16B50,
    0x1D7CE, 0x1D7D8, 0x1D7E2, 0x1D7EC, 0x1D7F6, 0x1E140, 0x1E2F0,
    0x1E950, 0x1FBF0]

/-- The class `\d` on a character string. -/
def isDigit (char : Char) : Bool :=
  decimalZeros.any fun first =>
    decide (first ≤ char.toNat ∧ char.toNat ≤ first + 9)

theorem isDigit_of_ascii {char : Char} (digit : char.isDigit = true) :
    isDigit char = true := by
  rw [Char.isDigit_iff_toNat] at digit
  exact List.any_eq_true.mpr
    ⟨0x30, List.mem_cons_self, decide_eq_true ⟨digit.1, digit.2⟩⟩

theorem toNat_of_isAlphanum
    {char : Char} (alphanumeric : char.isAlphanum = true) :
    48 ≤ char.toNat ∧ char.toNat ≤ 122 := by
  change
    ((decide (char.val ≥ 65 ∧ char.val ≤ 90) ||
        decide (char.val ≥ 97) && decide (char.val ≤ 122)) ||
      decide (char.val ≥ 48) && decide (char.val ≤ 57)) = true
    at alphanumeric
  simp only [Bool.or_eq_true, Bool.and_eq_true, decide_eq_true_eq,
    ge_iff_le, UInt32.le_iff_toNat_le] at alphanumeric
  rcases alphanumeric with (upper | lower) | digit
  · exact ⟨le_trans (by decide) upper.1, le_trans upper.2 (by decide)⟩
  · exact ⟨le_trans (by decide) lower.1, le_trans lower.2 (by decide)⟩
  · exact ⟨digit.1, le_trans digit.2 (by decide)⟩

/-- The substitution `s/\A\s+//`. -/
def trimStart (text : List Char) : List Char :=
  text.dropWhile isSpace

/-- The substitution `s/\s+\z//`, or `s/\s+$//`. -/
def trimEnd (text : List Char) : List Char :=
  text.rdropWhile isSpace

def trim (text : List Char) : List Char :=
  trimEnd (trimStart text)

def trimString (text : String) : String :=
  String.ofList (trim text.toList)

/-- The substitutions `s/\A\n+//` and `s/\n+\z//`. -/
def trimNewlines (text : Text) : Text :=
  (text.dropWhile (· = '\n')).rdropWhile (· = '\n')

/-- The substitution `s/\n+\z//`. -/
def trimTrailingNewlines (text : Text) : Text :=
  text.rdropWhile (· = '\n')

/-- Whether `^` of `/m` matches after this character, or at the start. -/
def startsLine (previous : Option Char) : Bool :=
  previous.isNone || previous == some '\n'

/-- Whether a pattern that begins with `^` of `/m` matches somewhere. -/
def anyLineStart (matches? : Text → Bool) : Option Char → Text → Bool
  | _, [] => false
  | previous, char :: rest =>
    (startsLine previous && matches? (char :: rest)) ||
      anyLineStart matches? (some char) rest

/-- `split /\n/, $text, -1`; the empty text has no lines. -/
def splitLines (text : Text) : List Text :=
  if text = [] then [] else text.splitOn '\n'

/-- `join "\n", @lines`. -/
def joinLines (lines : List Text) : Text :=
  ['\n'].intercalate lines

theorem joinLines_splitLines (text : Text) :
    joinLines (splitLines text) = text := by
  unfold joinLines splitLines
  split
  · rename_i empty
    rw [empty]
    rfl
  · exact List.intercalate_splitOn '\n'

end DeveloperDashboard.Perl
