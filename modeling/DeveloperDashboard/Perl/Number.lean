import DeveloperDashboard.Perl.TimeLocal

namespace DeveloperDashboard.Perl

/-!
# Strings as numbers

What Perl makes of a string where it needs a number, and the conversions of a
number to the integers of C.
-/

/-- `chomp`. -/
def chomp (text : Text) : Text :=
  if text.getLast? = some '\n' then text.dropLast else text

/-- The pattern `/^\d+$/`; its `$` also matches before a final newline. -/
def matchesDigits (text : Text) : Bool :=
  !(chomp text).isEmpty && (chomp text).all isDigit

def splitSign : Text → Bool × Text
  | '-' :: rest => (true, rest)
  | '+' :: rest => (false, rest)
  | text => (false, text)

def exponentNumber : Text → Int
  | char :: rest =>
    if char = 'e' ∨ char = 'E' then
      let (negative, digits) := splitSign rest
      if negative then -(stringNumber digits : Int)
      else stringNumber digits
    else 0
  | [] => 0

def isNumberSpace (char : Char) : Bool :=
  decide (char = ' ' ∨ 9 ≤ char.toNat ∧ char.toNat ≤ 13)

/-- The number of a string, where doubles do not round it. -/
def textNumber (text : Text) : Rat :=
  let (negative, unsigned) := splitSign (text.dropWhile isNumberSpace)
  let whole := unsigned.takeWhile Char.isDigit
  let rest := unsigned.dropWhile Char.isDigit
  let (decimals, rest) :=
    match rest with
    | '.' :: rest =>
      (rest.takeWhile Char.isDigit, rest.dropWhile Char.isDigit)
    | _ => ([], rest)
  let magnitude : Rat :=
    stringNumber (whole ++ decimals) *
      (10 : Rat) ^ (exponentNumber rest - decimals.length)
  if negative then -magnitude else magnitude

def digitsIv (number : Nat) : Int :=
  (min (number : Int) (2 ^ 64 - 1)).bmod (2 ^ 64)

/-- The integer of 64 bits of minus a string of digits. -/
def negatedIv (number : Nat) : Int :=
  max (-(number : Int)) (-(2 ^ 63))

/-- The conversion to a `pid_t` of 32 bits. -/
def toPid (iv : Int) : Int :=
  iv.bmod (2 ^ 32)

end DeveloperDashboard.Perl
