import DeveloperDashboard.Library.Binary64
import DeveloperDashboard.Perl.Text

namespace DeveloperDashboard.Perl

open Library

/-!
# Number literals

A number literal of the Perl source is read as an integer or as a float, and
its string is how Perl prints that number.
-/

def naturalText (number : Nat) : Text :=
  Nat.toDigits 10 number

def digitsValue (base : Nat) (digits : Text) : Nat :=
  digits.foldl (fun value digit => base * value + (digit.toNat - 48)) 0

/-- The digits after the first one, behind a point. -/
def fractionText (digits : Text) : Text :=
  if digits = [] then [] else '.' :: digits

/-- A float that is not negative, printed with `%.15g`. -/
def floatText (value : ℚ) : Text :=
  if value = 0 then ['0']
  else if 2 ^ 1024 ≤ value then "Inf".toList
  else
    let magnitude := Int.log 10 value
    let units :=
      (roundHalfEven (value / 10 ^ (magnitude - 14))).toNat
    let exponent := if units = 10 ^ 15 then magnitude + 1 else magnitude
    let digits := (Nat.toDigits 10 units).rdropWhile (· = '0')
    if exponent < -4 ∨ 15 ≤ exponent then
      let places := naturalText exponent.natAbs
      digits.take 1 ++ fractionText (digits.drop 1) ++
        ['e', if exponent < 0 then '-' else '+'] ++
        List.replicate (2 - places.length) '0' ++ places
    else if exponent < 0 then
      "0.".toList ++ List.replicate (exponent.natAbs - 1) '0' ++ digits
    else
      let whole := exponent.toNat + 1
      digits.take whole ++ List.replicate (whole - digits.length) '0' ++
        fractionText (digits.drop whole)

/-- An integer literal: a float when it does not fit in 64 bits. -/
def integerText (number : Nat) : Text :=
  if number < 2 ^ 64 then naturalText number
  else floatText (roundToUlp number)

def splitFraction : Text → Text × Text
  | '.' :: rest => (rest.takeWhile Char.isDigit, rest.dropWhile Char.isDigit)
  | rest => ([], rest)

def exponentValue? : Text → Option ℤ
  | [] => some 0
  | 'e' :: sign :: digit :: digits =>
    if (digit :: digits).all Char.isDigit then
      let power := digitsValue 10 (digit :: digits)
      match sign with
      | '+' => some power
      | '-' => some (-power)
      | _ => none
    else none
  | _ => none

def floatLiteral? (whole rest : Text) : Option Text :=
  let (fraction, exponent) := splitFraction rest
  (exponentValue? exponent).map fun (power : ℤ) =>
    floatText (roundToUlp
      (digitsValue 10 (whole ++ fraction) *
        10 ^ (power - (fraction.length : ℤ))))

/--
The string of an unsigned number literal.  After a leading zero the digits are
octal, and nothing can follow these.  Longer literals than 250 characters are
refused.
-/
def numberLiteral? (literal : Text) : Option Text :=
  let whole := literal.takeWhile Char.isDigit
  match whole, literal.dropWhile Char.isDigit with
  | [], _ => none
  | '0' :: digit :: digits, [] =>
    if (digit :: digits).all fun digit => digit.toNat < 56 then
      some (integerText (digitsValue 8 (digit :: digits)))
    else none
  | '0' :: _ :: _, _ :: _ => none
  | _, rest =>
    if 250 < literal.length then none
    else if rest = [] then some (integerText (digitsValue 10 whole))
    else floatLiteral? whole rest

end DeveloperDashboard.Perl
