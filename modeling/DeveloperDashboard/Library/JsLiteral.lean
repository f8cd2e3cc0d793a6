import Mathlib.Data.List.Basic
import Mathlib.Data.Option.Basic

namespace Library

/-!
# Literals of JavaScript

A string literal in single quotes is read up to its quote; its value is a list
of UTF-16 code units.  A line terminator inside of it is refused.
-/

namespace JsLiteral

def unitsOf (code : Nat) : List Nat :=
  if code < 0x10000 then [code]
  else
    [0xD800 + (code - 0x10000) / 0x400, 0xDC00 + (code - 0x10000) % 0x400]

def value (text : List Char) : List Nat :=
  text.flatMap fun char => unitsOf char.toNat

inductive Reading where
  | plain
  | escape
  /-- a line is continued, and a line feed may follow the return -/
  | carriage
  | octal (left pending : Nat)
  | hex (left pending : Nat)
  | unicode
  | braces (started : Bool) (pending : Nat)

inductive Read where
  | refused
  | closed (units : List Nat)
  | more (units : List Nat) (next : Reading)

/-- Code units that stand before those of a character. -/
def Read.behind (pending : List Nat) : Read → Read
  | .refused => .refused
  | .closed units => .closed (pending ++ units)
  | .more units next => .more (pending ++ units) next

def isSeparator (char : Char) : Bool :=
  char = '\u2028' || char = '\u2029'

/-- What ends a line of a literal; only older editions count separators. -/
def isTerminator (separators : Bool) (char : Char) : Bool :=
  char = '\n' || char = '\r' || separators && isSeparator char

def hexDigit (char : Char) : Option Nat :=
  if char.isDigit then some (char.toNat - '0'.toNat)
  else if 'a' ≤ char ∧ char ≤ 'f' then some (char.toNat - 'a'.toNat + 10)
  else if 'A' ≤ char ∧ char ≤ 'F' then some (char.toNat - 'A'.toNat + 10)
  else none

def isOctal (char : Char) : Bool :=
  decide ('0' ≤ char ∧ char ≤ '7')

def readPlain (separators : Bool) (char : Char) : Read :=
  if char = '\'' then .closed []
  else if char = '\\' then .more [] .escape
  else if isTerminator separators char then .refused
  else .more (unitsOf char.toNat) .plain

def readEscape (char : Char) : Read :=
  if char = '\r' then .more [] .carriage
  else if char = '\n' || isSeparator char then .more [] .plain
  else if char = 'b' then .more [8] .plain
  else if char = 't' then .more [9] .plain
  else if char = 'n' then .more [10] .plain
  else if char = 'v' then .more [11] .plain
  else if char = 'f' then .more [12] .plain
  else if char = 'r' then .more [13] .plain
  else if char = 'x' then .more [] (.hex 2 0)
  else if char = 'u' then .more [] .unicode
  else if isOctal char then
    .more [] (.octal (if char ≤ '3' then 2 else 1)
      (char.toNat - '0'.toNat))
  else .more (unitsOf char.toNat) .plain

/-- A digit of an escape of a fixed length. -/
def readHex (left pending : Nat) (char : Char) : Read :=
  match hexDigit char with
  | none => .refused
  | some digit =>
    let code := pending * 16 + digit
    if left ≤ 1 then .more [code] .plain
    else .more [] (.hex (left - 1) code)

def readBraces (started : Bool) (pending : Nat) (char : Char) : Read :=
  if char = '\x7d' then
    if started then .more (unitsOf pending) .plain else .refused
  else
    match hexDigit char with
    | none => .refused
    | some digit =>
      let code := pending * 16 + digit
      if code ≤ 0x10FFFF then .more [] (.braces true code)
      else .refused

def readChar (separators : Bool) : Reading → Char → Read
  | .plain, char => readPlain separators char
  | .escape, char => readEscape char
  | .carriage, char =>
    if char = '\n' then .more [] .plain else readPlain separators char
  | .octal left pending, char =>
    if left ≠ 0 ∧ isOctal char then
      .more [] (.octal (left - 1)
        (pending * 8 + (char.toNat - '0'.toNat)))
    else (readPlain separators char).behind [pending]
  | .hex left pending, char => readHex left pending char
  | .unicode, char =>
    if char = '\x7b' then .more [] (.braces false 0)
    else readHex 4 0 char
  | .braces started pending, char => readBraces started pending char

def before (units : List Nat) (read : List Nat × List Char) :
    List Nat × List Char :=
  (units ++ read.1, read.2)

/-- Read the rest of a literal: its value and what stands behind it. -/
def readFrom (separators : Bool) :
    Reading → List Char → Option (List Nat × List Char)
  | _, [] => none
  | reading, char :: rest =>
    match readChar separators reading char with
    | .refused => none
    | .closed units => some (units, rest)
    | .more units next =>
      (readFrom separators next rest).map (before units)

def readLiteral (separators : Bool) :
    List Char → Option (List Nat × List Char)
  | [] => none
  | char :: rest =>
    if char = '\'' then readFrom separators .plain rest else none

def afterComma : List Char → Option (List Char)
  | [] => none
  | char :: rest => if char = ',' then some rest else none

def readLiterals (separators : Bool) :
    Nat → List Char → Option (List (List Nat) × List Char)
  | 0, text => some ([], text)
  | 1, text =>
    (readLiteral separators text).map fun read => ([read.1], read.2)
  | count + 2, text =>
    (readLiteral separators text).bind fun read =>
      (afterComma read.2).bind fun later =>
        (readLiterals separators (count + 1) later).map
          fun others => (read.1 :: others.1, others.2)

variable {separators : Bool} {char : Char} {rest : List Char}

theorem readFrom_plain_cons
    (noQuote : char ≠ '\'') (noBackslash : char ≠ '\\')
    (noTerminator : isTerminator separators char = false) :
    readFrom separators .plain (char :: rest) =
      (readFrom separators .plain rest).map
        (before (unitsOf char.toNat)) := by
  rw [readFrom, readChar, readPlain, if_neg noQuote, if_neg noBackslash,
    if_neg (Bool.eq_false_iff.mp noTerminator)]

theorem readFrom_plain_escaped
    (escaped : char = '\\' ∨ char = '\'' ∨ char = '/') :
    readFrom separators .plain ('\\' :: char :: rest) =
      (readFrom separators .plain rest).map
        (before (unitsOf char.toNat)) := by
  have opened :
      readFrom separators .plain ('\\' :: char :: rest) =
        (readFrom separators .escape (char :: rest)).map (before []) :=
    rfl
  have taken : readEscape char = .more (unitsOf char.toNat) .plain := by
    rcases escaped with rfl | rfl | rfl <;> rfl
  rw [opened, readFrom, readChar, taken, Option.map_map]
  rfl

theorem readFrom_plain_of_isTerminator
    (terminator : isTerminator separators char = true) :
    readFrom separators .plain (char :: rest) = none := by
  have noQuote : char ≠ '\'' := by
    rintro rfl
    cases separators <;> cases terminator
  have noBackslash : char ≠ '\\' := by
    rintro rfl
    cases separators <;> cases terminator
  rw [readFrom, readChar, readPlain, if_neg noQuote, if_neg noBackslash,
    if_pos terminator]

end JsLiteral

end Library
