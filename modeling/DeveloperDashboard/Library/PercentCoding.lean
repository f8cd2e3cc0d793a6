import Mathlib.Data.List.Basic
import Mathlib.Tactic.IntervalCases

namespace Library

/-!
# Percent coding

A character of one byte that is not safe is written as `%` and two hexadecimal
digits.  Decoding reads such triples, and every other character as it is.
-/

variable {char : Char} {rest text : List Char}

namespace PercentCoding

def hexValue? (char : Char) : Option Nat :=
  if '0' ≤ char ∧ char ≤ '9' then some (char.toNat - 48)
  else if 'A' ≤ char ∧ char ≤ 'F' then some (char.toNat - 55)
  else if 'a' ≤ char ∧ char ≤ 'f' then some (char.toNat - 87)
  else none

def hexDigit (value : Nat) : Char :=
  Char.ofNat (if value < 10 then value + 48 else value + 55)

/-- Replace each triple of `%` and two digits by the character it stands for. -/
def decode : List Char → List Char
  | [] => []
  | '%' :: high :: low :: rest =>
    match hexValue? high, hexValue? low with
    | some first, some second =>
      Char.ofNat (16 * first + second) :: decode rest
    | _, _ => '%' :: decode (high :: low :: rest)
  | char :: rest => char :: decode rest

/-- The characters that are left as they are; `%` is not one of them. -/
structure SafeSet where
  isSafe : Char → Bool
  percent : isSafe '%' = false

variable (safe : SafeSet)

def escapeChar (char : Char) : List Char :=
  if safe.isSafe char then [char]
  else ['%', hexDigit (char.toNat / 16), hexDigit (char.toNat % 16)]

def isNarrow (text : List Char) : Bool :=
  text.all fun char => decide (char.toNat < 256)

/-- Write a text, unless a character needs more than one byte. -/
def escape (text : List Char) : Option (List Char) :=
  if isNarrow text then some (text.flatMap (escapeChar safe)) else none

theorem hexValue?_hexDigit {value : Nat} (small : value < 16) :
    hexValue? (hexDigit value) = some value := by
  interval_cases value <;> decide

theorem decode_cons_of_ne (different : char ≠ '%') :
    decode (char :: rest) = char :: decode rest := by
  rw [decode]
  rintro high low tail rfl
  exact absurd rfl different

theorem decode_of_no_percent (plain : '%' ∉ text) :
    decode text = text := by
  induction text with
  | nil => rfl
  | cons char rest ih =>
    obtain ⟨different, later⟩ := not_or.mp (mt List.mem_cons.mpr plain)
    rw [decode_cons_of_ne (Ne.symm different), ih later]

theorem decode_percent {high low : Char}
    (noDigits : hexValue? high = none ∨ hexValue? low = none) :
    decode ('%' :: high :: low :: rest) =
      '%' :: decode (high :: low :: rest) := by
  rw [decode]
  split
  · next first second found foundToo =>
      rw [found, foundToo] at noDigits
      rcases noDigits with missing | missing <;> cases missing
  · rfl

theorem decode_percent_end (noDigit : hexValue? char = none) :
    decode ('%' :: char :: rest) = '%' :: decode (char :: rest) := by
  cases rest with
  | nil =>
    rw [decode]
    rintro high low tail - short
    cases short
  | cons next tail => exact decode_percent (Or.inl noDigit)

theorem decode_append_cons (noDigit : hexValue? char = none) :
    decode (text ++ char :: rest) = decode text ++ decode (char :: rest) := by
  induction text using decode.induct with
  | case1 => rfl
  | case2 high low tail first second found foundToo ih =>
    simp only [List.cons_append, decode, found, foundToo, ih]
  | case3 high low tail noTriple ih =>
    simp only [List.cons_append] at ih ⊢
    rw [decode, decode]
    split
    · next first second found foundToo =>
        exact absurd foundToo (noTriple first second found)
    · rw [ih]
      rfl
  | case4 head tail noTriple ih =>
    by_cases isPercent : head = '%'
    · subst isPercent
      cases tail with
      | nil => exact decode_percent_end noDigit
      | cons high tail =>
      cases tail with
      | nil =>
        rw [List.cons_append, List.cons_append, List.nil_append,
          decode_percent (Or.inr noDigit)]
        have single : decode ['%', high] = '%' :: decode [high] := by
          rw [decode]
          exact noTriple
        rw [single]
        exact congrArg _ ih
      | cons low tail => exact absurd rfl (noTriple high low tail rfl)
    · rw [List.cons_append, decode_cons_of_ne isPercent,
        decode_cons_of_ne isPercent, ih]
      rfl

theorem length_decode_le (text : List Char) :
    (decode text).length ≤ text.length := by
  induction text using decode.induct with
  | case1 => exact Nat.le_refl _
  | case2 high low tail first second found foundToo ih =>
    simp only [decode, found, foundToo, List.length_cons]
    omega
  | case3 high low tail noTriple ih =>
    rw [decode]
    split
    · next first second found foundToo =>
        exact absurd foundToo (noTriple first second found)
    · simp only [List.length_cons] at ih ⊢
      omega
  | case4 head tail noTriple ih =>
    rw [decode]
    · exact Nat.succ_le_succ ih
    · exact noTriple

def IsCoded (text : List Char) : Prop :=
  ∀ char ∈ text, safe.isSafe char = false → char.toNat < 256

theorem decode_escapeChar_append
    (narrow : safe.isSafe char = false → char.toNat < 256)
    (rest : List Char) :
    decode (escapeChar safe char ++ rest) = char :: decode rest := by
  unfold escapeChar
  split
  · next isSafe =>
      refine decode_cons_of_ne ?_
      rintro rfl
      exact Bool.false_ne_true (safe.percent.symm.trans isSafe)
  · next isUnsafe =>
      have narrow := narrow (Bool.eq_false_iff.mpr isUnsafe)
      simp only [List.cons_append, List.nil_append, decode]
      rw [hexValue?_hexDigit (by omega), hexValue?_hexDigit (by omega)]
      simp only
      rw [Nat.div_add_mod, Char.ofNat_toNat]

theorem decode_flatMap_append
    (coded : IsCoded safe text) (rest : List Char) :
    decode (text.flatMap (escapeChar safe) ++ rest) = text ++ decode rest := by
  induction text with
  | nil => rfl
  | cons char tail ih =>
    obtain ⟨codedHead, codedTail⟩ := List.forall_mem_cons.mp coded
    rw [List.flatMap_cons, List.append_assoc,
      decode_escapeChar_append safe codedHead,
      ih codedTail]
    rfl

theorem not_mem_flatMap (coded : IsCoded safe text)
    (isUnsafe : safe.isSafe char = false)
    (different : char ≠ '%') (noDigit : hexValue? char = none) :
    char ∉ text.flatMap (escapeChar safe) := by
  have noDigitOf (value : Nat) (small : value < 16) :
      char ≠ hexDigit value := by
    rintro rfl
    rw [hexValue?_hexDigit small] at noDigit
    cases noDigit
  intro isIn
  obtain ⟨source, isSource, isIn⟩ := List.mem_flatMap.mp isIn
  unfold escapeChar at isIn
  split at isIn
  · next isSafe =>
      obtain rfl := List.mem_singleton.mp isIn
      exact Bool.false_ne_true (isUnsafe.symm.trans isSafe)
  · next isUnsafeSource =>
      have bound := coded source isSource (Bool.eq_false_iff.mpr isUnsafeSource)
      simp only [List.mem_cons, List.not_mem_nil, or_false] at isIn
      rcases isIn with same | same | same
      · exact different same
      · exact noDigitOf _ (by omega) same
      · exact noDigitOf _ (by omega) same

theorem eq_flatMap_of_escape
    {escaped : List Char} (escapes : escape safe text = some escaped) :
    IsCoded safe text ∧ escaped = text.flatMap (escapeChar safe) := by
  unfold escape at escapes
  split at escapes
  · next narrow =>
      refine ⟨?_, (Option.some.inj escapes).symm⟩
      intro char isIn _
      exact of_decide_eq_true (List.all_eq_true.mp narrow char isIn)
  · cases escapes

theorem decode_escape_append
    {escaped : List Char} (escapes : escape safe text = some escaped)
    (rest : List Char) :
    decode (escaped ++ rest) = text ++ decode rest := by
  obtain ⟨coded, rfl⟩ := eq_flatMap_of_escape safe escapes
  exact decode_flatMap_append safe coded rest

theorem not_mem_of_escape
    {escaped : List Char} (escapes : escape safe text = some escaped)
    (isUnsafe : safe.isSafe char = false)
    (different : char ≠ '%') (noDigit : hexValue? char = none) :
    char ∉ escaped := by
  obtain ⟨coded, rfl⟩ := eq_flatMap_of_escape safe escapes
  exact not_mem_flatMap safe coded isUnsafe different noDigit

theorem exists_escape_iff :
    (∃ escaped, escape safe text = some escaped) ↔ isNarrow text = true := by
  unfold escape
  split <;> simp_all

end PercentCoding

end Library
