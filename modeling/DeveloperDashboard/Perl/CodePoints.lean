import Mathlib.Algebra.GroupWithZero.Nat
import DeveloperDashboard.Library.TextReplacement
import DeveloperDashboard.Perl.Encoding

namespace DeveloperDashboard.Perl

open Library

/-!
# The characters of held strings

Perl's characters are the numbers below 2^63, in its own extension of UTF-8.  A
string with the flag is held in that form, a string without it as one byte for
each character.
-/

/-- The base of the first byte, and how many bytes follow it. -/
def utf8Shape (code : Nat) : Nat × Nat :=
  if code < 0x80 then (0, 0)
  else if code < 0x800 then (0xC0, 1)
  else if code < 0x10000 then (0xE0, 2)
  else if code < 0x200000 then (0xF0, 3)
  else if code < 0x4000000 then (0xF8, 4)
  else if code < 0x80000000 then (0xFC, 5)
  else if code < 0x1000000000 then (0xFE, 6)
  else (0xFF, 12)

def laterBytes : Nat → Nat → Bytes
  | 0, _ => []
  | count + 1, code =>
    UInt8.ofNat (0x80 + code / 64 ^ count % 64) :: laterBytes count code

def firstByte (code : Nat) : Nat :=
  (utf8Shape code).1 + code / 64 ^ (utf8Shape code).2

def perlUtf8 (code : Nat) : Bytes :=
  UInt8.ofNat (firstByte code) :: laterBytes (utf8Shape code).2 code

def heldBytes (utf8 : Bool) (codes : List Nat) : Bytes :=
  if utf8 then codes.flatMap perlUtf8 else codes.map UInt8.ofNat

/-- Whether characters can be held with or without the flag. -/
def IsHeldAs (utf8 : Bool) (codes : List Nat) : Prop :=
  ∀ code ∈ codes, code < if utf8 then 2 ^ 63 else 2 ^ 8

instance (utf8 : Bool) (codes : List Nat) :
    Decidable (IsHeldAs utf8 codes) :=
  inferInstanceAs
    (Decidable (∀ code ∈ codes, code < if utf8 then 2 ^ 63 else 2 ^ 8))

def HeldString.ReadsAs (text : HeldString) (codes : List Nat) : Prop :=
  IsHeldAs text.utf8 codes ∧ heldBytes text.utf8 codes = text.bytes

variable {code : Nat}

theorem firstByte_range (inRange : code < 2 ^ 63) :
    (firstByte code < 0x80 ∧ utf8Shape code = (0, 0)) ∨
      (0xC0 ≤ firstByte code ∧ firstByte code < 0xE0 ∧
        utf8Shape code = (0xC0, 1)) ∨
      (0xE0 ≤ firstByte code ∧ firstByte code < 0xF0 ∧
        utf8Shape code = (0xE0, 2)) ∨
      (0xF0 ≤ firstByte code ∧ firstByte code < 0xF8 ∧
        utf8Shape code = (0xF0, 3)) ∨
      (0xF8 ≤ firstByte code ∧ firstByte code < 0xFC ∧
        utf8Shape code = (0xF8, 4)) ∨
      (0xFC ≤ firstByte code ∧ firstByte code < 0xFE ∧
        utf8Shape code = (0xFC, 5)) ∨
      (firstByte code = 0xFE ∧ utf8Shape code = (0xFE, 6)) ∨
      firstByte code = 0xFF ∧ utf8Shape code = (0xFF, 12) := by
  unfold firstByte utf8Shape
  split_ifs
  · exact .inl ⟨by simp only; omega, rfl⟩
  · exact .inr (.inl ⟨by simp only; omega, by simp only; omega, rfl⟩)
  · exact .inr (.inr (.inl
      ⟨by simp only; omega, by simp only; omega, rfl⟩))
  · exact .inr (.inr (.inr (.inl
      ⟨by simp only; omega, by simp only; omega, rfl⟩)))
  · exact .inr (.inr (.inr (.inr (.inl
      ⟨by simp only; omega, by simp only; omega, rfl⟩))))
  · exact .inr (.inr (.inr (.inr (.inr (.inl
      ⟨by simp only; omega, by simp only; omega, rfl⟩)))))
  · exact .inr (.inr (.inr (.inr (.inr (.inr (.inl
      ⟨by simp only; omega, rfl⟩))))))
  · exact .inr (.inr (.inr (.inr (.inr (.inr (.inr
      ⟨by simp only; omega, rfl⟩))))))

theorem length_laterBytes (count code : Nat) :
    (laterBytes count code).length = count := by
  induction count with
  | zero => rfl
  | succ count ih =>
    rw [laterBytes, List.length_cons, ih]

theorem perlUtf8_of_ascii (ascii : code < 128) :
    perlUtf8 code = [UInt8.ofNat code] := by
  have shape : utf8Shape code = (0, 0) := if_pos ascii
  unfold perlUtf8 firstByte
  rw [shape]
  simp [laterBytes]

theorem two_le_length_perlUtf8 (other : 128 ≤ code) :
    2 ≤ (perlUtf8 code).length := by
  unfold perlUtf8
  rw [List.length_cons, length_laterBytes]
  unfold utf8Shape
  split_ifs
  · omega
  all_goals decide

theorem length_flatMap_perlUtf8 (codes : List Nat) :
    codes.length ≤ (codes.flatMap perlUtf8).length ∧
      ((codes.flatMap perlUtf8).length = codes.length →
        ∀ code ∈ codes, code < 128) := by
  induction codes with
  | nil => simp
  | cons code rest ih =>
    obtain ⟨longer, ascii⟩ := ih
    rw [List.flatMap_cons, List.length_append, List.length_cons]
    by_cases small : code < 128
    · rw [perlUtf8_of_ascii small, List.length_singleton]
      refine ⟨by omega, fun same => ?_⟩
      exact List.forall_mem_cons.mpr ⟨small, ascii (by omega)⟩
    · have two := two_le_length_perlUtf8 (Nat.le_of_not_lt small)
      exact ⟨by omega, by omega⟩

theorem heldBytes_eq_iff {codes : List Nat} :
    heldBytes true codes = heldBytes false codes ↔
      ∀ code ∈ codes, code < 128 := by
  constructor
  · intro same
    refine (length_flatMap_perlUtf8 codes).2 ?_
    have lengths := congrArg List.length same
    simpa [heldBytes] using lengths
  · intro ascii
    unfold heldBytes
    rw [if_pos rfl, if_neg Bool.false_ne_true]
    induction codes with
    | nil => rfl
    | cons code rest ih =>
      rw [List.forall_mem_cons] at ascii
      rw [List.flatMap_cons, List.map_cons, perlUtf8_of_ascii ascii.1,
        ih ascii.2]
      rfl

theorem heldBytes_append (utf8 : Bool) (left right : List Nat) :
    heldBytes utf8 (left ++ right) =
      heldBytes utf8 left ++ heldBytes utf8 right := by
  unfold heldBytes
  split
  · exact List.flatMap_append
  · exact List.map_append

theorem IsHeldAs.withFlag {utf8 : Bool} {codes : List Nat}
    (isHeld : IsHeldAs utf8 codes) : IsHeldAs true codes := by
  intro code member
  have bound := isHeld code member
  cases utf8 with
  | true => exact bound
  | false => exact Nat.lt_trans bound (by decide)

theorem IsHeldAs.append {utf8 : Bool} {left right : List Nat}
    (leftHeld : IsHeldAs utf8 left) (rightHeld : IsHeldAs utf8 right) :
    IsHeldAs utf8 (left ++ right) := by
  intro code member
  rcases List.mem_append.mp member with inLeft | inRight
  · exact leftHeld code inLeft
  · exact rightHeld code inRight

def HeldString.join (left right : HeldString) : HeldString where
  bytes := left.bytes ++ right.bytes
  utf8 := left.utf8 || right.utf8

/--
Joined strings read as the characters of both if and only if the flags agree,
or the one without the flag is ASCII.
-/
theorem HeldString.join_readsAs_iff
    {left right : HeldString} {first second : List Nat}
    (leftReads : left.ReadsAs first) (rightReads : right.ReadsAs second) :
    (left.join right).ReadsAs (first ++ second) ↔
      left.utf8 = right.utf8 ∨
        (left.utf8 = false ∧ ∀ code ∈ first, code < 128) ∨
        (right.utf8 = false ∧ ∀ code ∈ second, code < 128) := by
  obtain ⟨leftBytes, leftFlag⟩ := left
  obtain ⟨rightBytes, rightFlag⟩ := right
  unfold HeldString.ReadsAs at leftReads rightReads ⊢
  unfold HeldString.join
  simp only at leftReads rightReads ⊢
  obtain ⟨leftHeld, rfl⟩ := leftReads
  obtain ⟨rightHeld, rfl⟩ := rightReads
  cases leftFlag with
  | true =>
    cases rightFlag with
    | true =>
      simp only [Bool.or_self, true_or, iff_true]
      exact ⟨leftHeld.append rightHeld, heldBytes_append true _ _⟩
    | false =>
      rw [Bool.true_or, heldBytes_append, List.append_right_inj,
        heldBytes_eq_iff]
      simp [leftHeld.append rightHeld.withFlag]
  | false =>
    cases rightFlag with
    | true =>
      rw [Bool.false_or, heldBytes_append, List.append_left_inj,
        heldBytes_eq_iff]
      simp [leftHeld.withFlag.append rightHeld]
    | false =>
      simp only [Bool.or_self, true_or, iff_true]
      exact ⟨leftHeld.append rightHeld, heldBytes_append false _ _⟩

/-!
# Replacing ASCII characters of held strings

The bytes of an ASCII character stand for nothing else in a held string, with
or without the flag.  Replacing these bytes replaces the characters.
-/

def byteTable (table : ReplacementTable Nat) : ReplacementTable UInt8 :=
  fun byte => (table byte.toNat).map (List.map UInt8.ofNat)

def IsAsciiTable (table : ReplacementTable Nat) : Prop :=
  ∀ code entry, table code = some entry →
    code < 128 ∧ ∀ other ∈ entry, other < 128

def HeldString.replaceBytes
    (table : ReplacementTable UInt8) (text : HeldString) : HeldString where
  bytes := replaceEach table text.bytes
  utf8 := text.utf8

variable {code : Nat} {byte : UInt8}

theorem high_of_mem_laterBytes {count : Nat}
    (member : byte ∈ laterBytes count code) : 128 ≤ byte.toNat := by
  induction count with
  | zero => exact absurd member List.not_mem_nil
  | succ count ih =>
    rcases List.mem_cons.mp member with rfl | later
    · rw [UInt8.toNat_ofNat']
      omega
    · exact ih later

theorem high_of_mem_perlUtf8 (inRange : code < 2 ^ 63) (other : 128 ≤ code)
    (member : byte ∈ perlUtf8 code) :
    128 ≤ byte.toNat := by
  rcases List.mem_cons.mp member with rfl | later
  · rw [UInt8.toNat_ofNat']
    have shape : utf8Shape code ≠ (0, 0) := by
      unfold utf8Shape
      split_ifs
      · omega
      all_goals exact ne_of_beq_false rfl
    have range := firstByte_range inRange
    rcases range with ⟨-, same⟩ | ⟨low, high, -⟩ | ⟨low, high, -⟩ |
      ⟨low, high, -⟩ | ⟨low, high, -⟩ | ⟨low, high, -⟩ | ⟨same, -⟩ |
      ⟨same, -⟩
    · exact absurd same shape
    all_goals omega
  · exact high_of_mem_laterBytes later

theorem heldBytes_singleton_of_ascii (utf8 : Bool) (ascii : code < 128) :
    heldBytes utf8 [code] = [UInt8.ofNat code] := by
  cases utf8 with
  | true =>
    exact (List.flatMap_singleton _ _).trans (perlUtf8_of_ascii ascii)
  | false => rfl

variable {codes : List Nat}

theorem heldBytes_of_ascii
    (utf8 : Bool) (ascii : ∀ code ∈ codes, code < 128) :
    heldBytes utf8 codes = codes.map UInt8.ofNat := by
  cases utf8 with
  | true => exact heldBytes_eq_iff.mpr ascii
  | false => rfl

variable {utf8 : Bool}

theorem high_of_mem_heldBytes (isHeld : IsHeldAs utf8 [code])
    (other : 128 ≤ code)
    (member : byte ∈ heldBytes utf8 [code]) : 128 ≤ byte.toNat := by
  have bound := isHeld code List.mem_cons_self
  cases utf8 with
  | true =>
    rw [heldBytes, if_pos rfl, List.flatMap_singleton] at member
    exact high_of_mem_perlUtf8 bound other member
  | false =>
    rw [heldBytes, if_neg Bool.false_ne_true, List.map_singleton,
      List.mem_singleton] at member
    subst member
    rw [if_neg Bool.false_ne_true] at bound
    rw [UInt8.toNat_ofNat']
    omega

variable {table : ReplacementTable Nat}

theorem replaceEach_heldBytes_singleton (ascii : IsAsciiTable table)
    (isHeld : IsHeldAs utf8 [code]) :
    replaceEach (byteTable table) (heldBytes utf8 [code]) =
      heldBytes utf8 ((table code).getD [code]) := by
  by_cases small : code < 128
  · have number : (UInt8.ofNat code).toNat = code := by
      rw [UInt8.toNat_ofNat']
      omega
    rw [heldBytes_singleton_of_ascii utf8 small, replaceEach_cons,
      replaceEach_nil, List.append_nil, byteTable, number]
    cases found : table code with
    | none => exact (heldBytes_singleton_of_ascii utf8 small).symm
    | some entry =>
      exact (heldBytes_of_ascii utf8 (ascii code entry found).2).symm
  · have absent : table code = none := by
      refine Option.eq_none_iff_forall_ne_some.mpr fun entry found => ?_
      exact small (ascii code entry found).1
    rw [absent, Option.getD_none]
    refine replaceEach_of_untouched fun byte member => ?_
    have high :=
      high_of_mem_heldBytes isHeld (Nat.le_of_not_lt small) member
    refine Option.map_eq_none_iff.mpr ?_
    refine Option.eq_none_iff_forall_ne_some.mpr fun entry found => ?_
    exact Nat.not_lt_of_le high (ascii byte.toNat entry found).1

theorem replaceEach_heldBytes (ascii : IsAsciiTable table)
    (isHeld : IsHeldAs utf8 codes) :
    replaceEach (byteTable table) (heldBytes utf8 codes) =
      heldBytes utf8 (replaceEach table codes) := by
  induction codes with
  | nil => cases utf8 <;> rfl
  | cons code rest ih =>
    have parts := List.forall_mem_cons.mp isHeld
    have one : IsHeldAs utf8 [code] := by
      intro other member
      rw [List.mem_singleton.mp member]
      exact parts.1
    have split : code :: rest = [code] ++ rest := rfl
    rw [split, heldBytes_append, replaceEach_append,
      replaceEach_heldBytes_singleton ascii one,
      ih parts.2, replaceEach_append,
      heldBytes_append, replaceEach_cons, replaceEach_nil,
      List.append_nil]

theorem IsHeldAs.replaceEach (ascii : IsAsciiTable table)
    (isHeld : IsHeldAs utf8 codes) :
    IsHeldAs utf8 (Library.replaceEach table codes) := by
  intro code member
  obtain ⟨original, inText, inEntry⟩ := List.mem_flatMap.mp member
  cases found : table original with
  | none =>
    rw [found, Option.getD_none, List.mem_singleton] at inEntry
    subst inEntry
    exact isHeld code inText
  | some entry =>
    rw [found, Option.getD_some] at inEntry
    have small := (ascii original entry found).2 code inEntry
    cases utf8 with
    | true => exact Nat.lt_trans small (by decide)
    | false => exact Nat.lt_trans small (by decide)

theorem HeldString.ReadsAs.replaceBytes
    (ascii : IsAsciiTable table) {text : HeldString}
    (reads : text.ReadsAs codes) :
    (text.replaceBytes (byteTable table)).ReadsAs
      (Library.replaceEach table codes) := by
  obtain ⟨isHeld, bytes⟩ := reads
  refine ⟨isHeld.replaceEach ascii, ?_⟩
  rw [HeldString.replaceBytes, ← bytes]
  exact (replaceEach_heldBytes ascii isHeld).symm

end DeveloperDashboard.Perl
