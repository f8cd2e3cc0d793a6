import Mathlib.Data.List.Infix

namespace Library.Utf8Table

/-!
# The table of well-formed UTF-8 sequences

A sequence is read by ranges for each of its bytes, which exclude overlong
forms, surrogates and values behind the last code point.  The table takes
exactly the encodings of characters, and no two encodings overlap.
-/

abbrev ByteClass := List (Nat × Nat)

def ByteClass.has (byteClass : ByteClass) (byte : UInt8) : Bool :=
  byteClass.any fun range =>
    decide (range.1 ≤ byte.toNat) && decide (byte.toNat ≤ range.2)

def continuation : ByteClass :=
  [(0x80, 0xBF)]

/-- The well-formed sequences, by their first bytes. -/
def alternatives : List (List ByteClass) :=
  [[[(0x00, 0x7F)]], [[(0xC2, 0xDF)], continuation],
    [[(0xE0, 0xE0)], [(0xA0, 0xBF)], continuation],
    [[(0xE1, 0xEC), (0xEE, 0xEF)], continuation, continuation],
    [[(0xED, 0xED)], [(0x80, 0x9F)], continuation],
    [[(0xF0, 0xF0)], [(0x90, 0xBF)], continuation, continuation],
    [[(0xF1, 0xF3)], continuation, continuation, continuation],
    [[(0xF4, 0xF4)], [(0x80, 0x8F)], continuation, continuation]]

/-- Whether the first bytes are in the classes of an alternative. -/
def startsWith : List ByteClass → List UInt8 → Bool
  | [], _ => true
  | _ :: _, [] => false
  | byteClass :: classes, byte :: rest =>
    byteClass.has byte && startsWith classes rest

def sequence? (bytes : List UInt8) : Option (List UInt8) :=
  (alternatives.find? (startsWith · bytes)).map fun classes =>
    bytes.take classes.length

theorem exists_char {value : Nat} (valid : value.isValidChar) :
    ∃ char : Char, char.val.toNat = value :=
  ⟨Char.ofNatAux value valid, rfl⟩

structure Two (first second : UInt8) : Prop where
  lead : 0xC2 ≤ first.toNat ∧ first.toNat ≤ 0xDF
  more : 0x80 ≤ second.toNat ∧ second.toNat ≤ 0xBF

structure Three (first second third : UInt8) : Prop where
  lead : 0xE0 ≤ first.toNat ∧ first.toNat ≤ 0xEF
  more : 0x80 ≤ second.toNat ∧ second.toNat ≤ 0xBF
  last : 0x80 ≤ third.toNat ∧ third.toNat ≤ 0xBF
  shortest : first.toNat = 0xE0 → 0xA0 ≤ second.toNat
  scalar : first.toNat = 0xED → second.toNat ≤ 0x9F

structure Four (first second third fourth : UInt8) : Prop where
  lead : 0xF0 ≤ first.toNat ∧ first.toNat ≤ 0xF4
  more : 0x80 ≤ second.toNat ∧ second.toNat ≤ 0xBF
  next : 0x80 ≤ third.toNat ∧ third.toNat ≤ 0xBF
  last : 0x80 ≤ fourth.toNat ∧ fourth.toNat ≤ 0xBF
  shortest : first.toNat = 0xF0 → 0x90 ≤ second.toNat
  scalar : first.toNat = 0xF4 → second.toNat ≤ 0x8F

inductive Sequence : List UInt8 → Prop where
  | one {first} : first.toNat ≤ 0x7F → Sequence [first]
  | two {first second} : Two first second → Sequence [first, second]
  | three {first second third} :
      Three first second third → Sequence [first, second, third]
  | four {first second third fourth} :
      Four first second third fourth →
      Sequence [first, second, third, fourth]

variable {bytes : List UInt8}

theorem Sequence.encodes (sequence : Sequence bytes) :
    ∃ char, bytes = String.utf8EncodeChar char := by
  cases sequence with
  | @one first small =>
    obtain ⟨char, value⟩ :=
      @exists_char first.toNat (Or.inl (by omega))
    refine ⟨char, ?_⟩
    rw [String.utf8EncodeChar, value]
    simp [small]
  | @two first second ranges =>
    obtain ⟨lead, more⟩ := ranges
    obtain ⟨char, value⟩ :=
      @exists_char ((first.toNat - 0xC0) * 64 + (second.toNat - 0x80))
        (Or.inl (by omega))
    refine ⟨char, ?_⟩
    rw [String.utf8EncodeChar, value, if_neg (by omega), if_pos (by omega)]
    simp only [List.cons.injEq, ← UInt8.toNat_inj, UInt8.toNat_ofNat',
      and_true]
    omega
  | @three first second third ranges =>
    obtain ⟨lead, more, last, shortest, scalar⟩ := ranges
    obtain ⟨char, value⟩ :=
      @exists_char
        ((first.toNat - 0xE0) * 4096 + (second.toNat - 0x80) * 64 +
          (third.toNat - 0x80))
        (by unfold Nat.isValidChar; omega)
    refine ⟨char, ?_⟩
    rw [String.utf8EncodeChar, value, if_neg (by omega),
      if_neg (by omega), if_pos (by omega)]
    simp only [List.cons.injEq, ← UInt8.toNat_inj, UInt8.toNat_ofNat',
      and_true]
    omega
  | @four first second third fourth ranges =>
    obtain ⟨lead, more, next, last, shortest, scalar⟩ := ranges
    obtain ⟨char, value⟩ :=
      @exists_char
        ((first.toNat - 0xF0) * 262144 + (second.toNat - 0x80) * 4096 +
          (third.toNat - 0x80) * 64 + (fourth.toNat - 0x80))
        (by unfold Nat.isValidChar; omega)
    refine ⟨char, ?_⟩
    rw [String.utf8EncodeChar, value, if_neg (by omega),
      if_neg (by omega), if_neg (by omega)]
    simp only [List.cons.injEq, ← UInt8.toNat_inj, UInt8.toNat_ofNat',
      and_true]
    omega

theorem sequence_encoded (char : Char) :
    Sequence (String.utf8EncodeChar char) := by
  have valid : char.val.toNat.isValidChar := char.valid
  unfold Nat.isValidChar at valid
  unfold String.utf8EncodeChar
  generalize char.val.toNat = value at valid
  dsimp only
  split
  · refine .one ?_
    rw [UInt8.toNat_ofNat']
    omega
  · split
    · constructor
      constructor <;> simp only [UInt8.toNat_ofNat'] <;> omega
    · split
      · constructor
        constructor <;> simp only [UInt8.toNat_ofNat'] <;> omega
      · constructor
        constructor <;> simp only [UInt8.toNat_ofNat'] <;> omega

attribute [local simp] startsWith ByteClass.has continuation

theorem sequence_of_startsWith {classes : List ByteClass}
    (listed : classes ∈ alternatives)
    (starts : startsWith classes bytes = true) :
    Sequence (bytes.take classes.length) := by
  simp only [alternatives, List.mem_cons, List.not_mem_nil, or_false]
    at listed
  rcases bytes with
    _ | ⟨first, _ | ⟨second, _ | ⟨third, _ | ⟨fourth, rest⟩⟩⟩⟩ <;>
    rcases listed with rfl | rfl | rfl | rfl | rfl | rfl | rfl | rfl <;>
    simp at starts ⊢
  all_goals constructor
  all_goals first | omega | (constructor <;> omega)

theorem Sequence.read {sequence : List UInt8}
    (holds : Sequence sequence) (rest : List UInt8) :
    ∃ classes ∈ alternatives,
      startsWith classes (sequence ++ rest) = true := by
  cases holds with
  | one small =>
    exact ⟨[[(0x00, 0x7F)]], by decide, by simp [small]⟩
  | two ranges =>
    obtain ⟨lead, more⟩ := ranges
    exact ⟨[[(0xC2, 0xDF)], continuation], by decide, by simp [lead, more]⟩
  | @three first second third ranges =>
    obtain ⟨lead, more, last, shortest, scalar⟩ := ranges
    by_cases low : first.toNat = 0xE0
    · exact ⟨[[(0xE0, 0xE0)], [(0xA0, 0xBF)], continuation], by decide,
        by simp [low, more, last, shortest low]⟩
    · by_cases high : first.toNat = 0xED
      · exact ⟨[[(0xED, 0xED)], [(0x80, 0x9F)], continuation],
          by decide, by simp [high, more, last, scalar high]⟩
      · refine ⟨[[(0xE1, 0xEC), (0xEE, 0xEF)], continuation,
          continuation], by decide, ?_⟩
        simp [more, last]
        omega
  | @four first second third fourth ranges =>
    obtain ⟨lead, more, next, last, shortest, scalar⟩ := ranges
    by_cases low : first.toNat = 0xF0
    · exact ⟨[[(0xF0, 0xF0)], [(0x90, 0xBF)], continuation,
        continuation], by decide,
        by simp [low, more, next, last, shortest low]⟩
    · by_cases high : first.toNat = 0xF4
      · exact ⟨[[(0xF4, 0xF4)], [(0x80, 0x8F)], continuation,
          continuation], by decide,
          by simp [high, more, next, last, scalar high]⟩
      · refine ⟨[[(0xF1, 0xF3)], continuation, continuation,
          continuation], by decide, ?_⟩
        simp [more, next, last]
        omega

theorem eq_of_encoded_prefix {char other : Char}
    (starts : String.utf8EncodeChar char <+: bytes)
    (also : String.utf8EncodeChar other <+: bytes) : char = other := by
  obtain ⟨rest, rfl⟩ := starts
  obtain ⟨last, same⟩ := also
  have decoded :=
    @ByteArray.utf8DecodeChar?_utf8EncodeChar_append
      rest.toByteArray char
  have again :=
    @ByteArray.utf8DecodeChar?_utf8EncodeChar_append
      last.toByteArray other
  rw [← List.toByteArray_append, same, List.toByteArray_append,
    decoded] at again
  exact Option.some.inj again

theorem exists_encoded_of_find? {classes : List ByteClass}
    (found : alternatives.find? (startsWith · bytes) = some classes) :
    ∃ char, bytes.take classes.length = String.utf8EncodeChar char := by
  have starts : startsWith classes bytes = true := by
    simpa using List.find?_some found
  exact (sequence_of_startsWith (List.mem_of_find?_eq_some found)
    starts).encodes

theorem sequence?_encoded (char : Char) (rest : List UInt8) :
    sequence? (String.utf8EncodeChar char ++ rest) =
      some (String.utf8EncodeChar char) := by
  obtain ⟨classes, listed, starts⟩ := (sequence_encoded char).read rest
  cases found : alternatives.find?
      (startsWith · (String.utf8EncodeChar char ++ rest)) with
  | none =>
    exact absurd starts (List.find?_eq_none.mp found classes listed)
  | some taken =>
    obtain ⟨other, encoded⟩ := exists_encoded_of_find? found
    have same : other = char :=
      eq_of_encoded_prefix (encoded ▸ List.take_prefix _ _)
        (List.prefix_append _ _)
    rw [sequence?, found, Option.map_some, encoded, same]

theorem exists_of_sequence? {sequence : List UInt8}
    (taken : sequence? bytes = some sequence) :
    ∃ char rest, sequence = String.utf8EncodeChar char ∧
      bytes = sequence ++ rest := by
  obtain ⟨classes, found, rfl⟩ := Option.map_eq_some_iff.mp taken
  obtain ⟨char, encoded⟩ := exists_encoded_of_find? found
  exact ⟨char, _, encoded, (List.take_append_drop _ _).symm⟩

theorem exists_first_byte (char : Char) :
    ∃ first rest, String.utf8EncodeChar char = first :: rest ∧
      (first.toNat < 0x80 ∨ 0xC0 ≤ first.toNat) ∧
      ∀ byte ∈ rest, 0x80 ≤ byte.toNat ∧ byte.toNat < 0xC0 := by
  have table := sequence_encoded char
  generalize String.utf8EncodeChar char = bytes at table
  cases table with
  | one small =>
    exact ⟨_, _, rfl, Or.inl (by omega), by simp⟩
  | two ranges =>
    obtain ⟨lead, more⟩ := ranges
    exact ⟨_, _, rfl, Or.inr (by omega), by simp; omega⟩
  | three ranges =>
    obtain ⟨lead, more, last, -, -⟩ := ranges
    exact ⟨_, _, rfl, Or.inr (by omega), by simp; omega⟩
  | four ranges =>
    obtain ⟨lead, more, next, last, -, -⟩ := ranges
    exact ⟨_, _, rfl, Or.inr (by omega), by simp; omega⟩

theorem exists_of_encoded_append {char other : Char}
    {front rest back : List UInt8} (nonempty : front ≠ [])
    (same :
      String.utf8EncodeChar other ++ rest =
        front ++ (String.utf8EncodeChar char ++ back)) :
    ∃ middle, front = String.utf8EncodeChar other ++ middle := by
  rcases List.append_eq_append_iff.mp same with
    ⟨middle, shape, -⟩ | ⟨middle, shape, later⟩
  · exact ⟨middle, shape⟩
  · cases middle with
    | nil => exact ⟨[], by simpa using shape.symm⟩
    | cons byte others =>
      obtain ⟨first, more, encoded, starts, -⟩ := exists_first_byte char
      obtain ⟨lead, tail, whole, -, continues⟩ :=
        exists_first_byte other
      rw [encoded, List.cons_append] at later
      obtain ⟨rfl, -⟩ := List.cons.inj later
      rw [whole] at shape
      cases front with
      | nil => exact absurd rfl nonempty
      | cons head last =>
        obtain ⟨-, rfl⟩ := List.cons.inj shape
        have inside := continues first (by simp)
        omega

end Library.Utf8Table
