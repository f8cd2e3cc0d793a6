import DeveloperDashboard.Perl.Text

namespace DeveloperDashboard.Perl

/-!
# Characters and bytes

What `print` writes to a raw handle, and what the strict decoder of `UTF-8`
accepts.
-/

abbrev Bytes :=
  List UInt8

def isNarrow (char : Char) : Bool :=
  decide (char.toNat ≤ 0xFF)

/-- A text with one byte for each character, or `Wide character`. -/
def narrowBytes? (text : Text) : Option Bytes :=
  if text.all isNarrow then
    some (text.map fun char => UInt8.ofNat char.toNat)
  else none

def byteText (bytes : Bytes) : Text :=
  bytes.map fun byte => Char.ofNat byte.toNat

def utf8Bytes (text : Text) : Bytes :=
  text.flatMap String.utf8EncodeChar

/--
What `print` writes to a handle without an encoding layer.  A text with a wide
character is written in UTF-8, with a warning; any other as its bytes.
-/
def printRaw (text : Text) : Bytes :=
  (narrowBytes? text).getD (utf8Bytes text)

/-- Code points that Unicode reserves as noncharacters. -/
def isNoncharacter (char : Char) : Bool :=
  decide (0xFDD0 ≤ char.toNat ∧ char.toNat ≤ 0xFDEF) ||
    decide (0xFFFE ≤ char.toNat % 0x10000)

/-- `decode('UTF-8', $raw, FB_CROAK)`, which refuses noncharacters too. -/
def decodeStrict? (bytes : Bytes) : Option Text :=
  match bytes.toByteArray.utf8Decode? with
  | some chars =>
    if chars.toList.any isNoncharacter then none
    else some chars.toList
  | none => none

theorem ofNat_narrow {char : Char} (narrow : isNarrow char = true) :
    Char.ofNat (UInt8.ofNat char.toNat).toNat = char := by
  have small : char.toNat ≤ 0xFF := by simpa [isNarrow] using narrow
  have same : (UInt8.ofNat char.toNat).toNat = char.toNat := by
    simp only [UInt8.toNat_ofNat']
    omega
  rw [same, Char.ofNat_toNat]

variable {text : Text}

theorem byteText_of_narrowBytes {bytes : Bytes}
    (encoded : narrowBytes? text = some bytes) :
    byteText bytes = text := by
  unfold narrowBytes? at encoded
  split at encoded
  · rename_i narrow
    obtain rfl := Option.some.inj encoded
    rw [List.all_eq_true] at narrow
    unfold byteText
    rw [List.map_map, List.map_congr_left, List.map_id]
    intro char member
    exact ofNat_narrow (narrow char member)
  · contradiction

theorem toNat_ofNat_byte (byte : UInt8) :
    (Char.ofNat byte.toNat).toNat = byte.toNat := by
  have bound := byte.toNat_lt
  rw [Char.ofNat, dif_pos (Or.inl (by omega))]
  rfl

theorem map_byteText (bytes : Bytes) :
    (byteText bytes).map (fun char => UInt8.ofNat char.toNat) = bytes := by
  unfold byteText
  rw [List.map_map]
  conv => rhs; rw [← List.map_id bytes]
  apply List.map_congr_left
  intro byte member
  simp [toNat_ofNat_byte byte]

theorem narrowBytes?_eq_none_iff (text : Text) :
    narrowBytes? text = none ↔
      ∃ char ∈ text, 0xFF < char.toNat := by
  unfold narrowBytes?
  split
  · rename_i narrow
    simp only [List.all_eq_true, isNarrow, decide_eq_true_eq] at narrow
    simp only [reduceCtorEq, false_iff, not_exists, not_and, not_lt]
    exact narrow
  · rename_i wide
    simpa [isNarrow] using wide

theorem decodeStrict?_utf8Bytes_refused
    (unassigned : text.any isNoncharacter = true) :
    decodeStrict? (utf8Bytes text) = none := by
  have decoded :
      (utf8Bytes text).toByteArray.utf8Decode? = some text.toArray :=
    List.utf8Decode?_utf8Encode
  unfold decodeStrict?
  rw [decoded]
  exact if_pos unassigned

theorem decodeStrict?_utf8Bytes
    (assigned : text.any isNoncharacter = false) :
    decodeStrict? (utf8Bytes text) = some text := by
  have decoded :
      (utf8Bytes text).toByteArray.utf8Decode? = some text.toArray :=
    List.utf8Decode?_utf8Encode
  unfold decodeStrict?
  rw [decoded]
  exact if_neg (by simpa using assigned)

theorem utf8Bytes_of_decodeStrict? {bytes : Bytes}
    (decoded : decodeStrict? bytes = some text) :
    utf8Bytes text = bytes ∧ text.any isNoncharacter = false := by
  unfold decodeStrict? at decoded
  split at decoded
  · rename_i chars read
    split at decoded
    · contradiction
    · rename_i assigned
      obtain rfl := Option.some.inj decoded
      refine ⟨?_, by simpa using assigned⟩
      have valid : bytes.toByteArray.utf8Decode?.isSome := by
        rw [read]
        rfl
      have same :=
        @ByteArray.utf8Encode_get_utf8Decode? bytes.toByteArray valid
      simp only [read, Option.get_some] at same
      exact List.toByteArray_inj.mp same
  · contradiction

def isAscii (char : Char) : Bool :=
  decide (char.toNat < 0x80)

theorem utf8Size_eq_one_iff (char : Char) :
    char.utf8Size = 1 ↔ isAscii char = true := by
  unfold isAscii
  rw [decide_eq_true_eq, Char.utf8Size_eq_one_iff]
  constructor
  · intro small
    have := UInt32.le_iff_toNat_le.mp small
    change char.val.toNat < 128
    have bound : (127 : UInt32).toNat = 127 := rfl
    omega
  · intro small
    apply UInt32.le_iff_toNat_le.mpr
    change char.val.toNat ≤ 127
    have same : char.val.toNat = char.toNat := rfl
    omega

theorem narrowBytes?_of_ascii (ascii : text.all isAscii = true) :
    narrowBytes? text = some (utf8Bytes text) := by
  rw [List.all_eq_true] at ascii
  have narrow : text.all isNarrow = true := by
    rw [List.all_eq_true]
    intro char member
    have small := ascii char member
    simp only [isAscii, isNarrow, decide_eq_true_eq] at small ⊢
    omega
  unfold narrowBytes?
  rw [if_pos narrow]
  congr 1
  induction text with
  | nil => rfl
  | cons char rest ih =>
    have oneByte :=
      (utf8Size_eq_one_iff char).mpr (ascii char (by simp))
    have restSame :=
      ih
        (fun other member => ascii other (by simp [member]))
        (by simp only [List.all_cons, Bool.and_eq_true] at narrow
            exact narrow.2)
    simp only [utf8Bytes, List.flatMap_cons, List.map_cons,
      String.utf8EncodeChar_eq_singleton oneByte] at restSame ⊢
    rw [restSame]
    rfl

theorem length_le_length_utf8Bytes (text : Text) :
    text.length ≤ (utf8Bytes text).length := by
  induction text with
  | nil => exact Nat.le_refl 0
  | cons char rest ih =>
    have positive := char.utf8Size_pos
    simp only [utf8Bytes, List.flatMap_cons, List.length_append,
      List.length_cons, String.length_utf8EncodeChar]
      at ih ⊢
    omega

theorem length_lt_length_utf8Bytes (beyond : text.all isAscii = false) :
    text.length < (utf8Bytes text).length := by
  induction text with
  | nil => simp at beyond
  | cons char rest ih =>
    have positive := char.utf8Size_pos
    have restLength := length_le_length_utf8Bytes rest
    simp only [utf8Bytes, List.flatMap_cons, List.length_append,
      List.length_cons, String.length_utf8EncodeChar]
      at ih restLength ⊢
    by_cases ascii : isAscii char = true
    · have restBeyond : rest.all isAscii = false := by
        simpa [ascii] using beyond
      have := ih restBeyond
      omega
    · have := (utf8Size_eq_one_iff char).not.mpr ascii
      omega

/-!
# Strings as Perl holds them

A string is held as bytes with a flag, which says whether the bytes are the
UTF-8 form of the characters or one byte for each of them.
-/

structure HeldString where
  bytes : Bytes
  utf8 : Bool
  deriving DecidableEq

namespace HeldString

def empty : HeldString where
  bytes := []
  utf8 := false

/-- `bytes::length($text)`. -/
def byteLength (text : HeldString) : Nat :=
  text.bytes.length

/-- The string `0`, which is false although it is not empty. -/
def isZero (text : HeldString) : Bool :=
  decide (text.bytes = [0x30])

def isTrue (text : HeldString) : Bool :=
  !text.bytes.isEmpty && !text.isZero

/-- `$text || ''`. -/
def orEmpty (text : HeldString) : HeldString :=
  if text.isTrue then text else empty

theorem byteLength_eq_orEmpty (text : HeldString) :
    text.byteLength =
      text.orEmpty.byteLength + if text.isZero then 1 else 0 := by
  unfold orEmpty isTrue
  by_cases zero : text.isZero = true
  · have bytes : text.bytes = [0x30] := of_decide_eq_true zero
    simp [zero, byteLength, bytes, empty]
  · cases bytes : text.bytes with
    | nil => simp [byteLength, bytes, zero, empty]
    | cons first rest => simp [byteLength, bytes, zero]

end HeldString

end DeveloperDashboard.Perl
