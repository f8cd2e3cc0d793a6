import DeveloperDashboard.Library.Utf8Table
import DeveloperDashboard.Perl.Encoding

namespace DeveloperDashboard.Docker.ComposeYaml

open Perl Library.Utf8Table

/-!
# Compose output as UTF-8

`_compose_yaml_utf8_bytes` of DockerCompose.pm, from the captured output as
Perl holds it.  Both branches of `utf8::is_utf8` start from the bytes that the
string is held in.  Encode's Windows-1252 table is written out.
-/

/-- The characters of the octets from 0x80 to 0x9F; 0 where there is none. -/
def windows1252Table : List Nat :=
  [0x20AC, 0, 0x201A, 0x0192, 0x201E, 0x2026, 0x2020, 0x2021,
    0x02C6, 0x2030, 0x0160, 0x2039, 0x0152, 0, 0x017D, 0,
    0, 0x2018, 0x2019, 0x201C, 0x201D, 0x2022, 0x2013, 0x2014,
    0x02DC, 0x2122, 0x0161, 0x203A, 0x0153, 0, 0x017E, 0x0178]

def windows1252? (octet : UInt8) : Option Char :=
  match windows1252Table[octet.toNat - 0x80]? with
  | some code =>
    if octet.toNat < 0x80 then some (Char.ofNat octet.toNat)
    else if code = 0 then none
    else some (Char.ofNat code)
  | none => some (Char.ofNat octet.toNat)

/-- `decode( 'Windows-1252', $legacy_octet, FB_DEFAULT )` -/
def legacyCharacter (octet : UInt8) : Char :=
  (windows1252? octet).getD (Char.ofNat 0xFFFD)

theorem length_drop_lt {byte : UInt8} {rest sequence : Bytes}
    (taken : sequence? (byte :: rest) = some sequence) :
    ((byte :: rest).drop sequence.length).length < rest.length + 1 := by
  obtain ⟨char, later, rfl, -⟩ := exists_of_sequence? taken
  have positive := char.utf8Size_pos
  rw [List.length_drop, String.length_utf8EncodeChar, List.length_cons]
  omega

def normalized : Bytes → Bytes
  | [] => []
  | byte :: rest =>
    match _taken : sequence? (byte :: rest) with
    | some sequence =>
      sequence ++ normalized ((byte :: rest).drop sequence.length)
    | none => utf8Bytes [legacyCharacter byte] ++ normalized rest
  termination_by bytes => bytes.length
  decreasing_by
    · exact length_drop_lt _taken
    · exact Nat.lt_succ_self rest.length

/-- `_compose_yaml_utf8_bytes($output)` -/
def composeYamlUtf8Bytes (output : Option HeldString) : Bytes :=
  normalized ((output.getD HeldString.empty).bytes)

theorem normalized_legacy {octet : UInt8} {rest : Bytes}
    (apart : sequence? (octet :: rest) = none) :
    normalized (octet :: rest) =
      utf8Bytes [legacyCharacter octet] ++ normalized rest := by
  rw [normalized]
  split
  · next taken =>
      rw [apart] at taken
      cases taken
  · rfl

theorem normalized_encoded (char : Char) (rest : Bytes) :
    normalized (String.utf8EncodeChar char ++ rest) =
      String.utf8EncodeChar char ++ normalized rest := by
  have taken := sequence?_encoded char rest
  obtain ⟨first, later, encoded, -, -⟩ := exists_first_byte char
  cases shape : String.utf8EncodeChar char ++ rest with
  | nil =>
    rw [encoded] at shape
    cases shape
  | cons byte others =>
    rw [shape] at taken
    rw [normalized]
    split
    · next kept =>
        obtain rfl := Option.some.inj (taken.symm.trans kept)
        rw [← shape, List.drop_left]
    · next apart =>
        rw [taken] at apart
        cases apart

theorem normalized_append (front back : Bytes) (char : Char) :
    normalized (front ++ (String.utf8EncodeChar char ++ back)) =
      normalized front ++ (String.utf8EncodeChar char ++ normalized back) := by
  fun_induction normalized front with
  | case1 => exact normalized_encoded char back
  | case2 byte rest sequence taken ih =>
    obtain ⟨other, later, rfl, shape⟩ := exists_of_sequence? taken
    rw [shape, List.drop_left] at ih
    rw [shape, List.append_assoc, normalized_encoded,
      ih, List.drop_left, List.append_assoc]
  | case3 byte rest apart ih =>
    have still :
        sequence? (byte :: (rest ++ (String.utf8EncodeChar char ++ back))) =
          none := by
      cases taken : sequence?
          (byte :: (rest ++ (String.utf8EncodeChar char ++ back))) with
      | none => rfl
      | some sequence =>
        obtain ⟨other, later, rfl, shape⟩ := exists_of_sequence? taken
        obtain ⟨middle, inside⟩ :=
          exists_of_encoded_append (List.cons_ne_nil byte rest)
            shape.symm
        rw [inside, sequence?_encoded] at apart
        cases apart
    rw [List.cons_append, normalized_legacy still, ih, List.append_assoc]

theorem exists_text_normalized (bytes : Bytes) :
    ∃ text, normalized bytes = utf8Bytes text := by
  fun_induction normalized bytes with
  | case1 => exact ⟨[], rfl⟩
  | case2 byte rest sequence taken ih =>
    obtain ⟨char, later, rfl, -⟩ := exists_of_sequence? taken
    obtain ⟨text, same⟩ := ih
    exact ⟨char :: text, by rw [same]; rfl⟩
  | case3 byte rest apart ih =>
    obtain ⟨text, same⟩ := ih
    refine ⟨legacyCharacter byte :: text, ?_⟩
    rw [same]
    exact List.flatMap_append.symm

theorem normalized_utf8Bytes (text : Text) :
    normalized (utf8Bytes text) = utf8Bytes text := by
  induction text with
  | nil => rw [utf8Bytes, List.flatMap_nil, normalized]
  | cons char rest ih =>
    have whole :
        utf8Bytes (char :: rest) =
          String.utf8EncodeChar char ++ utf8Bytes rest := rfl
    rw [whole, normalized_encoded, ih]

theorem normalized_of_no_encoding {bytes : Bytes}
    (no_encoding :
      ∀ char, ¬String.utf8EncodeChar char <:+: bytes) :
    normalized bytes = utf8Bytes (bytes.map legacyCharacter) := by
  induction bytes with
  | nil => rw [normalized]; rfl
  | cons byte rest ih =>
    cases taken : sequence? (byte :: rest) with
    | some sequence =>
      obtain ⟨char, later, rfl, shape⟩ := exists_of_sequence? taken
      exact absurd
        (shape ▸ (List.prefix_append _ later).isInfix)
        (no_encoding char)
    | none =>
      rw [normalized_legacy taken, ih fun char inside =>
        no_encoding char (inside.trans (List.suffix_cons _ _).isInfix)]
      exact List.flatMap_append.symm

/--
Captured output becomes the encoding of a text, well-formed output is
unchanged and so the function is idempotent; elsewhere each encoded character
is kept in its place, and where none stands each byte becomes its Windows-1252
character.
-/
theorem composeYamlUtf8Bytes_wellFormed (output : Option HeldString) :
    (∃ text, composeYamlUtf8Bytes output = utf8Bytes text) ∧
      (∀ text utf8, composeYamlUtf8Bytes (some ⟨utf8Bytes text, utf8⟩) =
          utf8Bytes text) ∧
      composeYamlUtf8Bytes (some ⟨composeYamlUtf8Bytes output, false⟩) =
        composeYamlUtf8Bytes output ∧
      (∀ front char back utf8,
        output = some ⟨front ++ (String.utf8EncodeChar char ++ back), utf8⟩ →
          composeYamlUtf8Bytes output =
            composeYamlUtf8Bytes (some ⟨front, false⟩) ++
              (String.utf8EncodeChar char ++
                composeYamlUtf8Bytes (some ⟨back, false⟩))) ∧
      ∀ bytes utf8,
        output = some ⟨bytes, utf8⟩ →
          (∀ char, ¬String.utf8EncodeChar char <:+: bytes) →
            composeYamlUtf8Bytes output =
              utf8Bytes (bytes.map legacyCharacter) := by
  obtain ⟨text, wellFormed⟩ :=
    exists_text_normalized (output.getD HeldString.empty).bytes
  refine ⟨⟨text, wellFormed⟩, fun text utf8 => normalized_utf8Bytes text,
    ?_, ?_, ?_⟩
  · change normalized (normalized _) = normalized _
    rw [wellFormed, normalized_utf8Bytes]
  · rintro front char back utf8 rfl
    exact normalized_append front back char
  · rintro bytes utf8 rfl no_encoding
    exact normalized_of_no_encoding no_encoding

end DeveloperDashboard.Docker.ComposeYaml
