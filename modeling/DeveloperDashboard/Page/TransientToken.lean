import DeveloperDashboard.Page.PageDocument

namespace DeveloperDashboard.Page

open Perl

/-!
# Transient page tokens

A page travels in a URL as its instruction text, compressed and coded in
base64.  The compression takes bytes, so the text has to consist of them.
-/

/-- The compression and the coding that tokens are built from. -/
structure PayloadCodec where
  gzip : Bytes → Bytes
  gunzip : Bytes → Option Bytes
  encodeBase64 : Bytes → Text
  decodeBase64 : Text → Bytes

/-- What the documentation of both promises on byte strings. -/
structure PayloadCodec.Lawful (codec : PayloadCodec) : Prop where
  gunzip_gzip : ∀ bytes, codec.gunzip (codec.gzip bytes) = some bytes
  decode_encode :
    ∀ bytes, codec.decodeBase64 (codec.encodeBase64 bytes) = bytes
  token_ne_nil : ∀ bytes, codec.encodeBase64 (codec.gzip bytes) ≠ []

section Tokens

variable
  (codec : PayloadCodec)
  (keyOrder : List Text → List Text)
  (decodeStash : Text → StashHash)

/-- `encode_payload` of a defined text. -/
def encodePayload (text : Text) : Except String Text :=
  match narrowBytes? text with
  | some bytes => .ok (codec.encodeBase64 (codec.gzip bytes))
  | none => .error "Wide character in IO::Compress::Gzip::write:"

/-- `decode_payload`; what is inflated stays a byte string. -/
def decodePayload (token : Text) : Option Text :=
  if token = [] then none
  else (codec.gunzip (codec.decodeBase64 token)).map byteText

/-- The text that `encode_page` encodes. -/
def encodedInstruction (page : PageDocument) : Text :=
  match page.metadata.rawInstruction with
  | some (char :: rest) => char :: rest
  | _ => canonicalInstruction page

/-- `encode_page`. -/
def encodePage (page : PageDocument) : Except String Text :=
  encodePayload codec (encodedInstruction page)

def markTransient (page : PageDocument) : PageDocument :=
  { page with
    metadata := { page.metadata with sourceKind := some .transient } }

/-- `load_transient_page`. -/
def loadTransientPage (token : Text) : Except String PageDocument :=
  (fromInstruction keyOrder decodeStash
    ((decodePayload codec token).getD [])).map markTransient

/-- A page is encoded, and loading the token parses the encoded text. -/
def TokenRoundTrips (page : PageDocument) : Prop :=
  ∃ token,
    encodePage codec page = .ok token ∧
      decodePayload codec token = some (encodedInstruction page) ∧
      loadTransientPage codec keyOrder decodeStash token =
        (fromInstruction keyOrder decodeStash
          (encodedInstruction page)).map markTransient

end Tokens

variable
  {codec : PayloadCodec}
  {keyOrder : List Text → List Text}
  {decodeStash : Text → StashHash}

theorem decodePayload_encodePayload (lawful : codec.Lawful)
    {text token : Text} (encoded : encodePayload codec text = .ok token) :
    decodePayload codec token = some text := by
  unfold encodePayload at encoded
  split at encoded
  · rename_i bytes narrow
    obtain rfl := Except.ok.inj encoded
    unfold decodePayload
    rw [if_neg (lawful.token_ne_nil bytes), lawful.decode_encode,
      lawful.gunzip_gzip, Option.map_some,
      byteText_of_narrowBytes narrow]
  · contradiction

theorem encodePayload_isOk_iff (codec : PayloadCodec) (text : Text) :
    (∃ token, encodePayload codec text = .ok token) ↔
      ∀ char ∈ text, char.toNat ≤ 0xFF := by
  have wide := narrowBytes?_eq_none_iff text
  unfold encodePayload
  cases narrow : narrowBytes? text with
  | some bytes =>
    simp only [narrow, reduceCtorEq, false_iff, not_exists, not_and,
      not_lt] at wide
    exact ⟨fun _ => wide, fun _ => ⟨_, rfl⟩⟩
  | none =>
    obtain ⟨char, member, large⟩ := wide.mp narrow
    constructor
    · rintro ⟨token, encoded⟩
      contradiction
    · intro small
      have := small char member
      omega

theorem encodedInstruction_of_loadSavedPage
    {id instruction : Text} {page : PageDocument}
    (nonempty : instruction ≠ [])
    (loaded :
      loadSavedPage keyOrder decodeStash id instruction = .ok page) :
    encodedInstruction page = instruction := by
  unfold loadSavedPage at loaded
  cases parsed :
      loadPageInstruction keyOrder decodeStash id instruction with
  | error message =>
    rw [parsed] at loaded
    contradiction
  | ok bare =>
    rw [parsed] at loaded
    obtain rfl := Except.ok.inj loaded
    cases instruction with
    | nil => exact absurd rfl nonempty
    | cons char rest => rfl

/--
A page round-trips through its token exactly when its instruction text has no
character above U+00FF.
-/
theorem tokenRoundTrips_iff (lawful : codec.Lawful) (page : PageDocument) :
    TokenRoundTrips codec keyOrder decodeStash page ↔
      ∀ char ∈ encodedInstruction page, char.toNat ≤ 0xFF := by
  rw [← encodePayload_isOk_iff codec]
  constructor
  · rintro ⟨token, encoded, -, -⟩
    exact ⟨token, encoded⟩
  · rintro ⟨token, encoded⟩
    have decoded := decodePayload_encodePayload lawful encoded
    refine ⟨token, encoded, decoded, ?_⟩
    unfold loadTransientPage
    rw [decoded, Option.getD_some]

/-- The instruction text of a page with nothing but the title `A`. -/
def sampleInstruction : Text :=
  "TITLE: A\n".toList ++ legacySep ++ "\nSTASH: \n".toList

def sampleGzip : Bytes :=
  [31, 139, 8, 0, 0, 0, 0, 0, 0, 3, 11, 241, 12, 241, 113, 181, 82, 112,
    228, 178, 210, 165, 50, 176, 226, 10, 14, 113, 12, 246, 176, 82, 224,
    2, 0, 96, 101, 76, 98, 100, 0, 0, 0]

def sampleToken : Text :=
  "H4sIAAAAAAAAAwvxDPFxtVJw5LLSpTKw4goOcQz2sFLgAgBgZUxiZAAAAA==".toList

/--
A codec that codes the sample as gzip and base64 do, and any other bytes with
a mark in front.
-/
def sampleCodec : PayloadCodec where
  gzip bytes :=
    if bytes = utf8Bytes sampleInstruction then sampleGzip
    else 0 :: bytes
  gunzip bytes :=
    if bytes = sampleGzip then some (utf8Bytes sampleInstruction)
    else
      match bytes with
      | 0 :: rest => some rest
      | _ => none
  encodeBase64 bytes :=
    if bytes = sampleGzip then sampleToken else '=' :: byteText bytes
  decodeBase64 token :=
    if token = sampleToken then sampleGzip
    else (token.drop 1).map fun char => UInt8.ofNat char.toNat

/-- The sample codec keeps every byte string. -/
theorem sampleCodec_lawful : sampleCodec.Lawful where
  gunzip_gzip := by
    intro bytes
    simp only [sampleCodec]
    by_cases sample : bytes = utf8Bytes sampleInstruction
    · rw [if_pos sample, if_pos rfl, sample]
    · rw [if_neg sample]
      rfl
  decode_encode := by
    intro bytes
    simp only [sampleCodec]
    by_cases sample : bytes = sampleGzip
    · rw [if_pos sample, if_pos rfl, sample]
    · rw [if_neg sample, if_neg (fun same => by cases same)]
      exact map_byteText bytes
  token_ne_nil := by
    intro bytes
    simp only [sampleCodec]
    split <;> split <;> exact List.cons_ne_nil _ _

theorem tokenRoundTrips_sample :
    encodePage sampleCodec (titledPage ['A']) = .ok sampleToken ∧
      TokenRoundTrips sampleCodec id (fun _ => []) (titledPage ['A']) := by
  have narrow :
      (encodedInstruction (titledPage ['A'])).all isNarrow = true := by
    decide +kernel
  refine ⟨by decide +kernel,
    (tokenRoundTrips_iff sampleCodec_lawful (titledPage ['A'])).mpr ?_⟩
  intro char member
  simpa [isNarrow] using List.all_eq_true.mp narrow char member

def snowInstruction : Text :=
  "TITLE: \u2603\n".toList

theorem tokenRoundTrips_fails_wide :
    ∃ page,
      loadSavedPage id (fun _ => []) "snow".toList
          (readSavedInstruction (fun _ => []) (utf8Bytes snowInstruction)) =
        .ok page ∧
        encodePage sampleCodec page =
          .error "Wide character in IO::Compress::Gzip::write:" ∧
        ¬ TokenRoundTrips sampleCodec id (fun _ => []) page := by
  have read :
      readSavedInstruction (fun _ => []) (utf8Bytes snowInstruction) =
        snowInstruction := by
    unfold readSavedInstruction
    rw [decodeStrict?_utf8Bytes (by decide +kernel)]
    decide +kernel
  have loaded :
      ∃ page,
        loadSavedPage id (fun _ => []) "snow".toList snowInstruction =
          .ok page :=
    ⟨_, rfl⟩
  obtain ⟨page, loaded⟩ := loaded
  have encoded :=
    encodedInstruction_of_loadSavedPage (by decide) loaded
  refine ⟨page, by rw [read, loaded], ?_, ?_⟩
  · unfold encodePage
    rw [encoded]
    decide +kernel
  · rintro ⟨token, sent, -, -⟩
    unfold encodePage at sent
    rw [encoded] at sent
    have refused :
        encodePayload sampleCodec snowInstruction =
          .error "Wide character in IO::Compress::Gzip::write:" := by
      decide +kernel
    rw [refused] at sent
    contradiction

end DeveloperDashboard.Page
