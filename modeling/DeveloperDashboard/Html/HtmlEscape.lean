import DeveloperDashboard.Perl.CodePoints

namespace DeveloperDashboard.Html

open Library DeveloperDashboard.Perl

/-!
# Escaping HTML

`_escape_html`, `_escape_html_attr` and `_html` escape a text.  Each of them
chooses between substitutions in Perl, two native loops and returning the text,
by where the first sensitive character is, how long the text is and how many
sensitive characters it has in the beginning.
-/

/-- The byte `&`. -/
def ampersand : UInt8 := 0x26

/-- The byte `<`. -/
def lessThan : UInt8 := 0x3C

/-- The byte `>`. -/
def greaterThan : UInt8 := 0x3E

/-- The byte `"`. -/
def doubleQuote : UInt8 := 0x22

/-- The byte `'`. -/
def singleQuote : UInt8 := 0x27

/-- The bytes `&amp;`. -/
def ampEntity : Bytes := [0x26, 0x61, 0x6D, 0x70, 0x3B]

/-- The bytes `&lt;`. -/
def ltEntity : Bytes := [0x26, 0x6C, 0x74, 0x3B]

/-- The bytes `&gt;`. -/
def gtEntity : Bytes := [0x26, 0x67, 0x74, 0x3B]

/-- The bytes `&quot;`. -/
def quotEntity : Bytes := [0x26, 0x71, 0x75, 0x6F, 0x74, 0x3B]

/-- The bytes `&#39;`. -/
def aposEntity : Bytes := [0x26, 0x23, 0x33, 0x39, 0x3B]

section NativeEscapers

/-- The `switch` of `_xs_escape_html`. -/
def bodyCase (byte : UInt8) : Option Bytes :=
  if byte = ampersand then some ampEntity
  else if byte = lessThan then some ltEntity
  else if byte = greaterThan then some gtEntity
  else none

/-- The `switch` of `_xs_escape_html_attr`. -/
def attrCase (byte : UInt8) : Option Bytes :=
  if byte = ampersand then some ampEntity
  else if byte = lessThan then some ltEntity
  else if byte = greaterThan then some gtEntity
  else if byte = doubleQuote then some quotEntity
  else if byte = singleQuote then some aposEntity
  else none

def byteLoop (entityOf : UInt8 → Option Bytes) :
    Bytes → Bytes → Bytes
  | target, [] => target
  | target, byte :: rest =>
    match entityOf byte with
    | some entity => byteLoop entityOf (target ++ entity) rest
    | none => byteLoop entityOf (target ++ [byte]) rest

/-- `memchr(cursor, byte, remaining)`, as a distance from the cursor. -/
def memchr (byte : UInt8) (cursor : Bytes) : Option Nat :=
  cursor.findIdx? fun other => decide (other = byte)

/-- `if (!match || (other && other < match)) match = other`. -/
def earlier : Option Nat → Option Nat → Option Nat
  | none, other => other
  | some found, none => some found
  | some found, some other =>
    if other < found then some other else some found

def spanLoop : Nat → Bytes → Bytes → Bytes
  | 0, target, _ => target
  | steps + 1, target, cursor =>
    if cursor.isEmpty then target
    else
      let amp := memchr ampersand cursor
      let lt := memchr lessThan cursor
      let gt := memchr greaterThan cursor
      match earlier (earlier amp lt) gt with
      | none => target ++ cursor
      | some span =>
        let copied := target ++ cursor.take span
        let byte := (cursor.drop span).head?
        let escaped :=
          if byte = some ampersand then copied ++ ampEntity
          else if byte = some lessThan then copied ++ ltEntity
          else copied ++ gtEntity
        spanLoop steps escaped (cursor.drop (span + 1))

def bodyTooLarge : String :=
  "HTML input is too large to escape safely"

def attrTooLarge : String :=
  "HTML attribute input is too large to escape safely"

variable (sizeMax : Nat)

/-- The longest input that the escapers of a body take. -/
def bodyLimit : Nat :=
  (sizeMax - 1) / 5

/-- The longest input that the escaper of attributes takes. -/
def attrLimit : Nat :=
  (sizeMax - 1) / 6

/-- `_xs_escape_html`, of a text or of nothing. -/
def xsEscapeHtml : Option HeldString → Except String HeldString
  | none => .ok .empty
  | some input =>
    if bodyLimit sizeMax < input.byteLength then .error bodyTooLarge
    else
      .ok { bytes := byteLoop bodyCase [] input.bytes, utf8 := input.utf8 }

/-- `_xs_escape_html_attr`. -/
def xsEscapeHtmlAttr : Option HeldString → Except String HeldString
  | none => .ok .empty
  | some input =>
    if attrLimit sizeMax < input.byteLength then .error attrTooLarge
    else
      .ok { bytes := byteLoop attrCase [] input.bytes, utf8 := input.utf8 }

/-- `_xs_escape_html_chunked`. -/
def xsEscapeHtmlChunked : Option HeldString → Except String HeldString
  | none => .ok .empty
  | some input =>
    if bodyLimit sizeMax < input.byteLength then .error bodyTooLarge
    else
      .ok { bytes := spanLoop input.byteLength [] input.bytes,
            utf8 := input.utf8 }

end NativeEscapers

section PerlStrings

def continuesCharacter (utf8 : Bool) (byte : UInt8) : Bool :=
  utf8 && decide (byte.toNat / 64 = 2)

/-- `length($text)`. -/
def characterCount (text : HeldString) : Nat :=
  text.bytes.countP fun byte => !continuesCharacter text.utf8 byte

/-- `index($text, $character)`. -/
def index (text : HeldString) (character : UInt8) : Option Nat :=
  (memchr character text.bytes).map fun position =>
    (text.bytes.take position).countP fun byte =>
      !continuesCharacter text.utf8 byte

def firstCharacters (utf8 : Bool) : Nat → Bytes → Bytes
  | _, [] => []
  | 0, byte :: rest =>
    if continuesCharacter utf8 byte then
      byte :: firstCharacters utf8 0 rest
    else []
  | count + 1, byte :: rest =>
    if continuesCharacter utf8 byte then
      byte :: firstCharacters utf8 (count + 1) rest
    else byte :: firstCharacters utf8 count rest

/-- `substr($text, 0, 16) =~ tr/&<>/&<>/`. -/
def earlyEscapeCount (text : HeldString) : Nat :=
  (firstCharacters text.utf8 16 text.bytes).countP fun byte =>
    decide (byte = ampersand ∨ byte = lessThan ∨ byte = greaterThan)

/-- `$text =~ s/$character/$entity/g`. -/
def substitute (character : UInt8) (entity : Bytes) (text : HeldString) :
    HeldString :=
  text.replaceBytes (.single character entity)

def bodySubstitutions (text : HeldString) : HeldString :=
  let text := substitute ampersand ampEntity text
  let text := substitute lessThan ltEntity text
  substitute greaterThan gtEntity text

/-- `_escape_html_perl`. -/
def escapeHtmlPerl (text : Option HeldString) : HeldString :=
  bodySubstitutions (text.getD .empty)

variable (xsLoaded : Bool) (sizeMax : Nat)

/-- `_escape_html`. -/
def escapeHtml (text : Option HeldString) : Except String HeldString :=
  if xsLoaded then
    match text with
    | none => xsEscapeHtml sizeMax none
    | some text =>
      let first := index text ampersand
      let lt := index text lessThan
      let gt := index text greaterThan
      match earlier (earlier first lt) gt with
      | none => .ok text
      | some first =>
        if first ≤ 64 ∧ characterCount text ≤ 64 then
          xsEscapeHtml sizeMax (some text)
        else if first ≤ 64 ∧ 4 ≤ earlyEscapeCount text then
          xsEscapeHtml sizeMax (some text)
        else xsEscapeHtmlChunked sizeMax (some text)
  else .ok (bodySubstitutions (text.getD .empty))

/-- `_escape_html_attr`. -/
def escapeHtmlAttr (value : Option HeldString) :
    Except String HeldString :=
  if xsLoaded then xsEscapeHtmlAttr sizeMax value
  else if value.any fun text =>
      decide (12 ≤ characterCount text) &&
        (index text ampersand).isNone && (index text lessThan).isNone &&
        (index text greaterThan).isNone &&
        (index text doubleQuote).isNone &&
        (index text singleQuote).isNone then
    .ok (value.getD .empty)
  else
    (escapeHtml xsLoaded sizeMax value).map fun text =>
      let text := substitute doubleQuote quotEntity text
      substitute singleQuote aposEntity text

/-- `_html` of a page document. -/
def html (text : Option HeldString) : Except String HeldString :=
  let text := text.getD .empty
  if (index text ampersand).isNone && (index text lessThan).isNone &&
      (index text greaterThan).isNone &&
      (index text doubleQuote).isNone then
    .ok text
  else if xsLoaded && decide (64 ≤ characterCount text) &&
      decide (4 ≤ earlyEscapeCount text) then
    (escapeHtml xsLoaded sizeMax (some text)).map
      (substitute doubleQuote quotEntity)
  else
    .ok (substitute doubleQuote quotEntity (bodySubstitutions text))

end PerlStrings

end DeveloperDashboard.Html
