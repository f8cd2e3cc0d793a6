import DeveloperDashboard.Library.ScanSplit
import DeveloperDashboard.Page.StashText
import DeveloperDashboard.Perl.Encoding

namespace DeveloperDashboard.Page

open Library Perl

/-!
# Page documents and their instruction text

A page document is written as sections `NAME: body` between separator lines.
The reader takes that syntax, with `---` lines as another separator, or else
the syntax of `=== NAME ===` header lines.
-/

/-- One `CODEn` section of a page. -/
structure CodeBlock where
  id : Text
  body : Text
deriving DecidableEq

inductive SourceFormat where
  | modern
  | legacy
  | rawNavTt
deriving DecidableEq

inductive SourceKind where
  | saved
  | transient
deriving DecidableEq

/-- The `meta` hash of a page. -/
structure PageMetadata where
  icon : Option Text
  head : Option Text
  codes : List CodeBlock
  sourceFormat : Option SourceFormat
  sourceKind : Option SourceKind
  rawInstruction : Option Text

structure PageDocument where
  id : Option Text
  title : Text
  description : Text
  state : StashHash
  body : Option Text
  metadata : PageMetadata

/-- `$LEGACY_SEP`. -/
def legacySep : Text :=
  ':' :: List.replicate 80 '-' ++ [':']

/-- The pattern `/^CODE\d+$/`; the `$` allows one newline. -/
def isCodeName (name : Text) : Bool :=
  "CODE".toList.isPrefixOf name &&
    let digits := name.drop 4
    let rest := digits.dropWhile isDigit
    !(digits.takeWhile isDigit).isEmpty &&
      (rest.isEmpty || rest == ['\n'])

def optionalSection (name : Text) (text : Option Text) :
    List (Text × Text) :=
  match text with
  | some (char :: rest) => [(name, char :: rest)]
  | _ => []

/-- The sections of `legacy_instruction`, in their order. -/
def instructionSections (page : PageDocument) : List (Text × Text) :=
  [("TITLE".toList, page.title)] ++
    optionalSection "ICON".toList page.metadata.icon ++
    optionalSection "HEAD".toList page.metadata.head ++
    optionalSection "BOOKMARK".toList page.id ++
    optionalSection "NOTE".toList (some page.description) ++
    [("STASH".toList, legacyStashText page.state)] ++
    optionalSection "HTML".toList page.body ++
    (page.metadata.codes.filter fun code => isCodeName code.id).map
      fun code => (code.id, code.body)

/-- `"$name: $body"`, the body without newlines around it. -/
def sectionChunk (entry : Text × Text) : Text :=
  entry.1 ++ ": ".toList ++ trimNewlines entry.2

/-- `legacy_instruction`. -/
def legacyInstruction (page : PageDocument) : Text :=
  (['\n'] ++ legacySep ++ ['\n']).intercalate
    ((instructionSections page).map sectionChunk) ++ ['\n']

/-- `canonical_instruction`. -/
def canonicalInstruction (page : PageDocument) : Text :=
  legacyInstruction page

theorem legacyInstruction_head (page : PageDocument) :
    ∃ rest, legacyInstruction page = 'T' :: rest := by
  obtain ⟨others, sections⟩ :
      ∃ others,
        instructionSections page =
          ("TITLE".toList, page.title) :: others := by
    simp only [instructionSections, List.cons_append]
    exact ⟨_, rfl⟩
  unfold legacyInstruction
  rw [sections, List.map_cons]
  cases others.map sectionChunk with
  | nil => exact ⟨_, rfl⟩
  | cons chunk chunks => exact ⟨_, rfl⟩

def titledPage (title : Text) : PageDocument :=
  { id := none
    title := title
    description := []
    state := []
    body := none
    metadata :=
      { icon := none
        head := none
        codes := []
        sourceFormat := none
        sourceKind := none
        rawInstruction := none } }

def isHeaderChar (char : Char) : Bool :=
  char.isUpper || char.isDigit || char = '.'

/--
The pattern `/^===\s*([A-Z][A-Z0-9.]*)\s*===/` at the start of a text: the name
and what follows.
-/
def headerStart? (text : Text) : Option (Text × Text) :=
  if "===".toList.isPrefixOf text then
    let named := trimStart (text.drop 3)
    let name := named.takeWhile isHeaderChar
    let rest := trimStart (named.dropWhile isHeaderChar)
    if (name.head?.any Char.isUpper) && "===".toList.isPrefixOf rest then
      some (name, rest.drop 3)
    else none
  else none

/-- The pattern `/^===\s*([A-Z][A-Z0-9.]*)\s*===\s*$/` on one line. -/
def headerLine? (line : Text) : Option Text :=
  match headerStart? line with
  | some (name, rest) => if rest.all isSpace then some name else none
  | none => none

def hasHeader (text : Text) : Bool :=
  anyLineStart (fun rest => (headerStart? rest).isSome) none text

abbrev Sections :=
  Entries Text (List Text)

/-- One line of the modern syntax; lines before the first header are dropped. -/
def readModernLine (found : Option Text × Sections) (line : Text) :
    Option Text × Sections :=
  match headerLine? line with
  | some name => (some name, found.2.store name [])
  | none =>
    match found.1 with
    | none => found
    | some current =>
      (some current, found.2.store current
          ((found.2.lookup current).getD [] ++ [line]))

def parseModernSections (text : Text) : Sections :=
  ((splitLines text).foldl readModernLine (none, [])).2

/-- The length of `\Q$LEGACY_SEP\E\s*\n?` at the start of a text. -/
def legacySepLength (text : Text) : Option Nat :=
  if legacySep.isPrefixOf text then
    some (legacySep.length +
      ((text.drop legacySep.length).takeWhile isSpace).length)
  else none

/--
The length of `^\s*---\s*$` at the start of a line.  The `$` stands at the end
of the text, or else before the last newline of the space after the dashes.
-/
def markdownSepLength (text : Text) : Option Nat :=
  let lead := text.takeWhile isSpace
  let rest := text.dropWhile isSpace
  if "---".toList.isPrefixOf rest then
    let space := (rest.drop 3).takeWhile isSpace
    if (rest.drop 3).all isSpace then
      some (lead.length + 3 + space.length)
    else if '\n' ∈ space then
      some (lead.length + 3 +
        ((space.rdropWhile (· ≠ '\n')).length - 1))
    else none
  else none

/-- The separator of `_parse_legacy_sections`. -/
def sectionSeparator : ScanSplit.Separator Char :=
  fun previous text =>
    match legacySepLength text with
    | some length => some length
    | none =>
      if startsLine previous then markdownSepLength text else none

def isNameChar (char : Char) : Bool :=
  char.isAlphanum || char = '.'

/-- `%LEGACY_FIXED_KEYS`. -/
def legacyFixedKeys : List Text :=
  ["TITLE".toList, "ICON".toList, "BOOKMARK".toList, "STASH".toList,
    "NOTE".toList, "HEAD".toList, "HTML".toList]

/-- A part of the legacy syntax: its name and its lines. -/
def parseSection (part : Text) : Option (Text × List Text) :=
  let part := trim part
  let name := part.takeWhile isNameChar
  match trimStart (part.dropWhile isNameChar) with
  | ':' :: body =>
    let key := name.map Char.toUpper
    if (name.head?.any Char.isAlpha) &&
        (decide (key ∈ legacyFixedKeys) || isCodeName key) then
      some (key, splitLines (trimStart body))
    else none
  | _ => none

def hasSeparator (text : Text) : Bool :=
  text.tails.any (fun rest => legacySep.isPrefixOf rest) ||
    anyLineStart (fun rest => (markdownSepLength rest).isSome) none text

/-- Enter a part into the sections; a later part replaces an earlier one. -/
def addSection (sections : Sections) (part : Text) : Sections :=
  match parseSection part with
  | some (name, lines) => sections.store name lines
  | none => sections

/-- `_parse_legacy_sections`, with `_parse_single_legacy_section`. -/
def parseLegacySections (text : Text) : Sections :=
  if hasSeparator text then
    (ScanSplit.scan sectionSeparator 0 none text).foldl addSection []
  else addSection [] text

def sectionText (sections : Sections) (name : Text) : Text :=
  joinLines ((sections.lookup name).getD [])

def codeNumber (name : Text) : Nat :=
  ((name.dropWhile fun char => !isDigit char).takeWhile isDigit).foldl
    (fun number digit => 10 * number + (digit.toNat - 48)) 0

/--
The code blocks of the sections by their numbers.  `keyOrder` is the order in
which `keys` lists the hash.
-/
def readCodes (keyOrder : List Text → List Text) (sections : Sections) :
    List CodeBlock :=
  (((keyOrder (sections.map Prod.fst)).filter isCodeName).insertionSort
      fun left right => codeNumber left ≤ codeNumber right).map
    fun name =>
      { id := name
        body := trimTrailingNewlines (sectionText sections name) }

/--
`from_instruction`.  `decodeStash` is `_decode_stash_section`; an undefined text
is the empty one.
-/
def fromInstruction (keyOrder : List Text → List Text)
    (decodeStash : Text → StashHash) (text : Text) :
    Except String PageDocument :=
  let format :=
    if hasHeader text then SourceFormat.modern else SourceFormat.legacy
  let sections :=
    if hasHeader text then parseModernSections text
    else parseLegacySections text
  if sections.isEmpty then
    .error "Instruction document did not contain any sections"
  else
    let bookmark := trim (sectionText sections "BOOKMARK".toList)
    let title := trim (sectionText sections "TITLE".toList)
    let note :=
      match sections.lookup "NOTE".toList with
      | some lines => joinLines lines
      | none => sectionText sections "DESCRIPTION".toList
    .ok
      { id := if isTrue bookmark then some bookmark else none
        title := if isTrue title then title else "Untitled".toList
        description := trimTrailingNewlines note
        state := decodeStash (sectionText sections "STASH".toList)
        body :=
          some (trimTrailingNewlines
            (sectionText sections "HTML".toList))
        metadata :=
          { icon :=
              (sections.lookup "ICON".toList).map fun lines =>
                trim (joinLines lines)
            head :=
              (sections.lookup "HEAD".toList).map fun lines =>
                trimTrailingNewlines (joinLines lines)
            codes := readCodes keyOrder sections
            sourceFormat := some format
            sourceKind := none
            rawInstruction := none } }

/-!
# Reading saved pages

A saved page is a file of bytes.  The reader decodes it as UTF-8, replaces what
it cannot decode, and repairs the icons that such replacements have damaged.
-/

def replacementChar : Char :=
  Char.ofNat 0xFFFD

/-- A global substitution, after the rest of a match that was taken. -/
def substitute (rule : Text → Option (Nat × Text)) : Nat → Text → Text
  | _, [] => []
  | skip + 1, _ :: rest => substitute rule skip rest
  | 0, char :: rest =>
    match rule (char :: rest) with
    | some (length, new) => new ++ substitute rule (length - 1) rest
    | none => char :: substitute rule 0 rest

def technologistRule (text : Text) : Option (Nat × Text) :=
  let broken := [Char.ofNat 0x1F9D1, replacementChar, Char.ofNat 0x1F4BB]
  if broken.isPrefixOf text then
    some (3, [Char.ofNat 0x1F9D1, Char.ofNat 0x200D, Char.ofNat 0x1F4BB])
  else none

def headingIconRule (text : Text) : Option (Nat × Text) :=
  let broken := "<h2>".toList ++ [replacementChar]
  let space := (text.drop 5).takeWhile isSpace
  if broken.isPrefixOf text && !space.isEmpty then
    some (5 + space.length, "<h2>".toList ++ [Char.ofNat 0x25C8] ++ space)
  else none

def spanIconRule (text : Text) : Option (Nat × Text) :=
  let space := (text.drop 5).takeWhile isSpace
  let marked := (text.drop 5).dropWhile isSpace
  let content := (marked.drop 13).takeWhile (· ≠ '<')
  let rest := (marked.drop 13).dropWhile (· ≠ '<')
  if "<span".toList.isPrefixOf text && !space.isEmpty &&
      "class=\"icon\">".toList.isPrefixOf marked &&
      content.contains replacementChar &&
      "</span>".toList.isPrefixOf rest then
    some (5 + space.length + 13 + content.length + 7,
      "<span".toList ++ space ++ "class=\"icon\">".toList ++
        [Char.ofNat 0x1F3F7, Char.ofNat 0xFE0F] ++ "</span>".toList)
  else none

/-- `_normalize_legacy_icon_markup`. -/
def normalizeLegacyIconMarkup (text : Text) : Text :=
  if text.contains replacementChar then
    substitute spanIconRule 0
      (substitute headingIconRule 0
        (substitute technologistRule 0 text))
  else text

/--
`_read_saved_instruction`, on the bytes of the file.  `decodeReplacing` is
`decode('UTF-8', $raw, FB_DEFAULT)`.  The first decoder has emptied `$raw` when
the text it returns is false.
-/
def readSavedInstruction
    (decodeReplacing : Bytes → Text) (raw : Bytes) : Text :=
  normalizeLegacyIconMarkup
    (match decodeStrict? raw with
    | some text => if isTrue text then text else []
    | none => decodeReplacing raw)

/-- The pattern `m{\Anav/.+\.tt\z}`. -/
def isNavFragmentId (id : Text) : Bool :=
  let name := (id.drop 4).take (id.length - 7)
  "nav/".toList.isPrefixOf id && ".tt".toList.isSuffixOf (id.drop 5) &&
    !name.contains '\n'

/-- `_looks_like_raw_nav_fragment`. -/
def looksLikeRawNavFragment (instruction : Text) : Bool :=
  instruction.tails.any fun rest =>
    "[%".toList.isPrefixOf rest ||
      match rest with
      | '<' :: tag =>
        let name := trimStart tag
        (name.head?.any fun char =>
            char.isAlpha || char = '!' || char = '/') &&
          (name.drop 1).contains '>'
      | _ => false

/-- A header line of the modern syntax that ends with its line. -/
def isModernHeader (text : Text) : Bool :=
  match headerStart? text with
  | some (_, rest) =>
    rest.all isSpace || (rest.takeWhile isSpace).contains '\n'
  | none => false

/-- The first line of a section of the legacy syntax. -/
def isLegacyHeader (text : Text) : Bool :=
  let opens := fun rest : Text => (trimStart rest).head? == some ':'
  legacyFixedKeys.any (fun name =>
      name.isPrefixOf text && opens (text.drop name.length)) ||
    ("CODE".toList.isPrefixOf text &&
      ((text.drop 4).head?.any isDigit) &&
      opens ((text.drop 4).dropWhile isDigit))

def hasInstructionHeader (instruction : Text) : Bool :=
  anyLineStart (fun rest => isModernHeader rest) none instruction ||
    anyLineStart (fun rest => isLegacyHeader rest) none instruction

/-- `_raw_nav_fragment_page`. -/
def rawNavFragmentPage (id instruction : Text) : PageDocument :=
  { id := some id
    title := id.rtakeWhile (· ≠ '/')
    description := []
    state := []
    body := some instruction
    metadata :=
      { icon := none
        head := none
        codes := []
        sourceFormat := some .rawNavTt
        sourceKind := none
        rawInstruction := none } }

section Loading

variable
  (keyOrder : List Text → List Text)
  (decodeStash : Text → StashHash)

/-- `_load_page_instruction`. -/
def loadPageInstruction (id instruction : Text) :
    Except String PageDocument :=
  let navFragment :=
    isNavFragmentId id && looksLikeRawNavFragment instruction
  if navFragment && !hasInstructionHeader instruction then
    .ok (rawNavFragmentPage id instruction)
  else
    match fromInstruction keyOrder decodeStash instruction with
    | .ok page => .ok page
    | .error message =>
      if navFragment then .ok (rawNavFragmentPage id instruction)
      else .error message

/-- `load_saved_page`, from the text of the file. -/
def loadSavedPage (id instruction : Text) :
    Except String PageDocument :=
  (loadPageInstruction keyOrder decodeStash id instruction).map
    fun page =>
      { page with
        id := if isTrue (page.id.getD []) then page.id else some id
        metadata :=
          { page.metadata with
            sourceKind := some .saved
            rawInstruction := some instruction } }

end Loading

end DeveloperDashboard.Page
