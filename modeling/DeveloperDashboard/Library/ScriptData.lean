import Mathlib.Data.List.Infix

namespace Library

/-!
# Script data

The states in which an HTML tokenizer reads the text of a script element.  The
element ends at an end tag of its name, unless the text has opened a comment
and a start tag of that name inside it; then an end tag only closes that one.
-/

variable {front text : List Char}

namespace ScriptData

/-- The script data states; a name that is being read is kept in lower case. -/
inductive State where
  | data
  | dataLess
  | endTagOpen
  | endTagName (name : List Char)
  | escapeStart
  | escapeStartDash
  | escaped
  | escapedDash
  | escapedDashDash
  | escapedLess
  | escapedEndTagOpen
  | escapedEndTagName (name : List Char)
  | doubleEscapeStart (name : List Char)
  | doubleEscaped
  | doubleEscapedDash
  | doubleEscapedDashDash
  | doubleEscapedLess
  | doubleEscapeEnd (name : List Char)
  /-- the end tag of the element has been read -/
  | left

def scriptName : List Char :=
  ['s', 'c', 'r', 'i', 'p', 't']

def endsName (char : Char) : Bool :=
  char = '\t' || char = '\n' || char = '\x0c' || char = ' ' ||
    char = '/' || char = '>'

def stepData (char : Char) : State :=
  if char = '<' then .dataLess else .data

def stepEscaped (char : Char) : State :=
  if char = '-' then .escapedDash
  else if char = '<' then .escapedLess
  else .escaped

def stepDoubleEscaped (char : Char) : State :=
  if char = '-' then .doubleEscapedDash
  else if char = '<' then .doubleEscapedLess
  else .doubleEscaped

def step : State → Char → State
  | .data, char => stepData char
  | .dataLess, char =>
    if char = '/' then .endTagOpen
    else if char = '!' then .escapeStart
    else stepData char
  | .endTagOpen, char =>
    if char.isAlpha then .endTagName [char.toLower] else stepData char
  | .endTagName name, char =>
    if endsName char && decide (name = scriptName) then .left
    else if char.isAlpha then .endTagName (name ++ [char.toLower])
    else stepData char
  | .escapeStart, char =>
    if char = '-' then .escapeStartDash else stepData char
  | .escapeStartDash, char =>
    if char = '-' then .escapedDashDash else stepData char
  | .escaped, char => stepEscaped char
  | .escapedDash, char =>
    if char = '-' then .escapedDashDash else stepEscaped char
  | .escapedDashDash, char =>
    if char = '-' then .escapedDashDash
    else if char = '>' then .data
    else stepEscaped char
  | .escapedLess, char =>
    if char = '/' then .escapedEndTagOpen
    else if char.isAlpha then .doubleEscapeStart [char.toLower]
    else stepEscaped char
  | .escapedEndTagOpen, char =>
    if char.isAlpha then .escapedEndTagName [char.toLower]
    else stepEscaped char
  | .escapedEndTagName name, char =>
    if endsName char && decide (name = scriptName) then .left
    else if char.isAlpha then .escapedEndTagName (name ++ [char.toLower])
    else stepEscaped char
  | .doubleEscapeStart name, char =>
    if endsName char then
      if name = scriptName then .doubleEscaped else .escaped
    else if char.isAlpha then .doubleEscapeStart (name ++ [char.toLower])
    else stepEscaped char
  | .doubleEscaped, char => stepDoubleEscaped char
  | .doubleEscapedDash, char =>
    if char = '-' then .doubleEscapedDashDash
    else stepDoubleEscaped char
  | .doubleEscapedDashDash, char =>
    if char = '-' then .doubleEscapedDashDash
    else if char = '>' then .data
    else stepDoubleEscaped char
  | .doubleEscapedLess, char =>
    if char = '/' then .doubleEscapeEnd [] else stepDoubleEscaped char
  | .doubleEscapeEnd name, char =>
    if endsName char then
      if name = scriptName then .escaped else .doubleEscaped
    else if char.isAlpha then .doubleEscapeEnd (name ++ [char.toLower])
    else stepDoubleEscaped char
  | .left, _ => .left

def run (state : State) (text : List Char) : State :=
  text.foldl step state

def State.isOpen : State → Bool
  | .doubleEscaped => false
  | .doubleEscapedDash => false
  | .doubleEscapedDashDash => false
  | .doubleEscapedLess => false
  | .doubleEscapeEnd _ => false
  | .left => false
  | _ => true

/-- The states right behind a `<`. -/
def State.isLess : State → Bool
  | .dataLess => true
  | .escapedLess => true
  | .doubleEscapedLess => true
  | _ => false

/-- No part of a text, read from its start, ends or nests the element. -/
def Keeps (step : State → Char → State) (state : State)
    (text : List Char) : Prop :=
  ∀ read, read <+: text → (read.foldl step state).isOpen = true

section Keeping

variable {next : State → Char → State} {state : State}

theorem keeps_nil_iff : Keeps next state [] ↔ state.isOpen = true := by
  constructor
  · intro keeps
    exact keeps [] (List.prefix_refl _)
  · intro isOpen read isPrefix
    rw [List.prefix_nil.mp isPrefix]
    exact isOpen

theorem keeps_cons_iff {char : Char} {rest : List Char} :
    Keeps next state (char :: rest) ↔
      state.isOpen = true ∧ Keeps next (next state char) rest := by
  constructor
  · intro keeps
    refine ⟨keeps [] List.nil_prefix, fun read isPrefix => ?_⟩
    exact keeps (char :: read)
      (List.cons_prefix_cons.mpr ⟨rfl, isPrefix⟩)
  · rintro ⟨isOpen, keeps⟩ read isPrefix
    cases read with
    | nil => exact isOpen
    | cons first others =>
      obtain ⟨rfl, later⟩ := List.cons_prefix_cons.mp isPrefix
      exact keeps others later

theorem keeps_append_iff {back : List Char} :
    Keeps next state (front ++ back) ↔
      Keeps next state front ∧
        Keeps next (front.foldl next state) back := by
  induction front generalizing state with
  | nil =>
    rw [List.nil_append, keeps_nil_iff]
    constructor
    · intro keeps
      exact ⟨keeps [] List.nil_prefix, keeps⟩
    · exact And.right
  | cons char rest ih =>
    rw [List.cons_append, keeps_cons_iff, keeps_cons_iff, ih, and_assoc]
    rfl

theorem Keeps.isOpen (keeps : Keeps next state text) :
    (text.foldl next state).isOpen = true :=
  keeps text (List.prefix_refl _)

theorem Keeps.of_append {back : List Char}
    (keeps : Keeps next state (front ++ back)) :
    Keeps next state front :=
  (keeps_append_iff.mp keeps).1

end Keeping

theorem isLess_step {state : State} (isOpen : state.isOpen = true)
    (char : Char) : (step state char).isLess = decide (char = '<') := by
  by_cases less : char = '<'
  · subst less
    cases state <;> first | rfl | cases isOpen
  · cases state <;>
      simp only [step, stepData, stepEscaped, less, if_false] <;>
      (repeat' split) <;> first | rfl | cases isOpen

def endTag : List Char :=
  ['<', '/'] ++ scriptName ++ ['>']

theorem keeps_data_of_plain (plain : '<' ∉ text) :
    Keeps step .data text ∧ run .data text = .data := by
  induction text with
  | nil => exact ⟨keeps_nil_iff.mpr rfl, rfl⟩
  | cons char rest ih =>
    have stays : step .data char = .data :=
      if_neg (Ne.symm (List.ne_of_not_mem_cons plain))
    obtain ⟨keeps, reached⟩ :=
      ih (List.not_mem_of_not_mem_cons plain)
    rw [keeps_cons_iff, run, List.foldl_cons, stays]
    exact ⟨⟨rfl, keeps⟩, reached⟩

/-- The states that only a `<` can lead out of the comment or the data. -/
def State.isCalm : State → Bool
  | .data => true
  | .escaped => true
  | .escapedDash => true
  | .escapedDashDash => true
  | _ => false

theorem isCalm_step {state : State} (isCalm : state.isCalm = true)
    {char : Char} (plain : char ≠ '<') :
    (step state char).isCalm = true := by
  cases state <;> cases isCalm
  all_goals
    simp only [step, stepData, stepEscaped, plain, if_false]
    (repeat' split) <;> rfl

theorem keeps_of_isCalm {state : State} (isCalm : state.isCalm = true)
    (plain : '<' ∉ text) : Keeps step state text := by
  have isOpen : ∀ {other : State}, other.isCalm = true →
      other.isOpen = true := by
    intro other calm
    cases other <;> first | rfl | cases calm
  induction text generalizing state with
  | nil => exact keeps_nil_iff.mpr (isOpen isCalm)
  | cons char rest ih =>
    exact keeps_cons_iff.mpr ⟨isOpen isCalm, ih
      (isCalm_step isCalm (Ne.symm (List.ne_of_not_mem_cons plain)))
      (List.not_mem_of_not_mem_cons plain)⟩

/-- Every line end becomes a line feed; a return may have just been read. -/
def normalizeFrom : Bool → List Char → List Char
  | _, [] => []
  | afterReturn, char :: rest =>
    if char = '\r' then '\n' :: normalizeFrom true rest
    else if char = '\n' ∧ afterReturn then normalizeFrom false rest
    else char :: normalizeFrom false rest

def normalizeNewlines (text : List Char) : List Char :=
  normalizeFrom false text

def emitted (char : Char) : Char :=
  if char = '\x00' then '\uFFFD' else char

def scriptText (text : List Char) : List Char :=
  (normalizeNewlines text).map emitted

theorem normalizeNewlines_append
    (noReturn : '\r' ∉ front) (back : List Char) :
    normalizeNewlines (front ++ back) =
      front ++ normalizeNewlines back := by
  induction front with
  | nil => rfl
  | cons char rest ih =>
    have other : char ≠ '\r' :=
      Ne.symm (List.ne_of_not_mem_cons noReturn)
    have later :=
      ih (List.not_mem_of_not_mem_cons noReturn)
    unfold normalizeNewlines at later ⊢
    rw [List.cons_append, normalizeFrom, if_neg other,
      if_neg (fun both => Bool.false_ne_true both.2), later]
    rfl

theorem scriptText_append (noReturn : '\r' ∉ front) (back : List Char) :
    scriptText (front ++ back) =
      front.map emitted ++ scriptText back := by
  unfold scriptText
  rw [normalizeNewlines_append noReturn, List.map_append]

theorem normalizeNewlines_of_not_mem
    (noReturn : '\r' ∉ text) : normalizeNewlines text = text := by
  have whole := normalizeNewlines_append noReturn []
  rw [List.append_nil] at whole
  exact whole.trans (List.append_nil _)

end ScriptData

end Library
