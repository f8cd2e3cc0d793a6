import DeveloperDashboard.Library.ScriptData

namespace Library.ScriptData

/-!
# Scripts in which no end tag can open

Where a `/` behind a `<` is kept from opening an end tag, a script is left open
unless it starts a script inside of a comment, and this can be read off the
text.
-/

/-- A comment that has been read so far and its opening dashes. -/
def dashed (comment : List Char) : List Char :=
  '-' :: '-' :: comment

def Closes (comment : List Char) : Prop :=
  ['-', '-', '>'] <:+: dashed comment

def commentStart : List Char :=
  ['<', '!', '-', '-']

/-- A start tag of the element stands in a comment that is open. -/
def NestsScript (text : List Char) : Prop :=
  ∃ front comment name next back,
    text = front ++ commentStart ++ comment ++ '<' :: name ++ next :: back ∧
      ¬Closes comment ∧ name.map Char.toLower = scriptName ∧
      endsName next = true

theorem NestsScript.append {text : List Char} (nests : NestsScript text)
    (more : List Char) : NestsScript (text ++ more) := by
  obtain ⟨front, comment, name, next, back, rfl, open', isName, ends⟩ :=
    nests
  refine ⟨front, comment, name, next, back ++ more, ?_, open', isName, ends⟩
  simp only [List.append_assoc, List.cons_append]

theorem concat_suffix_concat_iff {ending text : List Char}
    {last char : Char} :
    ending ++ [last] <:+ text ++ [char] ↔ last = char ∧ ending <:+ text := by
  rw [← List.reverse_prefix, List.reverse_append, List.reverse_append,
    List.reverse_singleton, List.reverse_singleton, List.singleton_append,
    List.singleton_append, List.cons_prefix_cons, List.reverse_prefix]

theorem closes_concat_iff {comment : List Char} {char : Char} :
    Closes (comment ++ [char]) ↔
      Closes comment ∨ char = '>' ∧ ['-', '-'] <:+ dashed comment := by
  have split : dashed (comment ++ [char]) = dashed comment ++ [char] :=
    rfl
  have ending :
      ['-', '-', '>'] <:+ dashed comment ++ [char] ↔
        '>' = char ∧ ['-', '-'] <:+ dashed comment :=
    @concat_suffix_concat_iff ['-', '-'] (dashed comment) '>' char
  rw [Closes, split, List.infix_concat_iff, ending, or_comm,
    eq_comm (a := '>')]
  rfl

variable {name : List Char}

theorem isAlpha_of_map_toLower
    (isName : name.map Char.toLower = scriptName) :
    ∀ char ∈ name, char.isAlpha = true := by
  intro char member
  have lower : char.toLower ∈ scriptName :=
    isName ▸ List.mem_map_of_mem member
  have isLetter : char.toLower.isAlpha = true := by
    have all : scriptName.all Char.isAlpha = true := by decide +kernel
    exact List.all_eq_true.mp all _ lower
  by_cases upper : char.isUpper = true
  · have parts : char.isAlpha = (char.isUpper || char.isLower) := rfl
    rw [parts, upper, Bool.true_or]
  · have same : char.toLower = char := by
      unfold Char.toLower
      rw [dif_neg]
      intro between
      exact upper (decide_eq_true between)
    rwa [same] at isLetter

/-- What a character makes of a state if no `</` opens an end tag. -/
def textStep (state : State) (char : Char) : State :=
  match state with
  | .dataLess => if char = '!' then .escapeStart else stepData char
  | .escapedLess =>
    if char.isAlpha then .doubleEscapeStart [char.toLower]
    else stepEscaped char
  | other => step other char

variable {state : State}

theorem textStep_of_ne {char : Char} (other : char ≠ '/') :
    textStep state char = step state char := by
  cases state <;> simp [textStep, step, other]

/-- What the text of a comment says about the state in it. -/
def InComment (comment : List Char) : State → Prop
  | .escaped => ¬['-'] <:+ dashed comment
  | .escapedDash =>
    ['-'] <:+ dashed comment ∧ ¬['-', '-'] <:+ dashed comment
  | .escapedDashDash => ['-', '-'] <:+ dashed comment
  | .escapedLess => ∃ front, comment = front ++ ['<']
  | .doubleEscapeStart name =>
    ∃ front tag, comment = front ++ '<' :: tag ∧
      tag.map Char.toLower = name ∧
      ∃ first last, tag = first ++ [last] ∧ last.isAlpha = true
  | _ => False

section InsideComment

variable {comment : List Char} {char : Char}

theorem dash_suffix_concat_iff :
    ['-'] <:+ dashed (comment ++ [char]) ↔ '-' = char := by
  have ending :
      ['-'] <:+ dashed comment ++ [char] ↔
        '-' = char ∧ [] <:+ dashed comment :=
    @concat_suffix_concat_iff [] (dashed comment) '-' char
  exact ending.trans (and_iff_left List.nil_suffix)

theorem dashes_suffix_concat_iff :
    ['-', '-'] <:+ dashed (comment ++ [char]) ↔
      '-' = char ∧ ['-'] <:+ dashed comment :=
  @concat_suffix_concat_iff ['-'] (dashed comment) '-' char

theorem dash_suffix_of_dashes (dashes : ['-', '-'] <:+ dashed comment) :
    ['-'] <:+ dashed comment :=
  (List.suffix_cons '-' ['-']).trans dashes

/-- Behind a `<` or a letter there is no dash. -/
theorem InComment.noDash (inside : InComment comment state)
    (noDash : state ≠ .escapedDash) (noDashes : state ≠ .escapedDashDash) :
    ¬['-'] <:+ dashed comment := by
  cases state with
  | escaped => exact inside
  | escapedDash => exact absurd rfl noDash
  | escapedDashDash => exact absurd rfl noDashes
  | escapedLess =>
    obtain ⟨front, rfl⟩ := inside
    rw [dash_suffix_concat_iff]
    decide
  | doubleEscapeStart name =>
    obtain ⟨front, tag, rfl, -, first, last, rfl, isAlpha⟩ := inside
    have shape :
        front ++ '<' :: (first ++ [last]) =
          (front ++ '<' :: first) ++ [last] := by
      simp
    rw [shape, dash_suffix_concat_iff]
    rintro rfl
    exact absurd isAlpha (by decide +kernel)
  | _ => exact inside.elim

theorem inComment_stepEscaped
    (noDash : ¬['-'] <:+ dashed comment ∨ char ≠ '-') :
    InComment (comment ++ [char]) (stepEscaped char) := by
  unfold stepEscaped
  split
  · next isDash =>
      refine ⟨dash_suffix_concat_iff.mpr isDash.symm, fun dashes => ?_⟩
      rcases noDash with noDash | other
      · exact noDash (dashes_suffix_concat_iff.mp dashes).2
      · exact other isDash
  · next other =>
      split
      · next less =>
          rw [less]
          exact ⟨comment, rfl⟩
      · exact fun dash => other (dash_suffix_concat_iff.mp dash).symm

def EndsInTag (comment : List Char) : Prop :=
  ∃ front tag, comment = front ++ '<' :: tag ∧
    tag.map Char.toLower = scriptName

theorem inComment_textStep (inside : InComment comment state)
    (stays : ¬(char = '>' ∧ ['-', '-'] <:+ dashed comment)) :
    InComment (comment ++ [char]) (textStep state char) ∨
      textStep state char = .doubleEscaped ∧ EndsInTag comment ∧
        endsName char = true := by
  cases state with
  | escaped => exact Or.inl (inComment_stepEscaped (Or.inl inside))
  | escapedDash =>
    by_cases dash : char = '-'
    · subst dash
      exact Or.inl (dashes_suffix_concat_iff.mpr ⟨rfl, inside.1⟩)
    · have stepped : textStep .escapedDash char = stepEscaped char :=
        if_neg dash
      rw [stepped]
      exact Or.inl (inComment_stepEscaped (Or.inr dash))
  | escapedDashDash =>
    by_cases dash : char = '-'
    · subst dash
      exact Or.inl (dashes_suffix_concat_iff.mpr
        ⟨rfl, dash_suffix_of_dashes inside⟩)
    · have other : char ≠ '>' := fun greater =>
        stays ⟨greater, inside⟩
      have stepped : textStep .escapedDashDash char = stepEscaped char :=
        (if_neg dash).trans (if_neg other)
      rw [stepped]
      exact Or.inl (inComment_stepEscaped (Or.inr dash))
  | escapedLess =>
    have noDash := inside.noDash State.noConfusion State.noConfusion
    obtain ⟨front, rfl⟩ := inside
    by_cases letter : char.isAlpha = true
    · have stepped :
          textStep .escapedLess char =
            .doubleEscapeStart [char.toLower] :=
        if_pos letter
      rw [stepped]
      exact Or.inl
        ⟨front, [char], by simp, rfl, [], char, rfl, letter⟩
    · have stepped : textStep .escapedLess char = stepEscaped char :=
        if_neg letter
      rw [stepped]
      exact Or.inl (inComment_stepEscaped (Or.inl noDash))
  | doubleEscapeStart name =>
    have noDash := inside.noDash State.noConfusion State.noConfusion
    obtain ⟨front, tag, shape, lower, -⟩ := inside
    by_cases ends : endsName char = true
    · by_cases isName : name = scriptName
      · have stepped :
            textStep (.doubleEscapeStart name) char = .doubleEscaped :=
          (if_pos ends).trans (if_pos isName)
        exact Or.inr
          ⟨stepped, ⟨front, tag, shape, lower.trans isName⟩, ends⟩
      · have stepped :
            textStep (.doubleEscapeStart name) char = .escaped :=
          (if_pos ends).trans (if_neg isName)
        rw [stepped]
        refine Or.inl fun dash => ?_
        rw [← dash_suffix_concat_iff.mp dash] at ends
        cases ends
    · by_cases letter : char.isAlpha = true
      · have stepped :
            textStep (.doubleEscapeStart name) char =
              .doubleEscapeStart (name ++ [char.toLower]) :=
          (if_neg ends).trans (if_pos letter)
        rw [stepped]
        refine Or.inl ⟨front, tag ++ [char], ?_, ?_, tag, char, rfl, letter⟩
        · rw [shape, List.append_assoc, List.cons_append]
        · rw [List.map_append, lower]
          rfl
      · have stepped :
            textStep (.doubleEscapeStart name) char = stepEscaped char :=
          (if_neg ends).trans (if_neg letter)
        rw [stepped]
        exact Or.inl (inComment_stepEscaped (Or.inl noDash))
  | _ => exact inside.elim

end InsideComment

/-- What the text that has been read says about the state. -/
def Describes (read : List Char) : State → Prop
  | .data => True
  | .dataLess => ['<'] <:+ read
  | .escapeStart => ['<', '!'] <:+ read
  | .escapeStartDash => ['<', '!', '-'] <:+ read
  | state =>
    ∃ front comment, read = front ++ commentStart ++ comment ∧
      ¬Closes comment ∧ InComment comment state

theorem describes_of_inComment {front comment : List Char}
    (isOpen : ¬Closes comment) (inside : InComment comment state) :
    Describes (front ++ commentStart ++ comment) state := by
  cases state <;>
    first
      | exact ⟨front, comment, rfl, isOpen, inside⟩
      | exact inside.elim

theorem Describes.isOpen {read : List Char}
    (described : Describes read state) : state.isOpen = true := by
  cases state <;>
    first
      | rfl
      | obtain ⟨front, comment, -, -, inside⟩ := described
        exact inside.elim

theorem describes_stepData (read : List Char) (char : Char) :
    Describes (read ++ [char]) (stepData char) := by
  unfold stepData
  split
  · next less =>
      rw [less]
      exact List.suffix_append read ['<']
  · trivial

theorem describes_textStep_of_inComment {front comment : List Char}
    (isOpen : ¬Closes comment) (inside : InComment comment state)
    (char : Char) :
    Describes (front ++ commentStart ++ comment ++ [char])
        (textStep state char) ∨
      NestsScript (front ++ commentStart ++ comment ++ [char]) := by
  by_cases closing : char = '>' ∧ ['-', '-'] <:+ dashed comment
  · obtain ⟨rfl, dashes⟩ := closing
    have dash := dash_suffix_of_dashes dashes
    cases state with
    | escapedDashDash => exact Or.inl trivial
    | escapedDash => exact absurd dashes inside.2
    | _ =>
      exact absurd dash
        (inside.noDash State.noConfusion State.noConfusion)
  · rcases inComment_textStep inside closing with
      within | ⟨-, ⟨earlier, tag, rfl, isName⟩, ends⟩
    · have stillOpen : ¬Closes (comment ++ [char]) := by
        rw [closes_concat_iff, not_or]
        exact ⟨isOpen, closing⟩
      rw [List.append_assoc]
      exact Or.inl (describes_of_inComment stillOpen within)
    · have earlierOpen : ¬Closes earlier := fun closed =>
        isOpen (closed.trans (List.infix_append [] (dashed earlier)
          ('<' :: tag)))
      refine Or.inr ⟨front, earlier, tag, char, [], ?_, earlierOpen, isName,
        ends⟩
      simp only [List.append_assoc, List.cons_append]

theorem describes_textStep {read : List Char}
    (described : Describes read state) (char : Char) :
    Describes (read ++ [char]) (textStep state char) ∨
      NestsScript (read ++ [char]) := by
  cases state with
  | data => exact Or.inl (describes_stepData read char)
  | dataLess =>
    by_cases bang : char = '!'
    · subst bang
      exact Or.inl (concat_suffix_concat_iff.mpr ⟨rfl, described⟩)
    · have stepped : textStep .dataLess char = stepData char :=
        if_neg bang
      rw [stepped]
      exact Or.inl (describes_stepData read char)
  | escapeStart =>
    by_cases dash : char = '-'
    · subst dash
      exact Or.inl (concat_suffix_concat_iff.mpr ⟨rfl, described⟩)
    · have stepped : textStep .escapeStart char = stepData char :=
        if_neg dash
      rw [stepped]
      exact Or.inl (describes_stepData read char)
  | escapeStartDash =>
    by_cases dash : char = '-'
    · subst dash
      obtain ⟨front, rfl⟩ := described
      have notClosed : ¬['-', '-', '>'] <:+: ['-', '-'] := by decide
      refine Or.inl ⟨front, [], ?_, notClosed, List.suffix_refl _⟩
      simp [commentStart]
    · have stepped : textStep .escapeStartDash char = stepData char :=
        if_neg dash
      rw [stepped]
      exact Or.inl (describes_stepData read char)
  | _ =>
    obtain ⟨front, comment, rfl, isOpen, inside⟩ := described
    exact describes_textStep_of_inComment isOpen inside char

theorem describes_foldl_or_nestsScript (text : List Char) :
    Describes text (text.foldl textStep .data) ∨ NestsScript text := by
  induction text using List.reverseRecOn with
  | nil => exact Or.inl trivial
  | append_singleton read char ih =>
    rcases ih with described | nests
    · rw [List.foldl_append]
      exact describes_textStep described char
    · exact Or.inr (nests.append [char])

theorem foldl_commentStart (isOpen : state.isOpen = true) :
    commentStart.foldl textStep state = .escapedDashDash := by
  cases state <;> first | rfl | cases isOpen

theorem inComment_of_keeps {comment : List Char} (isOpen : ¬Closes comment)
    (keeps : Keeps textStep .escapedDashDash comment) :
    InComment comment (comment.foldl textStep .escapedDashDash) := by
  induction comment using List.reverseRecOn with
  | nil => exact List.suffix_refl _
  | append_singleton read char ih =>
    rw [closes_concat_iff, not_or] at isOpen
    have inside := ih isOpen.1 keeps.of_append
    rw [List.foldl_append]
    rcases inComment_textStep inside isOpen.2 with
      within | ⟨nested, -, -⟩
    · exact within
    · have stillOpen := keeps.isOpen
      rw [List.foldl_append, List.foldl_cons, nested] at stillOpen
      cases stillOpen

theorem foldl_letters
    (letters : ∀ char ∈ name, char.isAlpha = true) (read : List Char) :
    name.foldl textStep (.doubleEscapeStart read) =
      .doubleEscapeStart (read ++ name.map Char.toLower) := by
  induction name generalizing read with
  | nil => rw [List.map_nil, List.append_nil, List.foldl_nil]
  | cons char rest ih =>
    have letter := letters char List.mem_cons_self
    have inside : endsName char = false := by
      rw [Bool.eq_false_iff]
      intro ends
      unfold endsName at ends
      simp only [Bool.or_eq_true, decide_eq_true_eq] at ends
      rcases ends with ((((rfl | rfl) | rfl) | rfl) | rfl) | rfl <;>
        exact absurd letter (by decide +kernel)
    have stepped :
        textStep (.doubleEscapeStart read) char =
          .doubleEscapeStart (read ++ [char.toLower]) :=
      (if_neg (Bool.eq_false_iff.mp inside)).trans (if_pos letter)
    rw [List.foldl_cons, stepped,
      ih fun other member =>
        letters other (List.mem_cons_of_mem _ member),
      List.append_assoc]
    rfl

theorem foldl_startTag {comment : List Char}
    (inside : InComment comment state)
    (isName : name.map Char.toLower = scriptName)
    {next : Char} (ends : endsName next = true) :
    ('<' :: name ++ [next]).foldl textStep state = .doubleEscaped := by
  have opened : textStep state '<' = .escapedLess := by
    cases state <;> first | rfl | exact inside.elim
  have letters := isAlpha_of_map_toLower isName
  cases name with
  | nil => cases isName
  | cons first rest =>
    have started :
        textStep .escapedLess first =
          .doubleEscapeStart [first.toLower] :=
      if_pos (letters first List.mem_cons_self)
    rw [List.cons_append, List.foldl_cons, opened, List.cons_append,
      List.foldl_cons, started, List.foldl_append,
      foldl_letters fun other member =>
        letters other (List.mem_cons_of_mem _ member)]
    have named :
        [first.toLower] ++ rest.map Char.toLower = scriptName :=
      isName
    rw [named]
    exact (if_pos ends).trans (if_pos rfl)

/--
A text in which no `</` opens an end tag leaves the script open if and only if
it starts no script inside of a comment.
-/
theorem keeps_textStep_iff {text : List Char} :
    Keeps textStep .data text ↔ ¬NestsScript text := by
  constructor
  · rintro keeps ⟨front, comment, name, next, back, rfl, isOpen, isName, ends⟩
    have shape :
        front ++ commentStart ++ comment ++ '<' :: name ++ next :: back =
          front ++ (commentStart ++ (comment ++
            (('<' :: name ++ [next]) ++ back))) := by
      simp
    rw [shape] at keeps
    obtain ⟨keptFront, later⟩ := keeps_append_iff.mp keeps
    obtain ⟨-, inside⟩ := keeps_append_iff.mp later
    rw [foldl_commentStart keptFront.isOpen] at inside
    obtain ⟨keptComment, tagged⟩ := keeps_append_iff.mp inside
    have within := inComment_of_keeps isOpen keptComment
    have still := tagged.of_append.isOpen
    rw [foldl_startTag within isName ends] at still
    cases still
  · rintro free read ⟨back, rfl⟩
    rcases describes_foldl_or_nestsScript read with described | nests
    · exact described.isOpen
    · exact absurd (nests.append back) free

end Library.ScriptData
