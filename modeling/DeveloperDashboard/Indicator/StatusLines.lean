import DeveloperDashboard.Indicator.IndicatorStore
import DeveloperDashboard.Library.Joined
import DeveloperDashboard.Perl.Number

namespace DeveloperDashboard.Indicator.StatusLines

open Library Perl

/-!
# The status lines of tmux

`_tmux_status_lines` puts the parts of the indicators and the time on a line
as wide as the client, and what does not fit on a line below it.  A part is
placed on its own: one that is short enough goes to the upper line even where
a part before it did not.
-/

/-- What the prompt shows for a status, as `$PROMPT_STATUS_ICONS` has it. -/
def promptStatusIcons : List (String × Text) :=
  (["yes", "running", "secure", "ok", "clean"].map (·, ['✅'])) ++
    ["wrong", "stopped", "paused", "insecure", "reloading", "missing",
      "error", "dirty", "down"].map (·, ['🚨'])

/-- The arguments of `_indicator_parts` in the compact mode, and the clock. -/
structure PromptOptions where
  color : Bool
  maxAge : Rat
  now : Rat
  lowercase : Text → Text

variable (options : PromptOptions)

/-- `prompt_status_icon` -/
def promptStatusIcon (indicator : Record) : Text :=
  let status := options.lowercase (indicator.text .status)
  (promptStatusIcons.lookup (String.ofList status)).getD
    (indicator.text .icon)

/-- `is_stale` -/
def isStale (indicator : Record) : Bool :=
  indicator.truthy .stale ||
    (indicator.truthy .updatedAt &&
      decide (options.maxAge <
        options.now - textNumber (indicator.text .updatedAt)))

def ansi (indicator : Record) : Text :=
  let status := String.ofList (chomp (indicator.trueText .status))
  if isStale options indicator then "\x1b[33m".toList
  else if ["ok", "clean"].contains status then "\x1b[32m".toList
  else if ["missing", "error", "dirty", "down"].contains status then
    "\x1b[31m".toList
  else "\x1b[36m".toList

def indicatorPart (indicator : Record) : Text :=
  let label :=
    if indicator.defines .label then indicator.text .label
    else indicator.text .name
  let icon :=
    if indicator.truthy .icon then indicator.text .icon else label.take 1
  let part := promptStatusIcon options indicator ++ icon
  if options.color then
    ansi options indicator ++ part ++ "\x1b[0m".toList
  else part

/-- Whether the prompt leaves an indicator out. -/
def isHidden (indicator : Record) : Bool :=
  (indicator .promptVisible).any fun visible => !visible.truthy

/-- `_indicator_parts` of what `list_indicators` gives. -/
def indicatorParts (indicators : List Record) : List Text :=
  (indicators.filter fun indicator => !isHidden indicator).map
    (indicatorPart options)

/-- The length of a colour escape behind its bracket. -/
def escapeRest? : Text → Option Nat
  | [] => none
  | char :: rest =>
    if char = 'm' then some 1
    else if char.isDigit || char == ';' then
      (escapeRest? rest).map (· + 1)
    else none

def escapeLength? : Text → Option Nat
  | escape :: bracket :: rest =>
    if escape = '\x1b' ∧ bracket = '[' then
      (escapeRest? rest).map (· + 2)
    else none
  | _ => none

/-- What remains of a text without escapes, so much of one being left. -/
def stripAnsiFrom : Nat → Text → Text
  | _, [] => []
  | left + 1, _ :: rest => stripAnsiFrom left rest
  | 0, char :: rest =>
    match escapeLength? (char :: rest) with
    | some length => stripAnsiFrom (length - 1) rest
    | none => char :: stripAnsiFrom 0 rest

/-- `_strip_ansi` -/
def stripAnsi (text : Text) : Text :=
  stripAnsiFrom 0 text

def joined (parts : List Text) : Text :=
  [' '].intercalate parts

def candidate (top part : Text) : Text :=
  if top = [] then part else top ++ ' ' :: part

def placePart (width : Nat) (lines : Text × List Text) (part : Text) :
    Text × List Text :=
  if 0 < width ∧ lines.1 ≠ [] ∧
      width < (stripAnsi (candidate lines.1 part)).length then
    (lines.1, lines.2 ++ [part])
  else (candidate lines.1 part, lines.2)

/-- The parts of the lines: those of the indicators, and the time. -/
def allParts (indicators : List Record) (timestamp : Text) : List Text :=
  indicatorParts options indicators ++ ['🕒' :: timestamp]

/-- `_tmux_status_lines` -/
def tmuxStatusLines (indicators : List Record) (timestamp : Text)
    (width : Nat) : Text × Text :=
  let parts := allParts options indicators timestamp
  if parts.length = 1 then ('🕒' :: timestamp, [])
  else
    let lines := parts.foldl (placePart width) ([], [])
    (lines.1, joined lines.2)

def Fits (width : Nat) (parts : List Text) : Prop :=
  width = 0 ∨ (stripAnsi (joined parts)).length ≤ width

/-- The longest beginning that fits, or the first part. -/
structure IsTop (width : Nat) (parts top : List Text) : Prop where
  begins : top <+: parts
  nonempty : top ≠ []
  fits : top.length = 1 ∨ Fits width top
  longest : ∀ other, other <+: parts → Fits width other →
    other.length ≤ top.length

/-- The lines are the parts in order, and the upper one is the longest. -/
def KeepsParts (width : Nat) (parts : List Text) (lines : Text × Text) :
    Prop :=
  ∃ top bottom, parts = top ++ bottom ∧ IsTop width parts top ∧
    lines = (joined top, joined bottom)

/--
The first part is not empty, and no part that stays below would fit behind the
upper line.
-/
def LeavesNoRoom (width : Nat) (parts : List Text) : Prop :=
  parts.head? ≠ some [] ∧
    ∀ top bottom, parts = top ++ bottom → IsTop width parts top →
      ∀ part ∈ bottom, ¬ Fits width (top ++ [part])

theorem escapeRest?_append (front back : Text) :
    escapeRest? (front ++ ' ' :: back) = escapeRest? front := by
  induction front with
  | nil => rfl
  | cons char rest ih =>
    rw [List.cons_append, escapeRest?, escapeRest?, ih]

theorem escapeLength?_blank (back : Text) :
    escapeLength? (' ' :: back) = none := by
  cases back with
  | nil => rfl
  | cons next rest =>
    rw [escapeLength?, if_neg fun both => absurd both.1 (by decide)]

theorem escapeLength?_append (char : Char) (front back : Text) :
    escapeLength? (char :: (front ++ ' ' :: back)) =
      escapeLength? (char :: front) := by
  cases front with
  | nil =>
    rw [List.nil_append, escapeLength?,
      if_neg fun both => absurd both.2 (by decide)]
    rfl
  | cons next rest =>
    rw [List.cons_append, escapeLength?, escapeLength?, escapeRest?_append]

theorem escapeRest?_le {text : Text} {length : Nat}
    (found : escapeRest? text = some length) : length ≤ text.length := by
  induction text generalizing length with
  | nil => cases found
  | cons char rest ih =>
    rw [escapeRest?] at found
    split at found
    · cases found
      exact Nat.succ_le_succ (Nat.zero_le _)
    · split at found
      · obtain ⟨later, isLater, rfl⟩ := Option.map_eq_some_iff.mp found
        exact Nat.succ_le_succ (ih isLater)
      · cases found

theorem escapeLength?_le {text : Text} {length : Nat}
    (found : escapeLength? text = some length) : length ≤ text.length := by
  fun_cases escapeLength? text with
  | case1 escape bracket rest begins =>
    rw [escapeLength?, if_pos begins] at found
    obtain ⟨later, isLater, rfl⟩ := Option.map_eq_some_iff.mp found
    exact Nat.add_le_add_right (escapeRest?_le isLater) 2
  | case2 escape bracket rest other =>
    rw [escapeLength?, if_neg other] at found
    cases found
  | case3 => simp_all [escapeLength?]

/-- No escape goes on behind a blank. -/
theorem stripAnsiFrom_append (back : Text) (left : Nat) (front : Text)
    (inside : left ≤ front.length) :
    stripAnsiFrom left (front ++ ' ' :: back) =
      stripAnsiFrom left front ++ ' ' :: stripAnsi back := by
  induction front generalizing left with
  | nil =>
    obtain rfl := Nat.le_zero.mp inside
    change stripAnsiFrom 0 (' ' :: back) = ' ' :: stripAnsiFrom 0 back
    rw [stripAnsiFrom, escapeLength?_blank]
  | cons char rest ih =>
    cases left with
    | succ left => exact ih left (Nat.le_of_succ_le_succ inside)
    | zero =>
      rw [List.cons_append, stripAnsiFrom, stripAnsiFrom,
        escapeLength?_append]
      cases found : escapeLength? (char :: rest) with
      | none => exact congrArg (char :: ·) (ih 0 (Nat.zero_le _))
      | some length =>
        exact ih _ (Nat.sub_le_of_le_add (escapeLength?_le found))

theorem joined_cons {rest : List Text} (nonempty : rest ≠ [])
    (part : Text) : joined (part :: rest) = part ++ ' ' :: joined rest := by
  rw [joined, List.intercalate_cons_of_ne_nil nonempty, List.append_assoc]
  rfl

theorem joined_concat {top : List Text} (nonempty : top ≠ [])
    (part : Text) : joined (top ++ [part]) = joined top ++ ' ' :: part := by
  induction top with
  | nil => contradiction
  | cons first rest ih =>
    by_cases single : rest = []
    · rw [single]
      simp [joined]
    · rw [List.cons_append, joined_cons (by simp), ih single,
        joined_cons single, List.append_assoc, List.cons_append]

variable {width : Nat} {parts top : List Text}

theorem Fits.of_concat {part : Text} (nonempty : top ≠ [])
    (fits : Fits width (top ++ [part])) : Fits width top := by
  refine fits.imp id fun short => ?_
  rw [joined_concat nonempty, stripAnsi,
    stripAnsiFrom_append _ _ _ (Nat.zero_le _), List.length_append] at short
  exact Nat.le_of_add_right_le short

theorem Fits.of_append {more : List Text} (nonempty : top ≠ [])
    (fits : Fits width (top ++ more)) : Fits width top := by
  induction more generalizing top with
  | nil => rwa [List.append_nil] at fits
  | cons part rest ih =>
    rw [List.append_cons] at fits
    exact (ih (by simp) fits).of_concat nonempty

theorem IsTop.length_le {other : List Text} (isTop : IsTop width parts top)
    (isOther : IsTop width parts other) : top.length ≤ other.length := by
  rcases isTop.fits with single | fits
  · rw [single]
    exact List.length_pos_iff.mpr isOther.nonempty
  · exact isOther.longest top isTop.begins fits

theorem IsTop.unique {other : List Text} (isTop : IsTop width parts top)
    (isOther : IsTop width parts other) : top = other :=
  (List.prefix_of_prefix_length_le isTop.begins isOther.begins
    (isTop.length_le isOther)).eq_of_length
      (Nat.le_antisymm (isTop.length_le isOther) (isOther.length_le isTop))

theorem candidate_joined (visible : joined top ≠ []) (part : Text) :
    candidate (joined top) part = joined (top ++ [part]) := by
  have nonempty : top ≠ [] := fun empty => visible (by rw [empty]; rfl)
  rw [candidate, if_neg visible, joined_concat nonempty]

theorem placePart_of_fits {part : Text} (visible : joined top ≠ [])
    (fits : Fits width (top ++ [part])) (bottom : List Text) :
    placePart width (joined top, bottom) part =
      (joined (top ++ [part]), bottom) := by
  unfold placePart
  rw [candidate_joined visible, if_neg]
  rintro ⟨positive, -, wide⟩
  rcases fits with zero | short <;> omega

theorem placePart_of_not_fits {part : Text} (visible : joined top ≠ [])
    (wide : ¬ Fits width (top ++ [part])) (bottom : List Text) :
    placePart width (joined top, bottom) part =
      (joined top, bottom ++ [part]) := by
  unfold placePart
  unfold Fits at wide
  rw [candidate_joined visible, if_pos ⟨by omega, visible, by omega⟩]

variable (width) in
/-- The upper line takes parts as long as they fit. -/
theorem exists_grown (rest : List Text) (visible : joined top ≠ []) :
    ∃ more later, rest = more ++ later ∧ joined (top ++ more) ≠ [] ∧
      rest.foldl (placePart width) (joined top, []) =
        later.foldl (placePart width) (joined (top ++ more), []) ∧
      (more = [] ∨ Fits width (top ++ more)) ∧
      ∀ part ∈ later.head?, ¬ Fits width (top ++ more ++ [part]) := by
  induction rest generalizing top with
  | nil => exact ⟨[], [], rfl, by simpa, by simp, .inl rfl, by simp⟩
  | cons part rest ih =>
    by_cases fits : Fits width (top ++ [part])
    · have longer : joined (top ++ [part]) ≠ [] := by
        rw [← candidate_joined visible, candidate, if_neg visible]
        simp
      obtain ⟨more, later, rfl, shown, same, grown, full⟩ := ih longer
      rw [List.append_assoc] at shown same grown full
      refine ⟨part :: more, later, rfl, shown, ?_, .inr ?_, full⟩
      · rw [List.foldl_cons, placePart_of_fits visible fits, same]
        rfl
      · rcases grown with rfl | all
        · exact fits
        · exact all
    · refine ⟨[], part :: rest, rfl, by simpa, by simp, .inl rfl, ?_⟩
      rintro _ ⟨⟩
      simpa using fits

theorem foldl_of_not_fits (visible : joined top ≠ []) {later : List Text}
    (full : ∀ part ∈ later, ¬ Fits width (top ++ [part]))
    (bottom : List Text) :
    later.foldl (placePart width) (joined top, bottom) =
      (joined top, bottom ++ later) := by
  induction later generalizing bottom with
  | nil => rw [List.append_nil]; rfl
  | cons part rest ih =>
    obtain ⟨here, later⟩ := List.forall_mem_cons.mp full
    rw [List.foldl_cons, placePart_of_not_fits visible here, ih later,
      List.append_assoc]
    rfl

variable (width) in
theorem length_le_foldl (rest : List Text) (lines : Text × List Text) :
    lines.1.length ≤ (rest.foldl (placePart width) lines).1.length := by
  induction rest generalizing lines with
  | nil => exact Nat.le_refl _
  | cons part rest ih =>
    refine Nat.le_trans ?_ (ih _)
    unfold placePart
    split
    · exact Nat.le_refl _
    · unfold candidate
      split
      · next empty => simp [empty]
      · simp

/-- A part that fits later makes the upper line longer. -/
theorem not_fits_of_foldl (visible : joined top ≠ []) {later : List Text}
    (bottom : List Text)
    (same : (later.foldl (placePart width) (joined top, bottom)).1 =
      joined top) :
    ∀ part ∈ later, ¬ Fits width (top ++ [part]) := by
  induction later generalizing bottom with
  | nil => simp
  | cons part rest ih =>
    rw [List.foldl_cons] at same
    by_cases fits : Fits width (top ++ [part])
    · rw [placePart_of_fits visible fits] at same
      have longer := length_le_foldl width rest
        (joined (top ++ [part]), bottom)
      rw [same, ← candidate_joined visible, candidate, if_neg visible]
        at longer
      simp at longer
    · rw [placePart_of_not_fits visible fits] at same
      exact List.forall_mem_cons.mpr ⟨fits, ih _ same⟩

def weight : List Text → Nat
  | [] => 0
  | part :: rest => part.length + 1 + weight rest

theorem weight_append (front back : List Text) :
    weight (front ++ back) = weight front + weight back := by
  induction front with
  | nil => exact (Nat.zero_add _).symm
  | cons part rest ih =>
    rw [List.cons_append, weight, weight, ih, ← Nat.add_assoc]

theorem length_joined (parts : List Text) :
    (joined parts).length = weight parts - 1 := by
  induction parts with
  | nil => rfl
  | cons part rest ih =>
    cases rest with
    | nil => simp [joined, weight]
    | cons next later =>
      rw [joined_cons (List.cons_ne_nil _ _), List.length_append,
        List.length_cons, ih]
      simp only [weight]
      omega

variable (width) in
theorem weight_foldl (rest : List Text) (lines : Text × List Text)
    (visible : lines.1 ≠ []) :
    let after := rest.foldl (placePart width) lines
    after.1.length + weight after.2 =
      lines.1.length + weight lines.2 + weight rest := by
  induction rest generalizing lines with
  | nil => rfl
  | cons part rest ih =>
    have step : (placePart width lines part).1 ≠ [] ∧
        (placePart width lines part).1.length +
            weight (placePart width lines part).2 =
          lines.1.length + weight lines.2 + (part.length + 1) := by
      unfold placePart candidate
      rw [if_neg visible]
      split
      · exact ⟨visible, by simp [weight_append, weight]; omega⟩
      · exact ⟨by simp, by simp; omega⟩
    have later := ih _ step.1
    simp only [List.foldl_cons, weight] at later ⊢
    omega

variable (width) in
theorem weight_foldl_le (nonempty : parts ≠ []) :
    let after := parts.foldl (placePart width) ([], [])
    after.1.length + 1 + weight after.2 ≤ weight parts := by
  induction parts with
  | nil => contradiction
  | cons part rest ih =>
    have first : placePart width ([], []) part = (part, []) := by
      simp [placePart, candidate]
    simp only [List.foldl_cons, first]
    cases part with
    | cons char text =>
      have later := weight_foldl width rest
        (char :: text, []) (List.cons_ne_nil _ _)
      simp only [weight] at later ⊢
      omega
    | nil =>
      cases rest with
      | nil => simp [weight]
      | cons next more =>
        have later := ih (List.cons_ne_nil _ _)
        simp only [weight] at later ⊢
        omega

theorem not_keepsParts_of_empty {rest : List Text} {last : Text}
    (shown : last ≠ []) :
    let lines := ([] :: (rest ++ [last])).foldl (placePart width) ([], [])
    ¬ KeepsParts width ([] :: (rest ++ [last])) (lines.1, joined lines.2) := by
  rintro lines ⟨top, bottom, whole, isTop, same⟩
  obtain ⟨upper, lower⟩ := Prod.mk.inj same
  have less := weight_foldl_le width
    (List.concat_ne_nil last rest)
  have begun :
      lines = (rest ++ [last]).foldl (placePart width) ([], []) := by
    have first : placePart width ([], []) [] = ([], []) := by
      simp [placePart, candidate]
    rw [← first]
    rfl
  rw [begun] at upper lower
  have upperLength := congrArg List.length upper
  have lowerLength := congrArg List.length lower
  have total := congrArg weight whole
  rw [length_joined] at upperLength
  rw [length_joined, length_joined] at lowerLength
  rw [weight_append, weight, List.length_nil] at total
  have light : weight bottom = 1 := by omega
  rcases List.eq_nil_or_concat bottom with rfl | ⟨front, final, rfl⟩
  · cases light
  · rw [List.concat_eq_append, ← List.append_assoc, ← List.cons_append]
      at whole
    obtain rfl := List.singleton_inj.mp (List.append_inj_right' whole rfl)
    rw [List.concat_eq_append, weight_append, weight, weight] at light
    exact shown (List.length_eq_zero_iff.mp (by omega))

theorem keepsParts_foldl_iff (front : List Text) {last : Text}
    (shown : last ≠ []) :
    let lines := (front ++ [last]).foldl (placePart width) ([], [])
    KeepsParts width (front ++ [last]) (lines.1, joined lines.2) ↔
      LeavesNoRoom width (front ++ [last]) := by
  obtain ⟨first, rest, whole⟩ :=
    List.exists_cons_of_ne_nil (l := front ++ [last]) (by simp)
  by_cases empty : first = []
  · have refused : ¬ LeavesNoRoom width (front ++ [last]) :=
      fun leaves => leaves.1 (by rw [whole, empty]; rfl)
    refine iff_of_false ?_ refused
    cases front with
    | nil => exact absurd ((List.cons.inj whole).1.trans empty) shown
    | cons part others =>
      obtain rfl := (List.cons.inj whole).1.trans empty
      exact not_keepsParts_of_empty shown
  · rw [whole]
    have visible : joined [first] ≠ [] := by simpa [joined]
    have begun : placePart width ([], []) first = (joined [first], []) := by
      simp [placePart, candidate, joined]
    obtain ⟨more, later, rfl, grownShown, same, grown, full⟩ :=
      exists_grown width rest visible
    have isTop : IsTop width (first :: (more ++ later)) ([first] ++ more) := by
      refine ⟨⟨later, by simp⟩, by simp, grown.imp (by rintro rfl; rfl) id,
        fun other begins fits => ?_⟩
      by_contra longer
      cases later with
      | nil =>
        rw [List.append_nil] at begins
        exact longer begins.length_le
      | cons part others =>
        have within : [first] ++ more ++ [part] <+: other := by
          refine List.prefix_of_prefix_length_le ⟨others, by simp⟩ begins ?_
          rw [List.length_append]
          exact Nat.lt_of_not_le longer
        obtain ⟨behind, rfl⟩ := within
        exact full part rfl (fits.of_append (by simp))
    rw [List.foldl_cons, begun, same]
    constructor
    · rintro ⟨top, bottom, whole, other, lines⟩
      obtain rfl := other.unique isTop
      have full := not_fits_of_foldl grownShown [] (Prod.mk.inj lines).1
      refine ⟨fun none => empty (Option.some.inj none), ?_⟩
      intro top bottom whole other
      obtain rfl := other.unique isTop
      have tail : more ++ later = more ++ bottom := by simpa using whole
      rwa [← List.append_cancel_left tail]
    · rintro ⟨-, full⟩
      rw [foldl_of_not_fits grownShown
        (full _ later (by simp) isTop)]
      exact ⟨_, later, by simp, isTop, rfl⟩

/-- The lines keep the parts in order if no part slips past another. -/
theorem tmuxStatusLines_keepsParts_iff (indicators : List Record)
    (timestamp : Text) (width : Nat) :
    KeepsParts width (allParts options indicators timestamp)
        (tmuxStatusLines options indicators timestamp width) ↔
      LeavesNoRoom width (allParts options indicators timestamp) := by
  have loop : tmuxStatusLines options indicators timestamp width =
      let lines := (allParts options indicators timestamp).foldl
        (placePart width) ([], [])
      (lines.1, joined lines.2) := by
    dsimp only [tmuxStatusLines]
    split
    · next single =>
        obtain ⟨part, same⟩ := List.length_eq_one_iff.mp single
        have last := congrArg List.getLast? same
        rw [allParts, List.getLast?_concat] at last
        obtain rfl := Option.some.inj last
        rw [same]
        simp [placePart, candidate, joined]
    · rfl
  rw [loop]
  exact keepsParts_foldl_iff _ (List.cons_ne_nil _ _)

/-- Indicators that show nothing but an icon. -/
def iconOnly (icon : Text) : Record
  | .icon => some (.string icon)
  | _ => none

/-- A short indicator goes to the upper line, past a long one. -/
theorem short_part_slips_past :
    let options : PromptOptions := ⟨false, 300, 0, id⟩
    let indicators := [iconOnly ['a'], iconOnly "long".toList, iconOnly ['b']]
    tmuxStatusLines options indicators ['1'] 5 =
        ("aa bb".toList, "longlong 🕒1".toList) ∧
      ¬ KeepsParts 5 (allParts options indicators ['1'])
        (tmuxStatusLines options indicators ['1'] 5) := by
  refine ⟨by decide +kernel, ?_⟩
  rintro ⟨top, bottom, whole, isTop, same⟩
  have few : ∀ count ≤ 4, joined ((["aa".toList, "longlong".toList,
      "bb".toList, "🕒1".toList]).take count) ≠ "aa bb".toList := by
    decide +kernel
  have parts : allParts ⟨false, 300, 0, id⟩ [iconOnly ['a'],
      iconOnly "long".toList, iconOnly ['b']] ['1'] =
        ["aa".toList, "longlong".toList, "bb".toList, "🕒1".toList] := by
    decide +kernel
  have begins := isTop.begins
  rw [parts] at begins
  refine few top.length begins.length_le ?_
  rw [← List.prefix_iff_eq_take.mp begins]
  exact (congrArg Prod.fst same).symm.trans (by decide +kernel)

end DeveloperDashboard.Indicator.StatusLines
