import DeveloperDashboard.Perl.Text
import Mathlib.Data.List.SplitBy

namespace DeveloperDashboard.Perl

/-!
# Lines

A text that ends with a newline consists of lines, each with its newline.
Splitting at `^` of `/m` and splitting at `\n` find the same lines.
-/

/-- `split /^/m`: the lines with their newlines. -/
def splitLineStarts (text : Text) : List Text :=
  text.splitBy fun char _ => char ≠ '\n'

def IsLine (line : Text) : Prop :=
  ∃ content : Text, '\n' ∉ content ∧ line = content ++ ['\n']

def contents (lines : List Text) : List Text :=
  lines.map List.dropLast

def EndsLine (text : Text) : Prop :=
  ∃ front : Text, text = front ++ ['\n']

theorem prefix_append_cons
    {start front back : Text} {char : Char} (free : char ∉ start) :
    start <+: front ++ char :: back ↔ start <+: front := by
  constructor
  · intro starts
    rcases List.prefix_or_prefix_of_prefix starts
        (List.prefix_append front (char :: back)) with short | long
    · exact short
    · obtain ⟨rest, rfl⟩ := long
      rw [List.prefix_append_right_inj] at starts
      cases rest with
      | nil => simp
      | cons first others =>
        rw [List.cons_prefix_cons] at starts
        exact absurd (by simp [starts.1]) free
  · intro starts
    exact starts.trans (List.prefix_append _ _)

variable {lines : List Text}

theorem splitLineStarts_flatten (isLines : ∀ line ∈ lines, IsLine line) :
    splitLineStarts lines.flatten = lines := by
  induction lines with
  | nil => rfl
  | cons line rest ih =>
    obtain ⟨content, free, rfl⟩ := isLines line List.mem_cons_self
    have chain :
        (content ++ ['\n']).IsChain fun char _ =>
          decide (char ≠ '\n') = true := by
      clear isLines ih
      induction content with
      | nil => exact List.isChain_singleton '\n'
      | cons first others ih =>
        rw [List.mem_cons, not_or] at free
        rw [List.cons_append, List.isChain_cons]
        refine ⟨fun next _ => ?_, ih free.2⟩
        rw [decide_eq_true_eq]
        exact Ne.symm free.1
    rw [List.flatten_cons, splitLineStarts, List.splitBy_append,
      List.splitBy_of_isChain (by simp) chain]
    · change [content ++ ['\n']] ++ splitLineStarts rest.flatten = _
      rw [ih fun other member =>
        isLines other (List.mem_cons_of_mem _ member)]
      rfl
    · intro last isLast _ _
      rw [List.getLast?_concat, Option.mem_some_iff] at isLast
      rw [← isLast]
      decide

theorem splitOn_flatten_append (isLines : ∀ line ∈ lines, IsLine line)
    (text : Text) :
    (lines.flatten ++ text).splitOn '\n' =
      contents lines ++ text.splitOn '\n' := by
  induction lines with
  | nil => rfl
  | cons line rest ih =>
    obtain ⟨content, free, rfl⟩ := isLines line List.mem_cons_self
    rw [List.flatten_cons, List.append_assoc, List.append_assoc,
      List.singleton_append,
      List.splitOn_append_cons_self_of_not_mem free,
      ih fun other member =>
        isLines other (List.mem_cons_of_mem _ member)]
    simp [contents]

variable {text : Text}

theorem EndsLine.exists_lines (ends : EndsLine text) :
    ∃ lines : List Text,
      (∀ line ∈ lines, IsLine line) ∧ text = lines.flatten := by
  obtain ⟨front, rfl⟩ := ends
  induction front with
  | nil =>
    refine ⟨[['\n']], ?_, rfl⟩
    rintro line member
    rw [List.mem_singleton] at member
    exact ⟨[], List.not_mem_nil, member⟩
  | cons char front ih =>
    obtain ⟨lines, isLines, same⟩ := ih
    by_cases newline : char = '\n'
    · refine ⟨['\n'] :: lines, ?_, ?_⟩
      · rintro line (_ | ⟨_, member⟩)
        · exact ⟨[], List.not_mem_nil, rfl⟩
        · exact isLines line member
      · rw [List.cons_append, same, newline]
        rfl
    · cases lines with
      | nil => simp at same
      | cons first rest =>
        obtain ⟨content, free, rfl⟩ :=
          isLines first List.mem_cons_self
        refine ⟨(char :: content ++ ['\n']) :: rest, ?_, ?_⟩
        · rintro line (_ | ⟨_, member⟩)
          · refine ⟨char :: content, ?_, rfl⟩
            rw [List.mem_cons, not_or]
            exact ⟨Ne.symm newline, free⟩
          · exact isLines line (List.mem_cons_of_mem _ member)
        · rw [List.cons_append, same]
          simp

theorem exists_lines_append (text : Text) :
    ∃ (lines : List Text) (last : Text),
      (∀ line ∈ lines, IsLine line) ∧ '\n' ∉ last ∧
        text = lines.flatten ++ last := by
  have ends : EndsLine (text ++ ['\n']) := ⟨text, rfl⟩
  obtain ⟨lines, isLines, same⟩ := ends.exists_lines
  rcases List.eq_nil_or_concat lines with rfl | ⟨front, line, rfl⟩
  · simp at same
  · rw [List.concat_eq_append] at isLines same
    obtain ⟨content, free, rfl⟩ :=
      isLines line (List.mem_append_right _ List.mem_cons_self)
    refine ⟨front, content, ?_, free, ?_⟩
    · exact fun other member =>
        isLines other (List.mem_append_left _ member)
    · rw [List.flatten_append, List.flatten_singleton,
        ← List.append_assoc] at same
      exact List.append_cancel_right same

theorem exists_first_line (newline : '\n' ∈ text) :
    ∃ more, '\n' ∉ text.takeWhile (· ≠ '\n') ∧
      text = text.takeWhile (· ≠ '\n') ++ '\n' :: more := by
  induction text with
  | nil => contradiction
  | cons char rest ih =>
    by_cases same : char = '\n'
    · exact ⟨rest, by simp [same], by simp [same]⟩
    · rcases List.mem_cons.mp newline with first | later
      · exact absurd first.symm same
      · obtain ⟨more, free, parts⟩ := ih later
        have kept :
            (char :: rest).takeWhile (· ≠ '\n') =
              char :: rest.takeWhile (· ≠ '\n') := by
          simp [same]
        refine ⟨more, ?_, ?_⟩
        · rw [kept, List.mem_cons, not_or]
          exact ⟨Ne.symm same, free⟩
        · rw [kept, List.cons_append, ← parts]

theorem EndsLine.isLine_of_mem (ends : EndsLine text) :
    ∀ line ∈ splitLineStarts text, IsLine line := by
  obtain ⟨lines, isLines, rfl⟩ := ends.exists_lines
  rw [splitLineStarts_flatten isLines]
  exact isLines

theorem flatten_splitLineStarts (text : Text) :
    (splitLineStarts text).flatten = text :=
  List.flatten_splitBy _ _

theorem splitLineStarts_append
    {front back : Text} (ends : EndsLine front) (endsBack : EndsLine back) :
    splitLineStarts (front ++ back) =
      splitLineStarts front ++ splitLineStarts back := by
  obtain ⟨lines, isLines, rfl⟩ := ends.exists_lines
  obtain ⟨others, isOthers, rfl⟩ := endsBack.exists_lines
  rw [← List.flatten_append, splitLineStarts_flatten isLines,
    splitLineStarts_flatten isOthers, splitLineStarts_flatten]
  intro line member
  rcases List.mem_append.mp member with front | back
  · exact isLines line front
  · exact isOthers line back

theorem count_flatten_lines (isLines : ∀ line ∈ lines, IsLine line) :
    lines.flatten.count '\n' = lines.length := by
  induction lines with
  | nil => rfl
  | cons line rest ih =>
    obtain ⟨content, free, rfl⟩ := isLines line List.mem_cons_self
    rw [List.flatten_cons, List.count_append, List.count_append,
      List.count_eq_zero.mpr free, List.length_cons,
      ih fun other member =>
        isLines other (List.mem_cons_of_mem _ member)]
    simp
    omega

theorem joinLines_contents (isLines : ∀ line ∈ lines, IsLine line)
    (nonempty : lines ≠ []) :
    joinLines (contents lines) ++ ['\n'] = lines.flatten := by
  induction lines with
  | nil => exact absurd rfl nonempty
  | cons line rest ih =>
    obtain ⟨content, free, rfl⟩ := isLines line List.mem_cons_self
    have isRest : ∀ other ∈ rest, IsLine other :=
      fun other member => isLines other (List.mem_cons_of_mem _ member)
    cases rest with
    | nil => simp [joinLines, contents, List.intercalate]
    | cons next others =>
      have joined :=
        ih isRest (List.cons_ne_nil _ _)
      rw [List.flatten_cons, ← joined]
      simp [joinLines, contents, List.intercalate]

end DeveloperDashboard.Perl
