import Mathlib.Data.List.Basic

namespace Library

/-!
# Joined lists

Parts that are joined with a separator.  Parts without the separator are the
longest way to join a list, and splitting gives them back.
-/

namespace Joined

variable {Item : Type} [DecidableEq Item] {separator : Item}

omit [DecidableEq Item] in
theorem not_of_mem_splitOnP {separates : Item → Bool}
    {whole part : List Item} (isIn : part ∈ whole.splitOnP separates) :
    ∀ item ∈ part, separates item = false := by
  induction whole generalizing part with
  | nil =>
    rw [List.splitOnP_nil, List.mem_singleton] at isIn
    rw [isIn]
    exact fun _ member => absurd member List.not_mem_nil
  | cons item rest ih =>
    rw [List.splitOnP_cons_eq_if_modifyHead] at isIn
    split at isIn
    · rcases List.mem_cons.mp isIn with rfl | later
      · exact fun _ member => absurd member List.not_mem_nil
      · exact ih later
    · next kept =>
      cases parts : rest.splitOnP separates with
      | nil => exact absurd parts (List.splitOnP_ne_nil _ _)
      | cons first others =>
        rw [parts] at isIn ih
        rcases List.mem_cons.mp isIn with rfl | later
        · exact List.forall_mem_cons.mpr
            ⟨eq_false_of_ne_true kept, ih List.mem_cons_self⟩
        · exact ih (List.mem_cons_of_mem _ later)

theorem not_mem_of_mem_splitOn {whole part : List Item}
    (isIn : part ∈ whole.splitOn separator) : separator ∉ part := by
  intro member
  rw [List.splitOn_eq_splitOnP] at isIn
  simpa using not_of_mem_splitOnP isIn separator member

omit [DecidableEq Item] in
theorem eq_of_append_cons {front back others later : List Item} {mark : Item}
    (noMark : mark ∉ front) (noOther : mark ∉ others)
    (same : front ++ mark :: back = others ++ mark :: later) :
    front = others ∧ back = later := by
  rcases List.append_eq_append_iff.mp same with
    ⟨more, shape, rest⟩ | ⟨more, shape, rest⟩
  · cases more with
    | nil =>
      rw [List.append_nil] at shape
      exact ⟨shape.symm, (List.cons.inj rest).2⟩
    | cons first last =>
      obtain ⟨rfl, -⟩ := List.cons.inj rest
      exact absurd (shape ▸ List.mem_append_right _ List.mem_cons_self)
        noOther
  · cases more with
    | nil =>
      rw [List.append_nil] at shape
      exact ⟨shape, (List.cons.inj rest).2.symm⟩
    | cons first last =>
      obtain ⟨rfl, -⟩ := List.cons.inj rest
      exact absurd (shape ▸ List.mem_append_right _ List.mem_cons_self)
        noMark

omit [DecidableEq Item] in
theorem intercalate_cons_cons (first second : List Item)
    (rest : List (List Item)) :
    [separator].intercalate (first :: second :: rest) =
      first ++ separator :: [separator].intercalate (second :: rest) := by
  rw [List.intercalate_cons_cons, List.append_assoc]
  rfl

omit [DecidableEq Item] in
theorem intercalate_drop_suffix
    (separator : List Item) (parts : List (List Item)) (count : Nat) :
    separator.intercalate (parts.drop count) <:+
      separator.intercalate parts := by
  induction count generalizing parts with
  | zero => exact List.suffix_refl _
  | succ count ih =>
    cases parts with
    | nil => exact List.suffix_refl _
    | cons part rest =>
      refine (ih rest).trans ?_
      cases rest with
      | nil => exact List.nil_suffix
      | cons second others =>
        simp only [List.intercalate, List.intersperse_cons₂,
          List.flatten_cons]
        exact (List.suffix_append _ _).trans (List.suffix_append _ _)

theorem infix_of_mem_splitOn {whole part : List Item}
    (isPart : part ∈ whole.splitOn separator) :
    part <:+: whole := by
  obtain ⟨before, after, parts⟩ := List.append_of_mem isPart
  have joined :
      [separator].intercalate (whole.splitOn separator) = whole :=
    List.intercalate_splitOn separator
  have ends : [separator].intercalate (part :: after) <:+ whole := by
    have drop := intercalate_drop_suffix [separator]
      (whole.splitOn separator) before.length
    rw [joined, parts, List.drop_left] at drop
    exact drop
  have starts : part <+: [separator].intercalate (part :: after) := by
    cases after with
    | nil => simp only [List.intercalate_singleton, List.prefix_rfl]
    | cons second others =>
      rw [intercalate_cons_cons]
      exact List.prefix_append _ _
  exact starts.isInfix.trans ends.isInfix

omit [DecidableEq Item] in
theorem mem_intercalate_iff {parts : List (List Item)} {item : Item} :
    item ∈ [separator].intercalate parts ↔
      (∃ part ∈ parts, item ∈ part) ∨
        item = separator ∧ 2 ≤ parts.length := by
  induction parts with
  | nil => simp
  | cons first rest ih =>
    cases rest with
    | nil => simp
    | cons second later =>
      rw [intercalate_cons_cons, List.mem_append, List.mem_cons, ih]
      constructor
      · rintro (here | rfl | ⟨part, isIn, holds⟩ | ⟨same, -⟩)
        · exact Or.inl ⟨first, List.mem_cons_self, here⟩
        · exact Or.inr ⟨rfl, by simp⟩
        · exact Or.inl ⟨part, List.mem_cons_of_mem _ isIn, holds⟩
        · exact Or.inr ⟨same, by simp⟩
      · rintro (⟨part, isIn, holds⟩ | ⟨same, -⟩)
        · rcases List.mem_cons.mp isIn with rfl | isLater
          · exact Or.inl holds
          · exact Or.inr (Or.inr (Or.inl ⟨part, isLater, holds⟩))
        · exact Or.inr (Or.inl same)

omit [DecidableEq Item] in
/--
No more parts are joined to a list than those without the separator, and no
others as many.
-/
theorem eq_of_intercalate_eq {parts others : List (List Item)}
    (plain : ∀ part ∈ parts, separator ∉ part) (nonempty : parts ≠ [])
    (longer : parts.length ≤ others.length)
    (same :
      [separator].intercalate others = [separator].intercalate parts) :
    others = parts := by
  induction parts generalizing others with
  | nil => contradiction
  | cons first rest ih =>
    obtain ⟨firstPlain, restPlain⟩ := List.forall_mem_cons.mp plain
    cases rest with
    | nil =>
      rcases others with _ | ⟨other, _ | ⟨second, more⟩⟩
      · exact absurd longer (Nat.not_succ_le_zero 0)
      · rw [List.intercalate_singleton, List.intercalate_singleton] at same
        rw [same]
      · rw [List.intercalate_singleton, intercalate_cons_cons] at same
        rw [← same] at firstPlain
        exact absurd
          (List.mem_append_right other List.mem_cons_self) firstPlain
    | cons next more =>
      rcases others with _ | ⟨other, _ | ⟨second, later⟩⟩
      · exact absurd longer (Nat.not_succ_le_zero _)
      · exact absurd (Nat.le_of_succ_le_succ longer)
          (Nat.not_succ_le_zero _)
      · rw [intercalate_cons_cons, intercalate_cons_cons] at same
        rcases List.append_eq_append_iff.mp same with
          ⟨gap, firstEq, rest⟩ | ⟨gap, otherEq, rest⟩
        · cases gap with
          | nil =>
            rw [List.nil_append] at rest
            rw [List.append_nil] at firstEq
            rw [firstEq, ih restPlain
              (List.cons_ne_nil _ _)
              (Nat.le_of_succ_le_succ longer)
              (List.cons_eq_cons.mp rest).2]
          | cons item gap =>
            rw [List.cons_append, List.cons_eq_cons] at rest
            rw [firstEq, ← rest.1] at firstPlain
            exact absurd
              (List.mem_append_right _ List.mem_cons_self) firstPlain
        · cases gap with
          | nil =>
            rw [List.nil_append] at rest
            rw [List.append_nil] at otherEq
            rw [otherEq, ih restPlain
              (List.cons_ne_nil _ _)
              (Nat.le_of_succ_le_succ longer)
              (List.cons_eq_cons.mp rest).2.symm]
          | cons item gap =>
            -- One part more than the rest would join to the same.
            rw [List.cons_append, List.cons_eq_cons] at rest
            have fewer :=
              @ih (gap :: second :: later)
                restPlain (List.cons_ne_nil _ _)
                (Nat.le_of_succ_le longer)
                (by rw [intercalate_cons_cons, ← rest.2])
            have tooLong := congrArg List.length fewer
            simp only [List.length_cons] at tooLong longer
            omega

end Joined

end Library
