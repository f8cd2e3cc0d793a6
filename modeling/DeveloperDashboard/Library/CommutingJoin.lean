import Mathlib.Data.List.Perm.Basic

namespace Library

/-!
# Parts that can be joined in any order

Lists that are joined give the same whole in every order if and only if any
two of them can be exchanged.
-/

namespace CommutingJoin

variable {Item : Type}

/-- Any two of the parts are joined to the same list both ways. -/
def Commute (parts : List (List Item)) : Prop :=
  parts.Pairwise fun one other => one ++ other = other ++ one

theorem commute_perm {parts others : List (List Item)}
    (perm : parts.Perm others) :
    Commute parts ↔ Commute others :=
  perm.pairwise_iff fun same => same.symm

theorem Commute.flatten_eq {parts others : List (List Item)}
    (commute : Commute parts) (perm : parts.Perm others) :
    parts.flatten = others.flatten := by
  induction perm with
  | nil => rfl
  | cons part rest ih =>
    rw [List.flatten_cons, List.flatten_cons,
      ih (List.pairwise_cons.mp commute).2]
  | swap one other rest =>
    have same := (List.pairwise_cons.mp commute).1 one
      List.mem_cons_self
    rw [List.flatten_cons, List.flatten_cons, List.flatten_cons,
      List.flatten_cons, ← List.append_assoc, ← List.append_assoc, same]
  | trans first second firstHypothesis secondHypothesis =>
    exact (firstHypothesis commute).trans
      (secondHypothesis ((commute_perm first).mp commute))

theorem commute_of_flatten_eq {parts : List (List Item)}
    (same :
      ∀ others : List (List Item), others.Perm parts → others.flatten = parts.flatten) :
    Commute parts := by
  induction parts with
  | nil => exact List.Pairwise.nil
  | cons part rest ih =>
    refine List.pairwise_cons.mpr ⟨fun other isIn => ?_, ?_⟩
    · obtain ⟨front, back, rfl⟩ := List.append_of_mem isIn
      have ahead :
          (part :: other :: (front ++ back)).Perm
            (part :: (front ++ other :: back)) :=
        List.Perm.cons part List.perm_middle.symm
      have one := same _ ahead
      have two := same _ ((List.Perm.swap part other _).trans ahead)
      rw [← one] at two
      simp only [List.flatten_cons, ← List.append_assoc] at two
      exact (List.append_inj_left' two rfl).symm
    · refine ih fun others perm => ?_
      have whole := same (part :: others) (List.Perm.cons part perm)
      rw [List.flatten_cons, List.flatten_cons] at whole
      exact List.append_cancel_left whole

theorem flatten_map_eq_iff {Index : Type} {part : Index → List Item}
    {indices : List Index} :
    (∀ others : List Index, others.Perm indices →
        (others.map part).flatten = (indices.map part).flatten) ↔
      Commute (indices.map part) := by
  constructor
  · intro same
    refine commute_of_flatten_eq fun others perm => ?_
    have lifted := congrFun (congrFun (List.eq_map_comp_perm part) others)
      indices
    obtain ⟨reordered, rfl, isPerm⟩ := lifted.mpr perm
    exact same reordered isPerm
  · intro commute others perm
    exact (commute.flatten_eq (perm.symm.map part)).symm

end CommutingJoin

end Library
