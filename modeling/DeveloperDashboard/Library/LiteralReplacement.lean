import DeveloperDashboard.Library.TextReplacement
import Mathlib.Data.List.Infix

namespace Library

/-!
# Replacing literals of a text

A literal is replaced wherever it stands, from the left.  Symbols that the
literal lacks cut a text into parts that are replaced on their own.
-/

variable {Symbol : Type} [DecidableEq Symbol]

/-- Replace a literal, so many symbols of a match being left. -/
def replaceAllAfter (literal insertion : List Symbol) :
    Nat → List Symbol → List Symbol
  | _, [] => []
  | left + 1, _ :: rest => replaceAllAfter literal insertion left rest
  | 0, symbol :: rest =>
    if literal.isPrefixOf (symbol :: rest) then
      insertion ++
        replaceAllAfter literal insertion (literal.length - 1) rest
    else symbol :: replaceAllAfter literal insertion 0 rest

def replaceAll (literal insertion text : List Symbol) : List Symbol :=
  replaceAllAfter literal insertion 0 text

variable {literal insertion : List Symbol}

theorem replaceAll_of_absent {text : List Symbol}
    (absent : ¬ literal <:+: text) :
    replaceAll literal insertion text = text := by
  unfold replaceAll
  induction text with
  | nil => rfl
  | cons symbol rest ih =>
    rw [replaceAllAfter, if_neg fun starts =>
        absent (List.isPrefixOf_iff_prefix.mp starts).isInfix,
      ih fun later => absent (List.infix_cons later)]

theorem replaceAllAfter_length (text : List Symbol) :
    replaceAllAfter literal insertion text.length text = [] := by
  induction text with
  | nil => rfl
  | cons symbol rest ih => exact ih

theorem replaceAll_self (nonempty : literal ≠ []) :
    replaceAll literal insertion literal = insertion := by
  obtain ⟨symbol, rest, rfl⟩ := List.exists_cons_of_ne_nil nonempty
  rw [replaceAll, replaceAllAfter,
    if_pos (List.isPrefixOf_iff_prefix.mpr List.prefix_rfl),
    List.length_cons, Nat.add_sub_cancel, replaceAllAfter_length,
    List.append_nil]

theorem prefix_of_prefix_append_cons {symbol : Symbol}
    (foreign : symbol ∉ literal) {front back : List Symbol}
    (starts : literal <+: front ++ symbol :: back) : literal <+: front := by
  by_contra missed
  have longer : front.length < literal.length := by
    by_contra short
    exact missed (List.prefix_of_prefix_length_le starts
      (List.prefix_append _ _) (Nat.le_of_not_lt short))
  have whole : front ++ [symbol] <+: literal := by
    refine List.prefix_of_prefix_length_le ⟨back, by simp⟩ starts ?_
    rw [List.length_append]
    exact longer
  exact foreign (whole.mem (by simp))

/-- A symbol that the literal lacks cuts a text. -/
theorem replaceAllAfter_append_cons {symbol : Symbol}
    (foreign : symbol ∉ literal) (nonempty : literal ≠ [])
    (back : List Symbol) (left : Nat) (front : List Symbol)
    (inside : left ≤ front.length) :
    replaceAllAfter literal insertion left (front ++ symbol :: back) =
      replaceAllAfter literal insertion left front ++
        symbol :: replaceAll literal insertion back := by
  induction front generalizing left with
  | nil =>
    obtain rfl := Nat.le_zero.mp inside
    refine if_neg fun starts => ?_
    obtain ⟨first, rest, rfl⟩ := List.exists_cons_of_ne_nil nonempty
    have same := (List.cons_prefix_cons.mp
      (List.isPrefixOf_iff_prefix.mp starts)).1
    exact foreign (same ▸ List.mem_cons_self)
  | cons first rest ih =>
    cases left with
    | succ left =>
      exact ih left (Nat.le_of_succ_le_succ inside)
    | zero =>
      rw [List.cons_append, replaceAllAfter, replaceAllAfter]
      by_cases starts : literal <+: first :: rest
      · have longer : literal <+: first :: (rest ++ symbol :: back) :=
          starts.trans (List.prefix_append _ _)
        rw [if_pos (List.isPrefixOf_iff_prefix.mpr starts),
          if_pos (List.isPrefixOf_iff_prefix.mpr longer),
          ih _ (Nat.sub_le_of_le_add starts.length_le),
          List.append_assoc]
      · rw [if_neg (mt List.isPrefixOf_iff_prefix.mp starts), if_neg ?_,
          ih 0 (Nat.zero_le _)]
        · rfl
        · exact fun longer => starts (prefix_of_prefix_append_cons
            foreign (List.isPrefixOf_iff_prefix.mp longer))

theorem replaceAll_append_cons {symbol : Symbol}
    (foreign : symbol ∉ literal) (nonempty : literal ≠ [])
    (front back : List Symbol) :
    replaceAll literal insertion (front ++ symbol :: back) =
      replaceAll literal insertion front ++
        symbol :: replaceAll literal insertion back :=
  replaceAllAfter_append_cons foreign nonempty back 0 front (Nat.zero_le _)

omit [DecidableEq Symbol]

variable {table : ReplacementTable Symbol}

def EntriesApart (table : ReplacementTable Symbol)
    (literal : List Symbol) : Prop :=
  ∀ symbol entry, table symbol = some entry →
    entry ≠ [] ∧ ∀ other ∈ entry, other ∉ literal

theorem prefix_of_prefix_replaceEach {text : List Symbol}
    (apart : EntriesApart table literal)
    (starts : literal <+: replaceEach table text) : literal <+: text := by
  induction text generalizing literal with
  | nil => exact starts
  | cons symbol rest ih =>
    cases literal with
    | nil => exact List.nil_prefix
    | cons first later =>
      rw [replaceEach_cons] at starts
      cases found : table symbol with
      | none =>
        rw [found] at starts
        obtain ⟨rfl, tail⟩ := List.cons_prefix_cons.mp starts
        refine List.cons_prefix_cons.mpr ⟨rfl, ih ?_ tail⟩
        exact fun other entry isEntry =>
          ⟨(apart other entry isEntry).1, fun char member isIn =>
            (apart other entry isEntry).2 char member
              (List.mem_cons_of_mem _ isIn)⟩
      | some entry =>
        obtain ⟨nonempty, foreign⟩ := apart symbol entry found
        obtain ⟨head, tail, rfl⟩ :=
          List.exists_cons_of_ne_nil nonempty
        rw [found] at starts
        have same := (List.cons_prefix_cons.mp starts).1
        exact absurd (same ▸ List.mem_cons_self)
          (foreign head List.mem_cons_self)

theorem infix_of_infix_append {entry back : List Symbol}
    (foreign : ∀ symbol ∈ entry, symbol ∉ literal)
    (nonempty : literal ≠ []) (within : literal <:+: entry ++ back) :
    literal <:+: back := by
  induction entry with
  | nil => exact within
  | cons symbol rest ih =>
    rcases List.infix_cons_iff.mp within with starts | later
    · obtain ⟨first, others, rfl⟩ := List.exists_cons_of_ne_nil nonempty
      have same := (List.cons_prefix_cons.mp starts).1
      exact absurd (same ▸ List.mem_cons_self)
        (foreign symbol List.mem_cons_self)
    · exact ih
        (fun other member => foreign other (List.mem_cons_of_mem _ member))
        later

theorem infix_of_infix_replaceEach {text : List Symbol}
    (apart : EntriesApart table literal) (nonempty : literal ≠ [])
    (within : literal <:+: replaceEach table text) : literal <:+: text := by
  induction text with
  | nil => exact within
  | cons symbol rest ih =>
    cases found : table symbol with
    | none =>
      rw [replaceEach_cons, found] at within
      rcases List.infix_cons_iff.mp within with starts | later
      · have here : literal <+: replaceEach table (symbol :: rest) := by
          rw [replaceEach_cons, found]
          exact starts
        exact (prefix_of_prefix_replaceEach apart here).isInfix
      · exact List.infix_cons (ih later)
    | some entry =>
      rw [replaceEach_cons, found] at within
      exact List.infix_cons (ih (infix_of_infix_append
        (apart symbol entry found).2 nonempty within))

end Library
