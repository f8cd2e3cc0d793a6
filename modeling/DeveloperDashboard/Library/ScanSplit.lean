import Mathlib.Algebra.GroupWithZero.Nat
import Mathlib.Data.List.Basic

namespace Library

/-!
# Splitting a list by scanning

`scan` goes through a list once and asks at every position whether a separator
starts there, and how long it is; the separator may look back at the element
before it.  The parts are what stands between the separators that it takes.
-/

namespace ScanSplit

variable {Item : Type}

/-- The length of the separator that starts here, if one does. -/
abbrev Separator (Item : Type) :=
  Option Item → List Item → Option Nat

def prependItem (item : Item) : List (List Item) → List (List Item)
  | [] => [[item]]
  | first :: rest => (item :: first) :: rest

/-- The parts of a list, after the rest of a separator that was taken. -/
def scan (separator : Separator Item) :
    Nat → Option Item → List Item → List (List Item)
  | _, _, [] => [[]]
  | skip + 1, _, item :: rest => scan separator skip (some item) rest
  | 0, previous, item :: rest =>
    match separator previous (item :: rest) with
    | some length =>
      [] :: scan separator (length - 1) (some item) rest
    | none => prependItem item (scan separator 0 (some item) rest)

def lastItem (previous : Option Item) (items : List Item) :
    Option Item :=
  items.getLast?.or previous

def Quiet (separator : Separator Item) :
    Option Item → List Item → List Item → Prop
  | _, [], _ => True
  | previous, item :: rest, after =>
    separator previous (item :: rest ++ after) = none ∧
      Quiet separator (some item) rest after

variable {separator : Separator Item}

theorem scan_ne_nil (separator : Separator Item)
    (skip : Nat) (previous : Option Item) (items : List Item) :
    scan separator skip previous items ≠ [] := by
  induction items generalizing skip previous with
  | nil => cases skip <;> simp [scan]
  | cons item rest ih =>
    cases skip with
    | succ skip =>
      exact ih skip (some item)
    | zero =>
      simp only [scan]
      split
      · exact List.cons_ne_nil _ _
      · cases scan separator 0 (some item) rest <;>
          simp [prependItem]

theorem lastItem_cons
    (previous : Option Item) (item : Item) (rest : List Item) :
    lastItem previous (item :: rest) = lastItem (some item) rest := by
  unfold lastItem
  cases rest with
  | nil => simp
  | cons next rest =>
    simp [List.getLast?_cons]

theorem scan_skip (previous : Option Item) (dropped items : List Item) :
    scan separator dropped.length previous (dropped ++ items) =
      scan separator 0 (lastItem previous dropped) items := by
  induction dropped generalizing previous with
  | nil => simp [lastItem]
  | cons item rest ih =>
    rw [lastItem_cons, ← ih (some item)]
    rfl

/-- Items in which no separator starts go to the first part. -/
theorem scan_quiet {previous : Option Item} {items after : List Item}
    (quiet : Quiet separator previous items after) :
    ∃ first rest,
      scan separator 0 (lastItem previous items) after =
          first :: rest ∧
        scan separator 0 previous (items ++ after) =
          (items ++ first) :: rest := by
  induction items generalizing previous with
  | nil =>
    obtain ⟨first, rest, parts⟩ :=
      List.exists_cons_of_ne_nil
        (scan_ne_nil separator 0 previous after)
    exact ⟨first, rest, by simpa [lastItem] using parts, parts⟩
  | cons item items ih =>
    obtain ⟨silent, quietRest⟩ := quiet
    obtain ⟨first, rest, partsAfter, parts⟩ :=
      ih quietRest
    refine ⟨first, rest, by rwa [lastItem_cons], ?_⟩
    simp only [List.cons_append] at silent ⊢
    simp only [scan, silent, parts, prependItem]

theorem scan_separator {previous : Option Item} {taken after : List Item}
    (nonempty : taken ≠ [])
    (starts :
      separator previous (taken ++ after) = some taken.length) :
    scan separator 0 previous (taken ++ after) =
      [] :: scan separator 0 (lastItem previous taken) after := by
  cases taken with
  | nil => exact absurd rfl nonempty
  | cons item rest =>
    simp only [List.cons_append] at starts ⊢
    simp only [scan, starts, List.length_cons, Nat.add_sub_cancel]
    rw [scan_skip, lastItem_cons]

theorem lastItem_append (previous : Option Item) (front back : List Item) :
    lastItem previous (front ++ back) =
      lastItem (lastItem previous front) back := by
  induction front generalizing previous with
  | nil => simp [lastItem]
  | cons item rest ih =>
    rw [List.cons_append, lastItem_cons, lastItem_cons, ih]

theorem quiet_append
    {previous : Option Item} {front back after : List Item} :
    Quiet separator previous (front ++ back) after ↔
      Quiet separator previous front (back ++ after) ∧
        Quiet separator (lastItem previous front) back after := by
  induction front generalizing previous with
  | nil => simp [Quiet, lastItem]
  | cons item rest ih =>
    simp only [List.cons_append, Quiet, ih, lastItem_cons, List.append_assoc]
    exact and_assoc.symm

theorem quiet_iff {previous : Option Item} {items after : List Item} :
    Quiet separator previous items after ↔
      ∀ front back, items = front ++ back → back ≠ [] →
        separator (lastItem previous front) (back ++ after) = none := by
  constructor
  · rintro quiet front back rfl nonempty
    have atBack := (quiet_append.mp quiet).2
    cases back with
    | nil => exact absurd rfl nonempty
    | cons item rest => exact atBack.1
  · intro silent
    induction items generalizing previous with
    | nil => trivial
    | cons item rest ih =>
      refine ⟨silent [] (item :: rest) rfl (List.cons_ne_nil _ _), ?_⟩
      refine ih fun front back parts nonempty => ?_
      have later := silent (item :: front) back (by rw [parts]; rfl) nonempty
      rwa [lastItem_cons] at later

def weight (counts : Item → Bool) (parts : List (List Item)) : Nat :=
  (parts.map (List.countP counts)).sum

theorem countP_le_weight
    {counts : Item → Bool} {parts : List (List Item)} {part : List Item}
    (isIn : part ∈ parts) :
    part.countP counts ≤ weight counts parts := by
  induction parts with
  | nil => contradiction
  | cons first rest ih =>
    rw [weight, List.map_cons, List.sum_cons]
    rcases List.mem_cons.mp isIn with rfl | later
    · exact Nat.le_add_right _ _
    · exact Nat.le_add_left_of_le (ih later)

theorem weight_prependItem
    {counts : Item → Bool} {parts : List (List Item)} (item : Item) :
    weight counts (prependItem item parts) =
      [item].countP counts + weight counts parts := by
  cases parts with
  | nil => simp [prependItem, weight]
  | cons first rest =>
    simp only [prependItem, weight, List.map_cons, List.sum_cons]
    rw [← List.singleton_append, List.countP_append, Nat.add_assoc]

theorem prependItem_append
    (item : Item) {front : List (List Item)} (nonempty : front ≠ [])
    (parts : List (List Item)) :
    prependItem item (front ++ parts) = prependItem item front ++ parts := by
  cases front with
  | nil => exact absurd rfl nonempty
  | cons first rest => rfl

theorem prependItem_ne_nil (item : Item) (parts : List (List Item)) :
    prependItem item parts ≠ [] := by
  cases parts <;> exact List.cons_ne_nil _ _

/--
A scan that always comes through what follows some items in the same way splits
the items alone.  What counts in them goes to their parts; where a separator
starts in them, not all of it.
-/
theorem scan_through
    {after : List Item} {parts : List (List Item)} {slack : Nat}
    {counts : Item → Bool}
    (ends : ∀ skip ≤ slack, ∀ previous, ∃ front, front ≠ [] ∧
        scan separator skip previous after = front ++ parts ∧
          weight counts front = 0)
    (bounded : ∀ previous items length, items ≠ [] →
      separator previous (items ++ after) = some length →
        length ≤ items.length + slack ∧
          0 < (items.take length).countP counts)
    {items : List Item} (skip : Nat) (near : skip ≤ items.length + slack)
    (previous : Option Item) :
    ∃ front,
      front ≠ [] ∧
        scan separator skip previous (items ++ after) = front ++ parts ∧
          weight counts front ≤ (items.drop skip).countP counts ∧
            (skip = 0 →
              Quiet separator previous items after ∨
                weight counts front < items.countP counts) := by
  induction items generalizing skip previous with
  | nil =>
    obtain ⟨front, nonempty, split, light⟩ :=
      ends skip (by simpa using near) previous
    exact ⟨front, nonempty, split, by simp [light], fun _ => .inl trivial⟩
  | cons item items ih =>
    cases skip with
    | succ skip =>
      obtain ⟨front, nonempty, split, light, -⟩ :=
        ih skip
          (by rw [List.length_cons] at near; omega) (some item)
      exact ⟨front, nonempty, split, light, by simp⟩
    | zero =>
      cases starts : separator previous (item :: items ++ after) with
      | none =>
        obtain ⟨front, nonempty, split, light, strict⟩ :=
          ih 0 (Nat.zero_le _) (some item)
        have first :
            (item :: items).countP counts =
              [item].countP counts + items.countP counts :=
          @List.countP_append _ _ [item] items
        refine ⟨prependItem item front, prependItem_ne_nil _ _,
          ?_, ?_, fun _ => ?_⟩
        · simp only [List.cons_append] at starts ⊢
          simp only [scan, starts, split, prependItem_append item nonempty]
        · rw [weight_prependItem, List.drop_zero, first]
          exact Nat.add_le_add_left light _
        · rcases strict rfl with quiet | less
          · exact .inl ⟨starts, quiet⟩
          · right
            rw [weight_prependItem, first]
            exact Nat.add_lt_add_left less _
      | some length =>
        obtain ⟨short, visible⟩ :=
          bounded previous (item :: items) length
            (List.cons_ne_nil _ _) starts
        obtain ⟨front, nonempty, split, light, -⟩ :=
          ih (length - 1)
            (by rw [List.length_cons] at short; omega) (some item)
        have positive : length ≠ 0 := by
          rintro rfl
          simp at visible
        have total :
            ((item :: items).take length).countP counts +
                (items.drop (length - 1)).countP counts =
              (item :: items).countP counts := by
          rw [← @List.drop_succ_cons _ item,
            Nat.sub_add_cancel (Nat.pos_of_ne_zero positive),
            ← List.countP_append, List.take_append_drop]
        have less :
            weight counts ([] :: front) <
              (item :: items).countP counts := by
          have same :
              weight counts ([] :: front) = weight counts front := by
            simp [weight]
          omega
        refine ⟨[] :: front, List.cons_ne_nil _ _, ?_,
          Nat.le_of_lt less, fun _ => .inr less⟩
        simp only [List.cons_append] at starts ⊢
        simp only [scan, starts, split]

end ScanSplit

end Library
