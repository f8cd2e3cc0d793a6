import Mathlib.Algebra.GroupWithZero.Nat
import Mathlib.Data.List.SplitBy

namespace Library

/-!
# Framed lists

A frame is a marked item with unmarked items after it.  A list of frames is
found again in the list of their items, and a cut that does not meet a marked
item drops what it leaves of a frame.
-/

namespace Framed

variable {Item Entry : Type}

def IsFrame (marked : Item → Bool) : List Item → Prop
  | [] => False
  | first :: rest =>
    marked first = true ∧ ∀ item ∈ rest, marked item = false

def frames (marked : Item → Bool) (items : List Item) :
    List (List Item) :=
  items.splitBy fun _ item => !marked item

def realign (marked : Item → Bool) (items : List Item) : List Item :=
  if items.head?.any marked then items
  else (frames marked items).tail.flatten

/-- How much some entries hold together. -/
def total (size : Entry → Nat) (entries : List Entry) : Nat :=
  (entries.map size).sum

/-- The longest suffix that holds no more than the bound. -/
def suffixWithin (size : Entry → Nat) (bound : Nat) :
    List Entry → List Entry
  | [] => []
  | entry :: rest =>
    if total size (entry :: rest) ≤ bound then entry :: rest
    else suffixWithin size bound rest

variable {marked : Item → Bool}

theorem frames_append {front back : List Item} (nonempty : front ≠ [])
    (quiet : ∀ item ∈ front.tail, marked item = false)
    (starts : ∀ item ∈ back.head?, marked item = true) :
    frames marked (front ++ back) = front :: frames marked back := by
  have chain :
      front.IsChain fun _ item => (!marked item) = true := by
    cases front with
    | nil => exact List.isChain_nil
    | cons first rest =>
      clear nonempty
      induction rest generalizing first with
      | nil => exact List.isChain_singleton first
      | cons next rest ih =>
        rw [List.isChain_cons_cons]
        refine ⟨?_, ih next ?_⟩
        · rw [quiet next List.mem_cons_self]
          rfl
        · exact fun item member =>
            quiet item (List.mem_cons_of_mem _ member)
  unfold frames
  rw [List.splitBy_append, List.splitBy_of_isChain nonempty chain]
  · rfl
  · intro last _ item isFirst
    rw [starts item isFirst]
    rfl

theorem IsFrame.ne_nil {frame : List Item} (isFrame : IsFrame marked frame) :
    frame ≠ [] := by
  rintro rfl
  exact isFrame

theorem head_of_frames {lines : Entry → List Item} {entries : List Entry}
    (framed : ∀ entry ∈ entries, IsFrame marked (lines entry)) :
    ∀ item ∈ (entries.flatMap lines).head?, marked item = true := by
  cases entries with
  | nil => simp
  | cons entry rest =>
    have isFrame := framed entry List.mem_cons_self
    cases shape : lines entry with
    | nil =>
      rw [shape] at isFrame
      exact isFrame.elim
    | cons first others =>
      rw [shape] at isFrame
      rw [List.flatMap_cons, shape]
      simpa using isFrame.1

theorem frames_flatMap {lines : Entry → List Item} {entries : List Entry}
    (framed : ∀ entry ∈ entries, IsFrame marked (lines entry)) :
    frames marked (entries.flatMap lines) = entries.map lines := by
  induction entries with
  | nil => rfl
  | cons entry rest ih =>
    have isFrame := framed entry List.mem_cons_self
    have framedRest :
        ∀ other ∈ rest, IsFrame marked (lines other) :=
      fun other member => framed other (List.mem_cons_of_mem _ member)
    have quiet : ∀ item ∈ (lines entry).tail, marked item = false := by
      cases shape : lines entry with
      | nil => exact fun item member => nomatch member
      | cons first others =>
        rw [shape] at isFrame
        exact isFrame.2
    rw [List.flatMap_cons, List.map_cons,
      frames_append isFrame.ne_nil quiet (head_of_frames framedRest),
      ih framedRest]

variable {size : Entry → Nat} {bound : Nat}

theorem length_flatMap_eq_total
    (lines : Entry → List Item) (entries : List Entry) :
    (entries.flatMap lines).length =
      total (fun entry => (lines entry).length) entries := by
  rw [List.length_flatMap, total]

theorem suffixWithin_suffix (size : Entry → Nat) (bound : Nat)
    (entries : List Entry) :
    suffixWithin size bound entries <:+ entries := by
  induction entries with
  | nil => exact List.suffix_refl []
  | cons entry rest ih =>
    rw [suffixWithin]
    split
    · exact List.suffix_refl _
    · exact ih.trans (List.suffix_cons entry rest)

theorem total_suffixWithin_le (size : Entry → Nat) (bound : Nat)
    (entries : List Entry) :
    total size (suffixWithin size bound entries) ≤ bound := by
  induction entries with
  | nil => exact Nat.zero_le bound
  | cons entry rest ih =>
    rw [suffixWithin]
    split
    · assumption
    · exact ih

theorem length_le_suffixWithin
    {other entries : List Entry} (suffix : other <:+ entries)
    (fits : total size other ≤ bound) :
    other.length ≤ (suffixWithin size bound entries).length := by
  induction entries with
  | nil => exact suffix.length_le
  | cons entry rest ih =>
    rw [suffixWithin]
    split
    · exact suffix.length_le
    · next exceeded =>
        rcases List.suffix_cons_iff.mp suffix with rfl | shorter
        · exact absurd fits exceeded
        · exact ih shorter

theorem suffixWithin_of_le {entries : List Entry}
    (fits : total size entries ≤ bound) :
    suffixWithin size bound entries = entries := by
  cases entries with
  | nil => rfl
  | cons entry rest => exact if_pos fits

/-- A cut keeps the longest suffix of frames that fits behind it. -/
theorem realign_drop {lines : Entry → List Item} {entries : List Entry}
    (framed : ∀ entry ∈ entries, IsFrame marked (lines entry))
    {cut : Nat} (short : cut < (entries.flatMap lines).length) :
    realign marked ((entries.flatMap lines).drop cut) =
      (suffixWithin (fun entry => (lines entry).length)
        ((entries.flatMap lines).length - cut) entries).flatMap lines := by
  induction entries generalizing cut with
  | nil => simp at short
  | cons entry rest ih =>
    have framedRest :
        ∀ other ∈ rest, IsFrame marked (lines other) :=
      fun other member => framed other (List.mem_cons_of_mem _ member)
    have starts := head_of_frames framedRest
    have isFrame := framed entry List.mem_cons_self
    rw [length_flatMap_eq_total] at short ⊢
    rw [suffixWithin]
    cases cut with
    | zero =>
      rw [Nat.sub_zero, if_pos (Nat.le_refl _), List.drop_zero,
        realign, if_pos]
      have first := head_of_frames framed
      have some_ := isFrame.ne_nil
      cases shape : lines entry with
      | nil => exact absurd shape some_
      | cons item others =>
        rw [List.flatMap_cons, shape] at first ⊢
        simpa using first
    | succ cut =>
      have exceeded :
          ¬ total (fun entry => (lines entry).length)
              (entry :: rest) ≤
            total (fun entry => (lines entry).length)
              (entry :: rest) - (cut + 1) := by
        omega
      rw [if_neg exceeded, List.flatMap_cons]
      have sum :
          total (fun entry => (lines entry).length) (entry :: rest) =
            (lines entry).length +
              total (fun entry => (lines entry).length) rest := by
        rw [total, List.map_cons, List.sum_cons, total]
      rcases Nat.lt_or_ge (cut + 1) (lines entry).length with
        within | past
      · -- the cut leaves a part of this frame
        have parts :
            (lines entry ++ rest.flatMap lines).drop (cut + 1) =
              (lines entry).drop (cut + 1) ++ rest.flatMap lines := by
          rw [List.drop_append_of_le_length (Nat.le_of_lt within)]
        have quiet :
            ∀ item ∈ (lines entry).drop (cut + 1),
              marked item = false := by
          cases shape : lines entry with
          | nil => exact fun item member => nomatch member
          | cons first others =>
            rw [shape] at isFrame
            intro item member
            rw [List.drop_succ_cons] at member
            exact isFrame.2 item (List.mem_of_mem_drop member)
        have left : (lines entry).drop (cut + 1) ≠ [] := by
          rw [ne_eq, List.drop_eq_nil_iff]
          omega
        rw [parts, realign, if_neg, frames_append left
          (fun item member => quiet item (List.mem_of_mem_tail member))
          starts, List.tail_cons, frames_flatMap framedRest,
          suffixWithin_of_le (by omega), List.flatMap_def]
        obtain ⟨item, others, shape⟩ := List.exists_cons_of_ne_nil left
        rw [shape] at quiet ⊢
        simp [quiet item List.mem_cons_self]
      · -- the cut is behind this frame
        have shift :
            (lines entry ++ rest.flatMap lines).drop (cut + 1) =
              (rest.flatMap lines).drop
                (cut + 1 - (lines entry).length) := by
          rw [List.drop_append, List.drop_of_length_le past, List.nil_append]
        have lengthRest := length_flatMap_eq_total lines rest
        rw [shift, ih framedRest (by omega), lengthRest]
        congr 2
        omega

theorem total_suffix_ne
    {before after kept : List Entry} {entry : Entry} {part : Nat}
    (suffix : kept <:+ before ++ entry :: after)
    (positive : 0 < part) (less : part < size entry) :
    total size kept ≠ part + total size after := by
  rcases List.suffix_or_suffix_of_suffix suffix
      (List.suffix_append before (entry :: after)) with short | long
  · rcases List.suffix_cons_iff.mp short with rfl | shorter
    · rw [total, List.map_cons, List.sum_cons, total]
      omega
    · have parts : total size kept ≤ total size after := by
        obtain ⟨front, rfl⟩ := shorter
        simp [total]
      omega
  · have parts : total size (entry :: after) ≤ total size kept := by
      obtain ⟨front, rfl⟩ := long
      simp [total]
    rw [total, List.map_cons, List.sum_cons] at parts
    unfold total at parts ⊢
    omega

end Framed

end Library
