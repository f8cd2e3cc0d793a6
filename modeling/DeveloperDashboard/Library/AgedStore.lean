import Mathlib.Algebra.GroupWithZero.Nat
import Mathlib.Data.List.Infix
import DeveloperDashboard.Library.Entries

namespace Library

/-!
# Stores that keep their newest entries

A bounded store lists its entries from the oldest to the newest.  Storing a
key puts it at the new end, and entries are dropped at the old end while there
are too many of them or they are too large together.
-/

variable {Key Value : Type}

/-- How many entries a store may hold, and how large they may be together. -/
structure AgeLimits (Value : Type) where
  count : Nat
  total : Nat
  size : Value → Nat

variable {entries : Entries Key Value} {entry item : Key × Value}

namespace AgeLimits

variable (limits : AgeLimits Value)

def totalSize (entries : Entries Key Value) : Nat :=
  (entries.map fun entry => limits.size entry.2).sum

/-- Whether there are too many entries, or too large ones. -/
def isOver (entries : Entries Key Value) : Bool :=
  decide (limits.count < entries.length) ||
    decide (limits.total < limits.totalSize entries)

/-- Drop entries at the old end until the rest may be held. -/
def dropOldest : Entries Key Value → Entries Key Value
  | [] => []
  | entry :: rest =>
    if limits.isOver (entry :: rest) then dropOldest rest
    else entry :: rest

def dropped : Entries Key Value → Entries Key Value
  | [] => []
  | entry :: rest =>
    if limits.isOver (entry :: rest) then entry :: dropped rest
    else []

def atNewEnd [DecidableEq Key]
    (entries : Entries Key Value) (item : Key × Value) :
    Entries Key Value :=
  entries.remove item.1 ++ [item]

def renew [DecidableEq Key]
    (entries : Entries Key Value) (item : Key × Value) :
    Entries Key Value :=
  limits.dropOldest (atNewEnd entries item)

def renewed [DecidableEq Key]
    (items : List (Key × Value)) : Entries Key Value :=
  items.foldl limits.renew []

def lastStored [DecidableEq Key]
    (items : List (Key × Value)) : Entries Key Value :=
  items.foldl atNewEnd []

/--
An entry goes when its key is stored again, or when it is too much together
with the newer entries and the one that is stored.
-/
def Loses [DecidableEq Key]
    (entries : Entries Key Value) (item entry : Key × Value) : Prop :=
  ∃ older newer, entries = older ++ entry :: newer ∧
    (entry.1 = item.1 ∨
      limits.isOver (atNewEnd (entry :: newer) item) = true)

@[simp] theorem totalSize_nil :
    limits.totalSize ([] : Entries Key Value) = 0 :=
  rfl

@[simp] theorem totalSize_cons
    (entry : Key × Value) (rest : Entries Key Value) :
    limits.totalSize (entry :: rest) =
      limits.size entry.2 + limits.totalSize rest :=
  List.sum_cons

@[simp] theorem totalSize_append (left right : Entries Key Value) :
    limits.totalSize (left ++ right) =
      limits.totalSize left + limits.totalSize right := by
  unfold totalSize
  rw [List.map_append, List.sum_append]

theorem totalSize_perm
    {left right : Entries Key Value} (same : left.Perm right) :
    limits.totalSize left = limits.totalSize right :=
  List.Perm.sum_nat (same.map _)

@[simp] theorem isOver_nil :
    limits.isOver ([] : Entries Key Value) = false := by
  simp [isOver]

theorem isOver_of_suffix {newer : Entries Key Value}
    (within : newer <:+ entries) (tooMuch : limits.isOver newer = true) :
    limits.isOver entries = true := by
  obtain ⟨older, rfl⟩ := within
  simp only [isOver, Bool.or_eq_true, decide_eq_true_eq,
    List.length_append, totalSize_append] at tooMuch ⊢
  omega

theorem dropped_append_dropOldest (entries : Entries Key Value) :
    limits.dropped entries ++ limits.dropOldest entries = entries := by
  induction entries with
  | nil => rfl
  | cons entry rest ih =>
    unfold dropped dropOldest
    split
    · rw [List.cons_append, ih]
    · rfl

theorem dropOldest_suffix (entries : Entries Key Value) :
    limits.dropOldest entries <:+ entries :=
  ⟨_, limits.dropped_append_dropOldest entries⟩

theorem isOver_dropOldest (entries : Entries Key Value) :
    limits.isOver (limits.dropOldest entries) = false := by
  induction entries with
  | nil => exact limits.isOver_nil
  | cons entry rest ih =>
    unfold dropOldest
    split
    · exact ih
    · next within => exact Bool.eq_false_iff.mpr within

theorem suffix_dropOldest {newer : Entries Key Value}
    (within : newer <:+ entries) (allowed : limits.isOver newer = false) :
    newer <:+ limits.dropOldest entries := by
  induction entries with
  | nil => exact within
  | cons entry rest ih =>
    unfold dropOldest
    split
    · next tooMuch =>
        rcases List.suffix_cons_iff.mp within with whole | inRest
        · rw [whole, tooMuch] at allowed
          contradiction
        · exact ih inRest
    · exact within

theorem mem_dropped_iff :
    entry ∈ limits.dropped entries ↔
      ∃ older newer, entries = older ++ entry :: newer ∧
        limits.isOver (entry :: newer) = true := by
  induction entries with
  | nil => simp [dropped]
  | cons first rest ih =>
    unfold dropped
    split
    · next wholeIsOver =>
        rw [List.mem_cons, ih]
        constructor
        · rintro (rfl | ⟨older, newer, rfl, tooMuch⟩)
          · exact ⟨[], rest, rfl, wholeIsOver⟩
          · exact ⟨first :: older, newer, rfl, tooMuch⟩
        · rintro ⟨older, newer, whole, tooMuch⟩
          rcases List.cons_eq_append_iff.mp whole with
            ⟨rfl, same⟩ | ⟨older', rfl, same⟩
          · exact .inl (List.cons.inj same).1
          · exact .inr ⟨older', newer, same, tooMuch⟩
    · next allowed =>
        simp only [List.not_mem_nil, false_iff, not_exists, not_and]
        intro older newer whole tooMuch
        refine allowed (limits.isOver_of_suffix ?_ tooMuch)
        exact ⟨older, whole.symm⟩

variable [DecidableEq Key]

theorem atNewEnd_append
    (older newer : Entries Key Value) (item : Key × Value) :
    atNewEnd (older ++ newer) item =
      older.remove item.1 ++ atNewEnd newer item := by
  unfold atNewEnd Entries.remove
  rw [List.filter_append, List.append_assoc]

theorem atNewEnd_cons_of_ne (newer : Entries Key Value)
    (other : entry.1 ≠ item.1) :
    atNewEnd (entry :: newer) item = entry :: atNewEnd newer item := by
  unfold atNewEnd Entries.remove
  rw [List.filter_cons, if_pos (decide_eq_true other), List.cons_append]

theorem mem_renew (entries : Entries Key Value)
    (allowed : limits.isOver [item] = false) :
    item ∈ limits.renew entries item :=
  (limits.suffix_dropOldest
    (List.suffix_append (entries.remove item.1) [item]) allowed).mem
    List.mem_cons_self

theorem nodup_atNewEnd (item : Key × Value)
    (distinct : (entries.map Prod.fst).Nodup) :
    ((atNewEnd entries item).map Prod.fst).Nodup := by
  unfold atNewEnd Entries.remove
  rw [List.map_append, List.map_singleton]
  refine List.nodup_append.mpr
    ⟨distinct.sublist (List.filter_sublist.map _),
      List.pairwise_singleton _ item.1, ?_⟩
  intro key member last single same
  obtain ⟨entry, kept, rfl⟩ := List.mem_map.mp member
  rw [List.mem_singleton.mp single] at same
  exact of_decide_eq_true (List.mem_filter.mp kept).2 same

theorem isOver_renewed (items : List (Key × Value)) :
    limits.isOver (limits.renewed items) = false := by
  induction items using List.reverseRecOn with
  | nil => exact limits.isOver_nil
  | append_singleton items item _ =>
    unfold renewed
    rw [List.foldl_append]
    exact limits.isOver_dropOldest _

theorem mem_of_mem_renewed {items : List (Key × Value)}
    (held : item ∈ limits.renewed items) : item ∈ items := by
  induction items using List.reverseRecOn with
  | nil => exact held
  | append_singleton items last ih =>
    unfold renewed at held ih
    rw [List.foldl_append, List.foldl_cons, List.foldl_nil] at held
    have kept := (limits.dropOldest_suffix _).mem held
    rcases List.mem_append.mp kept with earlier | isLast
    · exact List.mem_append_left _
        (ih (List.mem_filter.mp earlier).1)
    · exact List.mem_append_right _ isLast

theorem renewed_suffix_lastStored (items : List (Key × Value)) :
    limits.renewed items <:+ lastStored items := by
  induction items using List.reverseRecOn with
  | nil => exact List.suffix_refl []
  | append_singleton items item ih =>
    unfold renewed lastStored at ih ⊢
    rw [List.foldl_append, List.foldl_append, List.foldl_cons,
      List.foldl_cons, List.foldl_nil, List.foldl_nil]
    refine (limits.dropOldest_suffix _).trans ?_
    obtain ⟨older, whole⟩ := ih
    rw [← whole, atNewEnd_append]
    exact List.suffix_append _ _

theorem exists_of_remove_eq {older newer : Entries Key Value} {key : Key}
    (kept : entries.remove key = older ++ entry :: newer) :
    ∃ front back, entries = front ++ entry :: back ∧ entry.1 ≠ key ∧
      Entries.remove back key = newer := by
  obtain ⟨front, rest, rfl, -, found⟩ := List.filter_eq_append_iff.mp kept
  obtain ⟨skipped, back, rfl, -, other, same⟩ :=
    List.filter_eq_cons_iff.mp found
  exact
    ⟨front ++ skipped, back, (List.append_assoc _ _ _).symm,
      of_decide_eq_true other, same⟩

/-- What a store within the limits takes away. -/
theorem loses_iff (allowed : limits.isOver [item] = false) :
    limits.Loses entries item entry ↔
      (entry ∈ entries ∧ entry.1 = item.1) ∨
        entry ∈ limits.dropped (atNewEnd entries item) := by
  rw [mem_dropped_iff]
  constructor
  · rintro ⟨older, newer, rfl, again | tooMuch⟩
    · exact .inl
        ⟨List.mem_append_right _ List.mem_cons_self, again⟩
    · by_cases again : entry.1 = item.1
      · exact .inl
          ⟨List.mem_append_right _ List.mem_cons_self, again⟩
      · refine .inr ⟨older.remove item.1, atNewEnd newer item, ?_, ?_⟩
        · rw [atNewEnd_append, atNewEnd_cons_of_ne newer again]
        · rw [← atNewEnd_cons_of_ne newer again]
          exact tooMuch
  · rintro (⟨member, again⟩ | ⟨older, newer, whole, tooMuch⟩)
    · obtain ⟨older, newer, rfl⟩ := List.append_of_mem member
      exact ⟨older, newer, rfl, .inl again⟩
    · have notLast : newer ≠ [] := by
        rintro rfl
        have same := List.append_inj_right' whole rfl
        rw [List.singleton_inj.mp same] at allowed
        rw [allowed] at tooMuch
        contradiction
      obtain ⟨between, last, rfl⟩ :=
        (List.eq_nil_or_concat newer).resolve_left notLast
      have whole' :
          entries.remove item.1 ++ [item] =
            (older ++ entry :: between) ++ [last] := by
        rw [List.append_assoc]
        exact whole.trans (by rw [List.concat_eq_append]; rfl)
      obtain ⟨kept, isLast⟩ := List.append_inj' whole' rfl
      obtain ⟨front, back, rfl, other, rfl⟩ := exists_of_remove_eq kept
      refine ⟨front, back, rfl, .inr ?_⟩
      rw [atNewEnd_cons_of_ne back other, atNewEnd, isLast,
        ← List.concat_eq_append]
      exact tooMuch

end AgeLimits

end Library
