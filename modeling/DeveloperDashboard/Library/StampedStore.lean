import Mathlib.Data.List.Sort
import DeveloperDashboard.Library.AgedStore

namespace Library

/-!
# Stores with stamps of the last use

Every entry carries the reading of a clock at its last use, and room for a new
entry is made by dropping the entry with the smallest stamp.  Sorted by their
stamps, the entries are those of a bounded store of the newest entries.
-/

variable {Key Value : Type}

structure Stamped (Value : Type) where
  value : Value
  used : Nat
  deriving DecidableEq

structure StampedStore (Key Value : Type) where
  entries : Entries Key (Stamped Value)
  clock : Nat

namespace StampedStore

def empty : StampedStore Key Value where
  entries := []
  clock := 0

/-- The key that comes first when the entries are sorted by their stamps. -/
def oldest? (entries : Entries Key (Stamped Value)) : Option Key :=
  let sorted :=
    entries.insertionSort fun left right => left.2.used ≤ right.2.used
  sorted.head?.map Prod.fst

variable [DecidableEq Key]

def evictWhileFull (count : Nat) :
    Nat → Entries Key (Stamped Value) → Entries Key (Stamped Value)
  | 0, entries => entries
  | turns + 1, entries =>
    if count ≤ entries.length then
      match oldest? entries with
      | some key => evictWhileFull count turns (entries.remove key)
      | none => entries
    else entries

def touch (store : StampedStore Key Value) (key : Key) (value : Value) :
    StampedStore Key Value where
  entries :=
    store.entries.store key { value, used := store.clock + 1 }
  clock := store.clock + 1

def add (count : Nat) (store : StampedStore Key Value)
    (key : Key) (value : Value) : StampedStore Key Value :=
  { store with
    entries :=
      evictWhileFull count store.entries.length store.entries }.touch
    key value

def unstamped (entry : Key × Stamped Value) : Key × Value :=
  (entry.1, entry.2.value)

def Mirrors
    (store : StampedStore Key Value) (items : Entries Key Value) : Prop :=
  ∃ ordered : Entries Key (Stamped Value),
    store.entries.Perm ordered ∧
      ordered.Pairwise (fun left right => left.2.used < right.2.used) ∧
      (∀ entry ∈ ordered, entry.2.used ≤ store.clock) ∧
      (ordered.map Prod.fst).Nodup ∧
      ordered.map unstamped = items

end StampedStore

/-- A bound on the number of entries alone. -/
def AgeLimits.ofCount (count : Nat) : AgeLimits Value where
  count := count
  total := 0
  size _ := 0

variable {count : Nat}

theorem AgeLimits.isOver_ofCount_iff {entries : Entries Key Value} :
    (ofCount count).isOver entries = true ↔ count < entries.length := by
  have noSize : (ofCount count).totalSize entries = 0 := by
    unfold totalSize ofCount
    simp
  unfold isOver
  rw [noSize, Bool.or_eq_true, decide_eq_true_iff, decide_eq_true_iff]
  exact or_iff_left (Nat.not_lt_zero _)

theorem AgeLimits.dropOldest_of_length_le {entries : Entries Key Value}
    (within : entries.length ≤ count) :
    (ofCount count).dropOldest entries = entries := by
  cases entries with
  | nil => rfl
  | cons entry rest =>
    unfold dropOldest
    refine if_neg fun tooMany => ?_
    have more := isOver_ofCount_iff.mp tooMany
    omega

theorem AgeLimits.length_renewed_le
    [DecidableEq Key] (items : List (Key × Value)) :
    ((ofCount count).renewed items).length ≤ count := by
  have within := (ofCount count).isOver_renewed items
  refine Nat.le_of_not_lt fun tooMany => ?_
  rw [isOver_ofCount_iff.mpr tooMany] at within
  cases within

variable {store : StampedStore Key Value} {items : Entries Key Value}
  {key : Key}

namespace StampedStore

theorem oldest?_of_perm {entries rest : Entries Key (Stamped Value)}
    {first : Key × Stamped Value} (same : entries.Perm (first :: rest))
    (ascending : (first :: rest).Pairwise
      fun left right => left.2.used < right.2.used) :
    oldest? entries = some first.1 := by
  have perm :=
    (entries.perm_insertionSort
      fun left right => left.2.used ≤ right.2.used).trans same
  have sorted :=
    entries.pairwise_insertionSort
      fun left right => left.2.used ≤ right.2.used
  unfold oldest?
  simp only
  generalize
    (entries.insertionSort
      fun left right => left.2.used ≤ right.2.used) = ordered
    at perm sorted ⊢
  cases ordered with
  | nil => exact absurd perm.length_eq (Nat.succ_ne_zero _).symm
  | cons smallest others =>
    have isFirst : smallest = first := by
      rcases List.mem_cons.mp (perm.mem_iff.mp List.mem_cons_self) with
        isFirst | inRest
      · exact isFirst
      · have later := (List.pairwise_cons.mp ascending).1 _ inRest
        rcases List.mem_cons.mp
          (perm.mem_iff.mpr List.mem_cons_self) with same | inOthers
        · exact same.symm
        · have notLater := (List.pairwise_cons.mp sorted).1 _ inOthers
          omega
    rw [isFirst]
    rfl

theorem mirrors_empty :
    (empty : StampedStore Key Value).Mirrors [] :=
  ⟨[], List.Perm.refl _, List.Pairwise.nil,
    fun _ member => absurd member List.not_mem_nil, List.nodup_nil, rfl⟩

theorem map_fst_unstamped (entries : Entries Key (Stamped Value)) :
    (entries.map unstamped).map Prod.fst = entries.map Prod.fst := by
  rw [List.map_map]
  rfl

theorem Mirrors.mem
    (mirrors : store.Mirrors items) {entry : Key × Stamped Value}
    (member : entry ∈ store.entries) : unstamped entry ∈ items := by
  obtain ⟨ordered, same, -, -, -, rfl⟩ := mirrors
  exact List.mem_map_of_mem (same.mem_iff.mp member)

variable [DecidableEq Key]

theorem remove_map_unstamped
    (entries : Entries Key (Stamped Value)) (key : Key) :
    Entries.remove (entries.map unstamped) key =
      (entries.remove key).map unstamped :=
  List.filter_map

theorem remove_cons_self
    {first : Key × Stamped Value} {rest : Entries Key (Stamped Value)}
    (distinct : ((first :: rest).map Prod.fst).Nodup) :
    Entries.remove (first :: rest) first.1 = rest := by
  rw [List.map_cons, List.nodup_cons] at distinct
  have dropped : ¬ decide (first.1 ≠ first.1) = true := by simp
  rw [Entries.remove, List.filter_cons, if_neg dropped]
  exact Entries.remove_of_not_mem distinct.1

/-- Making room drops the oldest entries, as for a new one. -/
theorem evictWhileFull_of_perm (positive : 0 < count) (item : Key × Value)
    {turns : Nat} {entries ordered : Entries Key (Stamped Value)}
    (same : entries.Perm ordered)
    (ascending : ordered.Pairwise
      fun left right => left.2.used < right.2.used)
    (distinct : (ordered.map Prod.fst).Nodup)
    (enough : ordered.length ≤ turns) :
    ∃ kept, kept <:+ ordered ∧
      (evictWhileFull count turns entries).Perm kept ∧
      (AgeLimits.ofCount count).dropOldest
          (ordered.map unstamped ++ [item]) =
        kept.map unstamped ++ [item] := by
  induction turns generalizing entries ordered with
  | zero =>
    obtain rfl := List.length_eq_zero_iff.mp (Nat.le_zero.mp enough)
    exact ⟨[], List.suffix_refl _, same,
      AgeLimits.dropOldest_of_length_le positive⟩
  | succ turns ih =>
    unfold evictWhileFull
    by_cases isFull : count ≤ entries.length
    · rw [if_pos isFull]
      cases ordered with
      | nil =>
        rw [same.length_eq] at isFull
        exact absurd isFull (Nat.not_le_of_lt positive)
      | cons first rest =>
        rw [oldest?_of_perm same ascending]
        have removed : (Entries.remove entries first.1).Perm rest := by
          have filtered :=
            same.filter fun entry => decide (entry.1 ≠ first.1)
          have left := remove_cons_self distinct
          unfold Entries.remove at left ⊢
          rw [left] at filtered
          exact filtered
        obtain ⟨kept, isSuffix, perm, dropped⟩ :=
          ih removed (List.pairwise_cons.mp ascending).2
            (List.nodup_cons.mp distinct).2 (Nat.le_of_succ_le_succ enough)
        refine ⟨kept, isSuffix.trans (List.suffix_cons _ _), perm, ?_⟩
        rw [List.map_cons, List.cons_append]
        unfold AgeLimits.dropOldest
        rw [if_pos, dropped]
        refine AgeLimits.isOver_ofCount_iff.mpr ?_
        have length := same.length_eq
        simp only [List.length_cons, List.length_append,
          List.length_map, List.length_nil] at length ⊢
        omega
    · rw [if_neg isFull]
      refine ⟨ordered, List.suffix_refl _, same, ?_⟩
      refine AgeLimits.dropOldest_of_length_le ?_
      have length := same.length_eq
      simp only [List.length_append, List.length_map, List.length_singleton]
      omega

section

variable (mirrors : store.Mirrors items)

include mirrors

theorem Mirrors.touch (key : Key) (value : Value) :
    (store.touch key value).Mirrors
      (AgeLimits.atNewEnd items (key, value)) := by
  obtain ⟨ordered, same, ascending, past, distinct, rfl⟩ := mirrors
  let entry : Key × Stamped Value :=
    (key, { value, used := store.clock + 1 })
  have removedPast :
      ∀ other ∈ Entries.remove ordered key,
        other.2.used ≤ store.clock := by
    intro other member
    exact past other (List.mem_filter.mp member).1
  refine ⟨AgeLimits.atNewEnd ordered entry, ?_, ?_, ?_, ?_, ?_⟩
  · have distinctEntries : (store.entries.map Prod.fst).Nodup :=
      (same.map _).nodup_iff.mpr distinct
    refine (Entries.store_perm distinctEntries key entry.2).trans ?_
    exact (same.filter _).append_right _
  · refine List.pairwise_append.mpr
      ⟨ascending.filter _, List.pairwise_singleton _ _, ?_⟩
    intro other member last isLast
    rw [List.mem_singleton.mp isLast]
    exact Nat.lt_succ_of_le (removedPast other member)
  · intro other member
    rcases List.mem_append.mp member with removed | isLast
    · exact Nat.le_succ_of_le (removedPast other removed)
    · rw [List.mem_singleton.mp isLast]
      exact Nat.le_refl _
  · exact AgeLimits.nodup_atNewEnd entry distinct
  · unfold AgeLimits.atNewEnd
    rw [List.map_append, remove_map_unstamped]
    rfl

theorem Mirrors.touch_renew
    (within : items.length ≤ count) (value : Value)
    (held : key ∈ items.map Prod.fst) :
    (store.touch key value).Mirrors
      ((AgeLimits.ofCount count).renew items (key, value)) := by
  have fewer : (Entries.remove items key).length < items.length := by
    obtain ⟨item, member, rfl⟩ := List.mem_map.mp held
    refine List.length_filter_lt_length_iff_exists.mpr
      ⟨item, member, ?_⟩
    simp
  unfold AgeLimits.renew
  rw [AgeLimits.dropOldest_of_length_le]
  · exact mirrors.touch key value
  · unfold AgeLimits.atNewEnd
    rw [List.length_append, List.length_singleton]
    exact Nat.le_trans (Nat.succ_le_of_lt fewer) within

/-- Adding an item drops the oldest ones. -/
theorem Mirrors.add
    (positive : 0 < count) (value : Value)
    (absent : key ∉ items.map Prod.fst) :
    (store.add count key value).Mirrors
      ((AgeLimits.ofCount count).renew items (key, value)) := by
  obtain ⟨ordered, same, ascending, past, distinct, rfl⟩ := mirrors
  have enough : ordered.length ≤ store.entries.length :=
    Nat.le_of_eq same.length_eq.symm
  obtain ⟨kept, isSuffix, perm, dropped⟩ :=
    evictWhileFull_of_perm positive (key, value) same ascending distinct
      enough
  have keptMirrors :
      Mirrors
        { store with
          entries :=
            evictWhileFull count store.entries.length store.entries }
        (kept.map unstamped) :=
    ⟨kept, perm, ascending.sublist isSuffix.sublist,
      fun entry member => past entry (isSuffix.mem member),
      distinct.sublist (isSuffix.sublist.map _), rfl⟩
  have absentKept : key ∉ (kept.map unstamped).map Prod.fst := by
    intro member
    rw [map_fst_unstamped] at absent member
    exact absent ((isSuffix.sublist.map _).subset member)
  have added := keptMirrors.touch key value
  unfold AgeLimits.renew
  unfold AgeLimits.atNewEnd at added ⊢
  rw [Entries.remove_of_not_mem absentKept] at added
  rw [Entries.remove_of_not_mem absent, dropped]
  exact added

theorem Mirrors.mem_of_lookup {entry : Stamped Value}
    (found : store.entries.lookup key = some entry) :
    (key, entry.value) ∈ items :=
  mirrors.mem (Entries.mem_of_lookup found)

theorem Mirrors.not_mem_of_lookup
    (missing : store.entries.lookup key = none) :
    key ∉ items.map Prod.fst := by
  obtain ⟨ordered, same, -, -, -, rfl⟩ := mirrors
  rw [map_fst_unstamped, ← (same.map Prod.fst).mem_iff]
  exact (Entries.lookup_eq_none_iff _ _).mp missing

theorem Mirrors.length_eq :
    store.entries.length = items.length := by
  obtain ⟨ordered, same, -, -, -, rfl⟩ := mirrors
  rw [same.length_eq, List.length_map]

end

end StampedStore

end Library
