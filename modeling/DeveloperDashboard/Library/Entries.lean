import Mathlib.Data.List.Basic

namespace Library

/-!
# Maps as lists of entries

A finite map is the list of its entries, in any order.  The first entry of a
key counts, so no operation needs the keys to be distinct.
-/

abbrev Entries (Key Value : Type) :=
  List (Key × Value)

namespace Entries

variable {Key Value : Type} [DecidableEq Key]

def lookup : Entries Key Value → Key → Option Value
  | [], _ => none
  | (other, value) :: rest, key =>
    if other = key then some value else lookup rest key

/-- Replace the value of a key in place, or add an entry. -/
def store : Entries Key Value → Key → Value → Entries Key Value
  | [], key, value => [(key, value)]
  | (other, previous) :: rest, key, value =>
    if other = key then (other, value) :: rest
    else (other, previous) :: store rest key value

/-- Replace the value of a key by what is made of it, or add one. -/
def upsert (entries : Entries Key Value) (key : Key)
    (update : Option Value → Value) :
    Entries Key Value :=
  entries.store key (update (entries.lookup key))

def remove (entries : Entries Key Value) (key : Key) :
    Entries Key Value :=
  entries.filter fun entry => decide (entry.1 ≠ key)

def overlay (combine : Key → Option Value → Value → Value)
    (left right : Entries Key Value) :
    Entries Key Value :=
  left.map (fun entry =>
      match right.lookup entry.1 with
      | none => entry
      | some value => (entry.1, combine entry.1 (some entry.2) value)) ++
    (right.filter fun entry => (left.lookup entry.1).isNone).map
      fun entry => (entry.1, combine entry.1 none entry.2)

def mapValues (change : Key → Value → Value) (entries : Entries Key Value) :
    Entries Key Value :=
  entries.map fun entry => (entry.1, change entry.1 entry.2)

def assign (value : Key → Option Value) (entries : Entries Key Value)
    (key : Key) :
    Entries Key Value :=
  match value key with
  | some new => entries.store key new
  | none => entries.remove key

def filterMapValues (change : Key → Value → Option Value)
    (entries : Entries Key Value) :
    Entries Key Value :=
  entries.filterMap fun entry =>
    ((entries.lookup entry.1).bind (change entry.1)).map
      (Prod.mk entry.1)

@[simp] theorem lookup_nil (key : Key) :
    lookup ([] : Entries Key Value) key = none :=
  rfl

theorem lookup_cons
    (entry : Key × Value) (rest : Entries Key Value) (key : Key) :
    lookup (entry :: rest) key =
      if entry.1 = key then some entry.2 else lookup rest key :=
  rfl

theorem mem_of_lookup
    {entries : Entries Key Value} {key : Key} {value : Value}
    (found : entries.lookup key = some value) :
    (key, value) ∈ entries := by
  induction entries with
  | nil => simp at found
  | cons entry rest ih =>
    rw [lookup_cons] at found
    split at found
    · next same =>
        obtain rfl : entry.2 = value := by simpa using found
        subst same
        exact List.mem_cons_self
    · exact List.mem_cons_of_mem _ (ih found)

theorem lookup_append (front back : Entries Key Value) (key : Key) :
    lookup (front ++ back) key =
      (front.lookup key).or (back.lookup key) := by
  induction front with
  | nil => rfl
  | cons entry rest ih =>
    rw [List.cons_append, lookup_cons, lookup_cons]
    split
    · rfl
    · exact ih

@[simp] theorem lookup_store_self
    (entries : Entries Key Value) (key : Key) (value : Value) :
    (entries.store key value).lookup key = some value := by
  induction entries with
  | nil => simp [store, lookup]
  | cons entry rest ih =>
    unfold store
    split
    · next same => simp [lookup, same]
    · next different =>
        simp [lookup, different, ih]

theorem lookup_store_of_ne (entries : Entries Key Value)
    {key other : Key} (different : key ≠ other) (value : Value) :
    (entries.store key value).lookup other = entries.lookup other := by
  induction entries with
  | nil => simp [store, lookup, different]
  | cons entry rest ih =>
    unfold store
    split
    · next same => simp [lookup, same, different]
    · simp [lookup, ih]

theorem mem_store {entries : Entries Key Value} {key : Key} {value : Value}
    {entry : Key × Value} (isIn : entry ∈ entries.store key value) :
    entry ∈ entries ∨ entry = (key, value) := by
  induction entries with
  | nil => exact .inr (List.mem_singleton.mp isIn)
  | cons first rest ih =>
    rw [store] at isIn
    split at isIn
    · next same =>
        rcases List.mem_cons.mp isIn with isFirst | later
        · exact .inr (by rw [isFirst, same])
        · exact .inl (List.mem_cons_of_mem _ later)
    · rcases List.mem_cons.mp isIn with isFirst | later
      · exact .inl (by rw [isFirst]; exact List.mem_cons_self)
      · rcases ih later with before | stored
        · exact .inl (List.mem_cons_of_mem _ before)
        · exact .inr stored

theorem store_of_lookup_eq_none {entries : Entries Key Value} {key : Key}
    (absent : entries.lookup key = none) (value : Value) :
    entries.store key value = entries ++ [(key, value)] := by
  induction entries with
  | nil => rfl
  | cons entry rest ih =>
    rw [lookup_cons] at absent
    unfold store
    split at absent
    · contradiction
    · next different =>
        rw [if_neg different, ih absent]
        rfl

theorem lookup_of_mem
    {entries : Entries Key Value} {key : Key} {value : Value}
    (distinct : (entries.map Prod.fst).Nodup)
    (isIn : (key, value) ∈ entries) :
    entries.lookup key = some value := by
  induction entries with
  | nil => contradiction
  | cons entry rest ih =>
    rw [List.map_cons, List.nodup_cons] at distinct
    rw [lookup_cons]
    rcases List.mem_cons.mp isIn with rfl | later
    · rw [if_pos rfl]
    · have different : entry.1 ≠ key := by
        rintro rfl
        exact distinct.1 (List.mem_map.mpr ⟨_, later, rfl⟩)
      rw [if_neg different, ih distinct.2 later]

theorem exists_store_of_lookup
    {entries : Entries Key Value} {key : Key} {value : Value}
    (found : entries.lookup key = some value) :
    ∃ front back,
      entries = front ++ (key, value) :: back ∧
        ∀ new, entries.store key new = front ++ (key, new) :: back := by
  induction entries with
  | nil => contradiction
  | cons entry rest ih =>
    rw [lookup_cons] at found
    by_cases same : entry.1 = key
    · rw [if_pos same, Option.some.injEq] at found
      subst same found
      refine ⟨[], rest, rfl, fun new => ?_⟩
      rw [store, if_pos rfl]
      rfl
    · rw [if_neg same] at found
      obtain ⟨front, back, whole, stored⟩ := ih found
      refine ⟨entry :: front, back, by rw [whole]; rfl, fun new => ?_⟩
      rw [store, if_neg same, stored]
      rfl

theorem map_fst_store
    (entries : Entries Key Value) (key : Key) (value : Value) :
    (entries.store key value).map Prod.fst =
      if key ∈ entries.map Prod.fst then entries.map Prod.fst
      else entries.map Prod.fst ++ [key] := by
  induction entries with
  | nil => rfl
  | cons entry rest ih =>
    unfold store
    by_cases same : entry.1 = key
    · simp [same]
    · have other : key ≠ entry.1 := fun isFirst => same isFirst.symm
      rw [if_neg same, List.map_cons, List.map_cons, ih]
      simp only [List.mem_cons, other, false_or]
      split
      · rfl
      · rfl

theorem nodup_store {entries : Entries Key Value}
    (distinct : (entries.map Prod.fst).Nodup) (key : Key) (value : Value) :
    ((entries.store key value).map Prod.fst).Nodup := by
  rw [map_fst_store]
  split
  · exact distinct
  · next fresh =>
      refine List.nodup_append.mpr
        ⟨distinct, List.pairwise_singleton _ key, ?_⟩
      intro other member last single same
      rw [same, List.mem_singleton.mp single] at member
      exact fresh member

theorem lookup_foldl_upsert {Item : Type} (key : Item → Key)
    (update : Item → Option Value → Value)
    (items : List Item) (entries : Entries Key Value) (wanted : Key) :
    (items.foldl
        (fun entries item => entries.upsert (key item) (update item))
        entries).lookup wanted =
      (items.filter fun item => decide (key item = wanted)).foldl
        (fun found item => some (update item found))
        (entries.lookup wanted) := by
  induction items generalizing entries with
  | nil => rfl
  | cons item rest ih =>
    rw [List.foldl_cons, ih, List.filter_cons]
    by_cases same : key item = wanted
    · subst same
      rw [decide_eq_true rfl, if_pos rfl, List.foldl_cons, upsert,
        lookup_store_self]
    · rw [decide_eq_false same, if_neg Bool.false_ne_true, upsert,
        lookup_store_of_ne _ same]

theorem nodup_foldl_upsert {Item : Type} (key : Item → Key)
    (update : Item → Option Value → Value)
    (items : List Item) {entries : Entries Key Value}
    (distinct : (entries.map Prod.fst).Nodup) :
    ((items.foldl
        (fun entries item => entries.upsert (key item) (update item))
        entries).map Prod.fst).Nodup := by
  induction items generalizing entries with
  | nil => exact distinct
  | cons item rest ih =>
    exact ih (nodup_store distinct _ _)

@[simp] theorem lookup_remove_self
    (entries : Entries Key Value) (key : Key) :
    (entries.remove key).lookup key = none := by
  induction entries with
  | nil => rfl
  | cons entry rest ih =>
    unfold remove at ih ⊢
    by_cases same : entry.1 = key
    · simpa [same] using ih
    · simpa [same, lookup] using ih

theorem lookup_remove_of_ne (entries : Entries Key Value)
    {key other : Key} (different : key ≠ other) :
    (entries.remove key).lookup other = entries.lookup other := by
  induction entries with
  | nil => rfl
  | cons entry rest ih =>
    unfold remove at ih ⊢
    by_cases same : entry.1 = key
    · simpa [same, lookup, different] using ih
    · simpa [same, lookup] using
        congrArg
          (fun found => if entry.1 = other then some entry.2 else found)
          ih

theorem lookup_eq_none_iff (entries : Entries Key Value) (key : Key) :
    entries.lookup key = none ↔ key ∉ entries.map Prod.fst := by
  induction entries with
  | nil => simp
  | cons entry rest ih =>
    rw [lookup_cons, List.map_cons, List.mem_cons]
    by_cases same : entry.1 = key
    · simp [same]
    · rw [if_neg same, ih]
      simp [Ne.symm same]

theorem remove_of_not_mem {entries : Entries Key Value} {key : Key}
    (absent : key ∉ entries.map Prod.fst) :
    entries.remove key = entries := by
  refine List.filter_eq_self.mpr fun entry member => ?_
  refine decide_eq_true fun same => absent ?_
  exact same ▸ List.mem_map_of_mem member

theorem perm_cons_remove
    {entries : Entries Key Value} {key : Key} {value : Value}
    (distinct : (entries.map Prod.fst).Nodup)
    (isIn : (key, value) ∈ entries) :
    entries.Perm ((key, value) :: entries.remove key) := by
  induction entries with
  | nil => contradiction
  | cons entry rest ih =>
    rw [List.map_cons, List.nodup_cons] at distinct
    rcases List.mem_cons.mp isIn with rfl | later
    · have dropped : ¬ decide (key ≠ key) = true := by simp
      rw [remove, List.filter_cons, if_neg dropped]
      exact (List.Perm.of_eq (remove_of_not_mem distinct.1).symm).cons _
    · have different : entry.1 ≠ key := by
        rintro rfl
        exact distinct.1 (List.mem_map.mpr ⟨_, later, rfl⟩)
      rw [remove, List.filter_cons, if_pos (decide_eq_true different)]
      exact ((ih distinct.2 later).cons entry).trans
        (List.Perm.swap _ _ _)

theorem store_perm {entries : Entries Key Value}
    (distinct : (entries.map Prod.fst).Nodup) (key : Key) (value : Value) :
    (entries.store key value).Perm (entries.remove key ++ [(key, value)]) := by
  induction entries with
  | nil => exact List.Perm.refl _
  | cons entry rest ih =>
    rw [List.map_cons, List.nodup_cons] at distinct
    unfold store remove
    by_cases same : entry.1 = key
    · subst same
      have dropped : ¬ decide (entry.1 ≠ entry.1) = true := by simp
      rw [if_pos rfl, List.filter_cons, if_neg dropped]
      refine List.Perm.trans ?_ (List.perm_append_singleton _ _).symm
      exact (List.Perm.of_eq (remove_of_not_mem distinct.1).symm).cons _
    · rw [if_neg same, List.filter_cons, if_pos (decide_eq_true same),
        List.cons_append]
      exact (ih distinct.2).cons entry

theorem lookup_assign (value : Key → Option Value)
    (entries : Entries Key Value) (key other : Key) :
    (entries.assign value key).lookup other =
      if key = other then value other else entries.lookup other := by
  unfold assign
  by_cases same : key = other
  · subst same
    rw [if_pos rfl]
    cases value key <;> simp
  · rw [if_neg same]
    cases value key with
    | none => exact lookup_remove_of_ne entries same
    | some new => exact lookup_store_of_ne entries same new

theorem lookup_foldl_assign (value : Key → Option Value) (keys : List Key)
    (entries : Entries Key Value) (other : Key) :
    (keys.foldl (assign value) entries).lookup other =
      if other ∈ keys then value other else entries.lookup other := by
  induction keys generalizing entries with
  | nil => simp
  | cons key rest ih =>
    rw [List.foldl_cons, ih, lookup_assign]
    by_cases later : other ∈ rest
    · simp [later]
    · by_cases same : key = other
      · simp [same]
      · simp [later, same, Ne.symm same]

theorem lookup_filterMapValues (change : Key → Value → Option Value)
    (entries : Entries Key Value) (key : Key) :
    (entries.filterMapValues change).lookup key =
      (entries.lookup key).bind (change key) := by
  have ofKeys (value : Key → Option Value) (list : Entries Key Value) :
      lookup
          (list.filterMap fun entry =>
            (value entry.1).map (Prod.mk entry.1)) key =
        if key ∈ list.map Prod.fst then value key else none := by
    induction list with
    | nil => simp
    | cons entry rest ih =>
      simp only [List.filterMap_cons, List.map_cons, List.mem_cons]
      by_cases same : entry.1 = key
      · subst same
        cases kept : value entry.1 with
        | none =>
          rw [Option.map_none, ih, kept]
          simp
        | some new => simp [lookup]
      · have different : key ≠ entry.1 := fun equal => same equal.symm
        by_cases later : key ∈ rest.map Prod.fst
        · rw [if_pos later] at ih
          rw [if_pos (.inr later)]
          cases value entry.1 <;> simp [lookup, same, ih]
        · rw [if_neg later] at ih
          rw [if_neg (not_or.mpr ⟨different, later⟩)]
          cases value entry.1 <;> simp [lookup, same, ih]
  unfold filterMapValues
  rw [ofKeys fun name => (entries.lookup name).bind (change name)]
  split
  · rfl
  · next absent =>
      rw [(lookup_eq_none_iff entries key).mpr absent]
      rfl

theorem lookup_mapValues (change : Key → Value → Value)
    (entries : Entries Key Value) (key : Key) :
    (entries.mapValues change).lookup key =
      (entries.lookup key).map (change key) := by
  induction entries with
  | nil => rfl
  | cons entry rest ih =>
    unfold mapValues at ih ⊢
    rw [List.map_cons, lookup_cons, lookup_cons]
    split
    · next same => simp [← same]
    · exact ih

theorem lookup_filter_key (passes : Key → Bool) (entries : Entries Key Value)
    (key : Key) :
    lookup (entries.filter fun entry => passes entry.1) key =
      if passes key then entries.lookup key else none := by
  induction entries with
  | nil => simp
  | cons entry rest ih =>
    rw [List.filter_cons, lookup_cons]
    by_cases same : entry.1 = key
    · subst same
      by_cases pass : passes entry.1
      · simp [pass, lookup]
      · simpa [pass] using ih
    · rw [if_neg same]
      split
      · rw [lookup_cons, if_neg same, ih]
      · exact ih

theorem lookup_overlay (combine : Key → Option Value → Value → Value)
    (left right : Entries Key Value) (key : Key) :
    (overlay combine left right).lookup key =
      ((right.lookup key).map (combine key (left.lookup key))).or
        (left.lookup key) := by
  have onLeft :
      lookup (left.map fun entry =>
        match right.lookup entry.1 with
        | none => entry
        | some value => (entry.1, combine entry.1 (some entry.2) value)) key =
      (left.lookup key).map fun previous =>
        match right.lookup key with
        | none => previous
        | some value => combine key (some previous) value := by
    induction left with
    | nil => rfl
    | cons entry rest ih =>
      rw [List.map_cons, lookup_cons, lookup_cons]
      by_cases same : entry.1 = key
      · subst same
        cases right.lookup entry.1 <;> simp
      · rw [if_neg same, ← ih, if_neg]
        cases right.lookup entry.1 <;> exact same
  have onRight :
      lookup ((right.filter fun entry =>
          (left.lookup entry.1).isNone).map
        fun entry => (entry.1, combine entry.1 none entry.2)) key =
      if (left.lookup key).isNone
      then (right.lookup key).map (combine key none)
      else none := by
    refine (lookup_mapValues
      (fun name value => combine name none value) _ key).trans ?_
    rw [lookup_filter_key fun name => (left.lookup name).isNone]
    split <;> rfl
  rw [overlay, lookup_append, onLeft, onRight]
  cases left.lookup key <;> cases right.lookup key <;> rfl

theorem mem_overlay {combine : Key → Option Value → Value → Value}
    {left right : Entries Key Value} {entry : Key × Value}
    (isIn : entry ∈ overlay combine left right) :
    entry ∈ left ∨
      ∃ previous value,
        (∀ old, previous = some old → (entry.1, old) ∈ left) ∧
          (entry.1, value) ∈ right ∧
            entry = (entry.1, combine entry.1 previous value) := by
  unfold overlay at isIn
  rcases List.mem_append.mp isIn with onLeft | onRight
  · obtain ⟨⟨key, old⟩, oldIn, rfl⟩ := List.mem_map.mp onLeft
    dsimp only
    cases found : right.lookup key with
    | none => exact .inl oldIn
    | some value =>
      refine .inr ⟨some old, value, ?_, mem_of_lookup found, rfl⟩
      rintro other ⟨⟩
      exact oldIn
  · obtain ⟨⟨key, value⟩, valueIn, rfl⟩ := List.mem_map.mp onRight
    refine .inr ⟨none, value, ?_, (List.mem_filter.mp valueIn).1, rfl⟩
    rintro old ⟨⟩

theorem overlay_congr {combine other : Key → Option Value → Value → Value}
    {left right : Entries Key Value}
    (same : ∀ key previous value,
      (∀ old, previous = some old → (key, old) ∈ left) →
        (key, value) ∈ right →
          combine key previous value = other key previous value) :
    overlay combine left right = overlay other left right := by
  unfold overlay
  congr 1
  · apply List.map_congr_left
    rintro ⟨key, old⟩ oldIn
    dsimp only
    cases found : right.lookup key with
    | none => rfl
    | some value =>
      dsimp only
      rw [same key (some old) value _ (mem_of_lookup found)]
      rintro previous ⟨⟩
      exact oldIn
  · apply List.map_congr_left
    rintro ⟨key, value⟩ valueIn
    dsimp only
    rw [same key none value _ (List.mem_filter.mp valueIn).1]
    rintro previous ⟨⟩

omit [DecidableEq Key] in
theorem mapValues_congr {change other : Key → Value → Value}
    {entries : Entries Key Value}
    (same : ∀ entry ∈ entries,
      change entry.1 entry.2 = other entry.1 entry.2) :
    entries.mapValues change = entries.mapValues other := by
  apply List.map_congr_left
  intro entry isIn
  rw [same entry isIn]

end Entries

end Library
