import DeveloperDashboard.Library.Entries

namespace Library.Nested

/-!
# Maps of maps

A map under two keys, kept as a map of maps without empty inner maps, is the
flat map under the pairs of keys, in some order.
-/

variable {Outer Inner Value : Type}

/-- The entries of one inner map, under both keys. -/
def block (outer : Outer) (inner : Entries Inner Value) :
    Entries (Outer × Inner) Value :=
  inner.map fun entry => ((outer, entry.1), entry.2)

/-- All entries, in the order of two nested loops over the keys. -/
def flattened (nested : Entries Outer (Entries Inner Value)) :
    Entries (Outer × Inner) Value :=
  nested.flatMap fun entry => block entry.1 entry.2

variable [DecidableEq Outer]

variable {nested : Entries Outer (Entries Inner Value)}


theorem flattened_perm (distinct : (nested.map Prod.fst).Nodup)
    (outer : Outer) :
    (flattened nested).Perm
      (block outer ((nested.lookup outer).getD []) ++
        flattened (nested.remove outer)) := by
  cases found : nested.lookup outer with
  | none =>
    rw [Entries.remove_of_not_mem
      ((Entries.lookup_eq_none_iff _ _).mp found)]
    exact List.Perm.refl _
  | some inner =>
    exact (Entries.perm_cons_remove distinct
      (Entries.mem_of_lookup found)).flatMap_right _

theorem flattened_store_perm (distinct : (nested.map Prod.fst).Nodup)
    (outer : Outer) (inner : Entries Inner Value) :
    (flattened (nested.store outer inner)).Perm
      (block outer inner ++ flattened (nested.remove outer)) := by
  refine ((Entries.store_perm distinct outer inner).flatMap_right _).trans ?_
  rw [List.flatMap_append, List.flatMap_singleton]
  exact List.perm_append_comm

theorem not_mem_flattened_remove (key : Outer × Inner) :
    key ∉ (flattened (nested.remove key.1)).map Prod.fst := by
  intro member
  obtain ⟨entry, inside, same⟩ := List.mem_map.mp member
  obtain ⟨group, kept, inBlock⟩ := List.mem_flatMap.mp inside
  obtain ⟨item, -, rfl⟩ := List.mem_map.mp inBlock
  have other := of_decide_eq_true (List.mem_filter.mp kept).2
  exact other (congrArg Prod.fst same)

theorem nodup_inner (distinct : (nested.map Prod.fst).Nodup)
    (distinctAll : ((flattened nested).map Prod.fst).Nodup) (outer : Outer) :
    (((nested.lookup outer).getD []).map Prod.fst).Nodup := by
  have perm := (flattened_perm distinct outer).map Prod.fst
  rw [List.map_append] at perm
  have inBlock := (List.nodup_append.mp (perm.nodup_iff.mp distinctAll)).1
  unfold block at inBlock
  rw [List.map_map] at inBlock
  have pairs :
      ((((nested.lookup outer).getD []).map Prod.fst).map
        fun key => (outer, key)).Nodup := by
    rwa [List.map_map]
  exact List.Pairwise.of_map _ (fun _ _ other same => other (same ▸ rfl)) pairs

variable [DecidableEq Inner]

def lookupIn (nested : Entries Outer (Entries Inner Value))
    (key : Outer × Inner) : Option Value :=
  (nested.lookup key.1).bind fun inner => inner.lookup key.2

/-- Store a value, in a new inner map if there is none. -/
def storeIn (nested : Entries Outer (Entries Inner Value))
    (key : Outer × Inner) (value : Value) :
    Entries Outer (Entries Inner Value) :=
  nested.upsert key.1 fun inner => (inner.getD []).store key.2 value

/-- Delete a value, and its inner map if nothing is left in it. -/
def removeIn (nested : Entries Outer (Entries Inner Value))
    (key : Outer × Inner) : Entries Outer (Entries Inner Value) :=
  let inner := ((nested.lookup key.1).getD []).remove key.2
  if inner.isEmpty then nested.remove key.1
  else nested.store key.1 inner

section

variable (distinct : (nested.map Prod.fst).Nodup)

include distinct

theorem remove_flattened_perm
    (key : Outer × Inner) :
    ((flattened nested).remove key).Perm
      (block key.1 (((nested.lookup key.1).getD []).remove key.2) ++
        flattened (nested.remove key.1)) := by
  have split := (flattened_perm distinct key.1).filter fun entry =>
    decide (entry.1 ≠ key)
  rw [List.filter_append] at split
  have others :=
    Entries.remove_of_not_mem (@not_mem_flattened_remove _ _ _ _ nested key)
  have inside :
      Entries.remove (block key.1 ((nested.lookup key.1).getD [])) key =
        block key.1 (((nested.lookup key.1).getD []).remove key.2) := by
    unfold Entries.remove block
    rw [List.filter_map]
    congr 2
    funext entry
    simp [Prod.ext_iff]
  unfold Entries.remove at others inside split ⊢
  rwa [others, inside] at split

theorem flattened_removeIn
    (key : Outer × Inner) :
    (flattened (removeIn nested key)).Perm
      ((flattened nested).remove key) := by
  refine List.Perm.trans ?_ (remove_flattened_perm distinct key).symm
  unfold removeIn
  dsimp only
  split
  · next isEmpty =>
      rw [List.isEmpty_iff.mp isEmpty]
      exact List.Perm.refl _
  · exact flattened_store_perm distinct key.1 _

theorem flattened_storeIn
    (distinctAll : ((flattened nested).map Prod.fst).Nodup)
    (key : Outer × Inner) (value : Value) :
    (flattened (storeIn nested key value)).Perm
      ((flattened nested).remove key ++ [(key, value)]) := by
  have stored :=
    Entries.store_perm (nodup_inner distinct distinctAll key.1)
      key.2 value
  refine (flattened_store_perm distinct key.1 _).trans ?_
  refine ((stored.map _).append_right _).trans ?_
  rw [List.map_append, List.append_assoc]
  refine (List.Perm.append_left _ List.perm_append_comm).trans ?_
  rw [← List.append_assoc]
  exact (remove_flattened_perm distinct key).symm.append_right _

/-- Both keys together find what they find one after the other. -/
theorem lookupIn_eq
    (distinctAll : ((flattened nested).map Prod.fst).Nodup)
    (key : Outer × Inner) :
    lookupIn nested key = (flattened nested).lookup key := by
  have perm := flattened_perm distinct key.1
  unfold lookupIn
  cases found : nested.lookup key.1 with
  | none =>
    rw [found] at perm
    refine ((Entries.lookup_eq_none_iff _ _).mpr fun member => ?_).symm
    exact not_mem_flattened_remove key
      (((perm.map Prod.fst).mem_iff).mp member)
  | some inner =>
    rw [found] at perm
    cases value : inner.lookup key.2 with
    | some value =>
      refine value.trans (Entries.lookup_of_mem distinctAll ?_).symm
      refine perm.mem_iff.mpr (List.mem_append_left _ ?_)
      exact List.mem_map.mpr ⟨_, Entries.mem_of_lookup value, rfl⟩
    | none =>
      refine value.trans
        ((Entries.lookup_eq_none_iff _ _).mpr fun member => ?_).symm
      have inPerm := ((perm.map Prod.fst).mem_iff).mp member
      rw [List.map_append, List.mem_append] at inPerm
      rcases inPerm with inBlock | elsewhere
      · obtain ⟨entry, inside, same⟩ := List.mem_map.mp inBlock
        obtain ⟨item, isIn, rfl⟩ := List.mem_map.mp inside
        refine (Entries.lookup_eq_none_iff _ _).mp value ?_
        exact congrArg Prod.snd same ▸ List.mem_map_of_mem isIn
      · exact not_mem_flattened_remove key elsewhere

theorem nodup_storeIn
    (key : Outer × Inner) (value : Value) :
    ((storeIn nested key value).map Prod.fst).Nodup :=
  Entries.nodup_store distinct _ _

theorem nodup_removeIn (key : Outer × Inner) :
    ((removeIn nested key).map Prod.fst).Nodup := by
  unfold removeIn
  dsimp only
  split
  · exact distinct.sublist (List.filter_sublist.map _)
  · exact Entries.nodup_store distinct _ _

end

end Library.Nested
