import Mathlib.Data.List.Basic

namespace Library

/-!
# What is found first

Searches that take the first result of a list from the front or from the back,
and of the numbers below a bound upwards or downwards.
-/

namespace FirstFound

variable {Item Result : Type}

def IsLastOf (items : List Item) (find : Item → Option Result)
    (item : Item) (result : Result) : Prop :=
  ∃ before after,
    items = before ++ item :: after ∧ find item = some result ∧
      ∀ other ∈ after, find other = none

theorem findSome?_reverse_eq_some_iff
    {items : List Item} {find : Item → Option Result} {result : Result} :
    items.reverse.findSome? find = some result ↔
      ∃ item, IsLastOf items find item result := by
  rw [List.findSome?_eq_some_iff]
  constructor
  · rintro ⟨after, item, before, whole, found, none⟩
    refine ⟨item, before.reverse, after.reverse, ?_, found, ?_⟩
    · rw [← List.reverse_inj, whole]
      simp
    · exact fun other isIn => none other (List.mem_reverse.mp isIn)
  · rintro ⟨item, before, after, rfl, found, none⟩
    refine ⟨after.reverse, item, before.reverse, by simp, found, ?_⟩
    exact fun other isIn => none other (List.mem_reverse.mp isIn)

theorem IsLastOf.mem {items : List Item} {find : Item → Option Result}
    {item : Item} {result : Result}
    (last : IsLastOf items find item result) :
    item ∈ items := by
  obtain ⟨before, after, rfl, -, -⟩ := last
  exact List.mem_append_right _ List.mem_cons_self

theorem findSome?_range_eq_some_iff
    {bound : Nat} {find : Nat → Option Result} {result : Result} :
    (List.range bound).findSome? find = some result ↔
      ∃ least < bound, find least = some result ∧
        ∀ smaller < least, find smaller = none := by
  induction bound with
  | zero => simp
  | succ bound ih =>
    rw [List.range_succ, List.findSome?_append, Option.or_eq_some_iff, ih]
    constructor
    · rintro (⟨least, small, found, none⟩ | ⟨nothing, last⟩)
      · exact ⟨least, Nat.lt_succ_of_lt small, found, none⟩
      · rw [List.findSome?_singleton] at last
        rw [List.findSome?_eq_none_iff] at nothing
        exact ⟨bound, Nat.lt_succ_self bound, last, fun smaller small =>
          nothing smaller (List.mem_range.mpr small)⟩
    · rintro ⟨least, small, found, none⟩
      rcases Nat.lt_succ_iff_lt_or_eq.mp small with below | rfl
      · exact Or.inl ⟨least, below, found, none⟩
      · refine Or.inr ⟨?_, ?_⟩
        · rw [List.findSome?_eq_none_iff]
          exact fun smaller isIn => none smaller (List.mem_range.mp isIn)
        · rw [List.findSome?_singleton]
          exact found

theorem findSome?_reverse_range_eq_some_iff
    {bound : Nat} {find : Nat → Option Result} {result : Result} :
    (List.range bound).reverse.findSome? find = some result ↔
      ∃ greatest < bound, find greatest = some result ∧
        ∀ larger, greatest < larger → larger < bound →
          find larger = none := by
  induction bound with
  | zero => simp
  | succ bound ih =>
    rw [List.range_succ, List.reverse_append, List.reverse_singleton,
      List.singleton_append, List.findSome?_cons]
    cases here : find bound with
    | some last =>
      dsimp only
      constructor
      · rintro ⟨⟩
        exact ⟨bound, Nat.lt_succ_self bound, here, fun larger more few =>
          absurd few (by omega)⟩
      · rintro ⟨greatest, small, found, none⟩
        rcases Nat.lt_succ_iff_lt_or_eq.mp small with below | rfl
        · rw [none bound below (Nat.lt_succ_self bound)] at here
          contradiction
        · exact here.symm.trans found
    | none =>
      dsimp only
      rw [ih]
      constructor
      · rintro ⟨greatest, small, found, none⟩
        refine ⟨greatest, Nat.lt_succ_of_lt small, found, ?_⟩
        intro larger more few
        rcases Nat.lt_succ_iff_lt_or_eq.mp few with below | rfl
        · exact none larger more below
        · exact here
      · rintro ⟨greatest, small, found, none⟩
        rcases Nat.lt_succ_iff_lt_or_eq.mp small with below | rfl
        · exact ⟨greatest, below, found, fun larger more few =>
            none larger more (Nat.lt_succ_of_lt few)⟩
        · rw [here] at found
          contradiction

end FirstFound

/-!
# Longest prefixes

A list is searched for its longest prefix under which something is found.
-/

namespace LongestPrefix

variable {Item Value : Type} (found : List Item → Option Value)

/--
What is found under the longest prefix of the second list, behind the first
one, with what stands behind that prefix.
-/
def search : List Item → List Item → Option (Value × List Item)
  | _, [] => none
  | done, item :: rest =>
    (search (done ++ [item]) rest).or
      ((found (done ++ [item])).map fun value => (value, rest))

variable {found}

theorem search_eq_none_iff {done items : List Item} :
    search found done items = none ↔
      ∀ front rest, items = front ++ rest → front ≠ [] →
        found (done ++ front) = none := by
  induction items generalizing done with
  | nil =>
    refine ⟨?_, fun _ => rfl⟩
    intro _ front rest same nonempty
    exact absurd (List.append_eq_nil_iff.mp same.symm).1 nonempty
  | cons item tail ih =>
    rw [search, Option.or_eq_none_iff, Option.map_eq_none_iff, ih]
    constructor
    · rintro ⟨later, here⟩ front rest same nonempty
      cases front with
      | nil => contradiction
      | cons first front =>
      obtain ⟨rfl, rfl⟩ := List.cons.inj same
      by_cases short : front = []
      · rw [short]
        exact here
      · have foundLater := later front rest rfl short
        rwa [List.append_assoc] at foundLater
    · intro none
      refine ⟨?_, none [item] tail rfl (List.cons_ne_nil _ _)⟩
      intro front rest same nonempty
      rw [List.append_assoc]
      exact none (item :: front) rest (congrArg _ same)
        (List.cons_ne_nil _ _)

/-- What is found stands under a prefix, and under no longer one. -/
theorem search_eq_some_iff {done items tail : List Item} {value : Value} :
    search found done items = some (value, tail) ↔
      ∃ front, items = front ++ tail ∧ front ≠ [] ∧
        found (done ++ front) = some value ∧
        ∀ more rest, tail = more ++ rest → more ≠ [] →
          found (done ++ front ++ more) = none := by
  induction items generalizing done with
  | nil =>
    constructor
    · intro absent
      cases absent
    · rintro ⟨front, same, nonempty, -⟩
      exact absurd (List.append_eq_nil_iff.mp same.symm).1 nonempty
  | cons item items ih =>
    rw [search, Option.or_eq_some_iff, ih, search_eq_none_iff]
    constructor
    · rintro (⟨front, rfl, nonempty, finds, none⟩ | ⟨none, here⟩)
      · refine ⟨item :: front, rfl, List.cons_ne_nil _ _, ?_, ?_⟩
        · rwa [List.append_assoc] at finds
        · intro more rest same isMore
          have := none more rest same isMore
          rwa [List.append_assoc done] at this
      · obtain ⟨_, finds, same⟩ := Option.map_eq_some_iff.mp here
        obtain ⟨rfl, rfl⟩ := Prod.mk.inj same
        exact ⟨[item], rfl, List.cons_ne_nil _ _, finds, none⟩
    · rintro ⟨front, same, nonempty, finds, none⟩
      cases front with
      | nil => contradiction
      | cons first front =>
      obtain ⟨rfl, rfl⟩ := List.cons.inj same
      by_cases short : front = []
      · subst short
        exact Or.inr ⟨none, by rw [finds]; rfl⟩
      · refine Or.inl ⟨front, rfl, short, ?_, ?_⟩
        · rw [List.append_assoc]
          exact finds
        · intro more rest same isMore
          have := none more rest same isMore
          rwa [List.append_assoc done]

end LongestPrefix

end Library
