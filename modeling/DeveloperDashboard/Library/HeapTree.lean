import Mathlib.Data.List.Basic

namespace Library

/-!
# Structures built in a heap

A tree of arrays and hashes is built in a heap of containers, each of them
fresh.  What is built reads as the tree, and it shares no container with
anything that was in the heap before, as long as the heap has no reference to a
container that does not exist.
-/

inductive Tree (Leaf Key : Type) where
  | leaf (value : Leaf)
  | array (items : List (Tree Leaf Key))
  | hash (entries : List (Key × Tree Leaf Key))

inductive HeapValue (Leaf : Type) where
  | leaf (value : Leaf)
  | ref (id : Nat)

inductive Container (Leaf Key : Type) where
  | array (items : List (HeapValue Leaf))
  | hash (entries : List (Key × HeapValue Leaf))

variable {Leaf Key : Type}

def Container.values : Container Leaf Key → List (HeapValue Leaf)
  | .array items => items
  | .hash entries => entries.map Prod.snd

/-- A value that refers to nothing but containers in a range. -/
def HeapValue.Between (low high : Nat) (value : HeapValue Leaf) : Prop :=
  ∀ id, value = .ref id → low ≤ id ∧ id < high

/-- Containers by their numbers, of which those below a bound exist. -/
structure Heap (Leaf Key : Type) where
  next : Nat
  containers : Nat → Container Leaf Key

namespace Heap

def empty : Heap Leaf Key where
  next := 0
  containers _ := .array []

def push (heap : Heap Leaf Key) (container : Container Leaf Key) :
    HeapValue Leaf × Heap Leaf Key :=
  (.ref heap.next,
    { next := heap.next + 1
      containers := fun id =>
        if id = heap.next then container else heap.containers id })

mutual

def build (heap : Heap Leaf Key) :
    Tree Leaf Key → HeapValue Leaf × Heap Leaf Key
  | .leaf value => (.leaf value, heap)
  | .array items =>
    let built := heap.buildItems items
    built.2.push (.array built.1)
  | .hash entries =>
    let built := heap.buildEntries entries
    built.2.push (.hash built.1)

def buildItems (heap : Heap Leaf Key) :
    List (Tree Leaf Key) → List (HeapValue Leaf) × Heap Leaf Key
  | [] => ([], heap)
  | item :: rest =>
    let first := heap.build item
    let later := first.2.buildItems rest
    (first.1 :: later.1, later.2)

def buildEntries (heap : Heap Leaf Key) :
    List (Key × Tree Leaf Key) →
      List (Key × HeapValue Leaf) × Heap Leaf Key
  | [] => ([], heap)
  | (key, item) :: rest =>
    let first := heap.build item
    let later := first.2.buildEntries rest
    ((key, first.1) :: later.1, later.2)

end

mutual

def Reads (heap : Heap Leaf Key) :
    HeapValue Leaf → Tree Leaf Key → Prop
  | value, .leaf leaf => value = .leaf leaf
  | value, .array trees =>
    ∃ id items, value = .ref id ∧ id < heap.next ∧
      heap.containers id = .array items ∧ heap.ReadsItems items trees
  | value, .hash trees =>
    ∃ id entries, value = .ref id ∧ id < heap.next ∧
      heap.containers id = .hash entries ∧
      heap.ReadsEntries entries trees

def ReadsItems (heap : Heap Leaf Key) :
    List (HeapValue Leaf) → List (Tree Leaf Key) → Prop
  | values, [] => values = []
  | values, tree :: trees =>
    ∃ value rest, values = value :: rest ∧ heap.Reads value tree ∧
      heap.ReadsItems rest trees

def ReadsEntries (heap : Heap Leaf Key) :
    List (Key × HeapValue Leaf) → List (Key × Tree Leaf Key) → Prop
  | entries, [] => entries = []
  | entries, (key, tree) :: trees =>
    ∃ value rest, entries = (key, value) :: rest ∧
      heap.Reads value tree ∧ heap.ReadsEntries rest trees

end

inductive Reaches (heap : Heap Leaf Key) : HeapValue Leaf → Nat → Prop
  | here (id : Nat) : Reaches heap (.ref id) id
  | part
      {id inner : Nat} {value : HeapValue Leaf}
      (isPart : value ∈ (heap.containers id).values)
      (reaches : Reaches heap value inner) :
      Reaches heap (.ref id) inner

def Apart (heap : Heap Leaf Key) (first second : HeapValue Leaf) : Prop :=
  ∀ id, heap.Reaches first id → ¬ heap.Reaches second id

structure Extends (before after : Heap Leaf Key) : Prop where
  next_le : before.next ≤ after.next
  same : ∀ id < before.next, after.containers id = before.containers id

/-- From a bound on, containers hold nothing but such containers. -/
def ClosedFrom (low : Nat) (heap : Heap Leaf Key) : Prop :=
  ∀ id, low ≤ id → id < heap.next →
    ∀ value ∈ (heap.containers id).values, value.Between low heap.next

end Heap

variable {id : Nat} {value : HeapValue Leaf}

section Between

variable {low high : Nat}

theorem HeapValue.between_leaf (leaf : Leaf) :
    (HeapValue.leaf leaf).Between low high := by
  intro id same
  cases same

theorem HeapValue.between_ref_iff :
    (HeapValue.ref id : HeapValue Leaf).Between low high ↔
      low ≤ id ∧ id < high := by
  constructor
  · intro between
    exact between id rfl
  · rintro bounds other same
    cases same
    exact bounds

theorem HeapValue.Between.mono (between : value.Between low high)
    {low' high' : Nat} (lower : low' ≤ low) (upper : high ≤ high') :
    value.Between low' high' := by
  intro id same
  obtain ⟨above, below⟩ := between id same
  exact ⟨Nat.le_trans lower above, Nat.lt_of_lt_of_le below upper⟩

end Between

variable {heap : Heap Leaf Key}

namespace Heap

theorem Extends.refl (heap : Heap Leaf Key) : heap.Extends heap :=
  ⟨Nat.le_refl _, fun _ _ => rfl⟩

theorem Extends.trans {first second third : Heap Leaf Key}
    (earlier : first.Extends second) (later : second.Extends third) :
    first.Extends third := by
  refine ⟨Nat.le_trans earlier.next_le later.next_le, fun id below => ?_⟩
  rw [later.same id (Nat.lt_of_lt_of_le below earlier.next_le),
    earlier.same id below]

mutual

theorem Reads.extend
    {before after : Heap Leaf Key} (extended : before.Extends after)
    {value : HeapValue Leaf} :
    ∀ {tree : Tree Leaf Key}, before.Reads value tree →
      after.Reads value tree
  | .leaf _, reads => by
    unfold Reads at reads ⊢
    exact reads
  | .array _, reads => by
    unfold Reads at reads ⊢
    obtain ⟨id, items, isRef, below, isArray, areItems⟩ := reads
    refine ⟨id, items, isRef, Nat.lt_of_lt_of_le below extended.next_le, ?_,
      areItems.extend extended⟩
    rw [extended.same id below, isArray]
  | .hash _, reads => by
    unfold Reads at reads ⊢
    obtain ⟨id, entries, isRef, below, isHash, areEntries⟩ := reads
    refine ⟨id, entries, isRef,
      Nat.lt_of_lt_of_le below extended.next_le, ?_,
      areEntries.extend extended⟩
    rw [extended.same id below, isHash]

theorem ReadsItems.extend
    {before after : Heap Leaf Key} (extended : before.Extends after)
    {values : List (HeapValue Leaf)} :
    ∀ {trees : List (Tree Leaf Key)}, before.ReadsItems values trees →
      after.ReadsItems values trees
  | [], reads => by
    unfold ReadsItems at reads ⊢
    exact reads
  | _ :: _, reads => by
    unfold ReadsItems at reads ⊢
    obtain ⟨value, rest, whole, first, later⟩ := reads
    exact ⟨value, rest, whole, first.extend extended, later.extend extended⟩

theorem ReadsEntries.extend
    {before after : Heap Leaf Key} (extended : before.Extends after)
    {entries : List (Key × HeapValue Leaf)} :
    ∀ {trees : List (Key × Tree Leaf Key)},
      before.ReadsEntries entries trees →
      after.ReadsEntries entries trees
  | [], reads => by
    unfold ReadsEntries at reads ⊢
    exact reads
  | (_, _) :: _, reads => by
    unfold ReadsEntries at reads ⊢
    obtain ⟨value, rest, whole, first, later⟩ := reads
    exact ⟨value, rest, whole, first.extend extended, later.extend extended⟩

end

mutual

theorem Reads.unique {heap : Heap Leaf Key} {value : HeapValue Leaf} :
    ∀ {first second : Tree Leaf Key}, heap.Reads value first →
      heap.Reads value second → first = second
  | .leaf _, .leaf _, reads, readsAlso => by
    unfold Reads at reads readsAlso
    rw [reads] at readsAlso
    cases readsAlso
    rfl
  | .array _, .array _, reads, readsAlso => by
    unfold Reads at reads readsAlso
    obtain ⟨id, items, rfl, -, isArray, areItems⟩ := reads
    obtain ⟨other, others, same, -, isAlso, areOthers⟩ := readsAlso
    cases same
    rw [isArray] at isAlso
    cases isAlso
    rw [areItems.unique areOthers]
  | .hash _, .hash _, reads, readsAlso => by
    unfold Reads at reads readsAlso
    obtain ⟨id, entries, rfl, -, isHash, areEntries⟩ := reads
    obtain ⟨other, others, same, -, isAlso, areOthers⟩ := readsAlso
    cases same
    rw [isHash] at isAlso
    cases isAlso
    rw [areEntries.unique areOthers]
  | .leaf _, .array _, reads, readsAlso => by
    unfold Reads at reads readsAlso
    obtain ⟨id, items, rfl, -⟩ := readsAlso
    cases reads
  | .leaf _, .hash _, reads, readsAlso => by
    unfold Reads at reads readsAlso
    obtain ⟨id, entries, rfl, -⟩ := readsAlso
    cases reads
  | .array _, .leaf _, reads, readsAlso => by
    unfold Reads at reads readsAlso
    obtain ⟨id, items, rfl, -⟩ := reads
    cases readsAlso
  | .hash _, .leaf _, reads, readsAlso => by
    unfold Reads at reads readsAlso
    obtain ⟨id, entries, rfl, -⟩ := reads
    cases readsAlso
  | .array _, .hash _, reads, readsAlso => by
    unfold Reads at reads readsAlso
    obtain ⟨id, items, rfl, -, isArray, -⟩ := reads
    obtain ⟨other, others, same, -, isHash, -⟩ := readsAlso
    cases same
    rw [isArray] at isHash
    cases isHash
  | .hash _, .array _, reads, readsAlso => by
    unfold Reads at reads readsAlso
    obtain ⟨id, entries, rfl, -, isHash, -⟩ := reads
    obtain ⟨other, others, same, -, isArray, -⟩ := readsAlso
    cases same
    rw [isHash] at isArray
    cases isArray

theorem ReadsItems.unique
    {heap : Heap Leaf Key} {values : List (HeapValue Leaf)} :
    ∀ {first second : List (Tree Leaf Key)},
      heap.ReadsItems values first → heap.ReadsItems values second →
      first = second
  | [], [], _, _ => rfl
  | _ :: _, _ :: _, reads, readsAlso => by
    unfold ReadsItems at reads readsAlso
    obtain ⟨value, rest, rfl, item, later⟩ := reads
    obtain ⟨other, others, same, itemAlso, laterAlso⟩ := readsAlso
    cases same
    rw [item.unique itemAlso, later.unique laterAlso]
  | [], _ :: _, reads, readsAlso => by
    unfold ReadsItems at reads readsAlso
    obtain ⟨value, rest, rfl, -⟩ := readsAlso
    cases reads
  | _ :: _, [], reads, readsAlso => by
    unfold ReadsItems at reads readsAlso
    obtain ⟨value, rest, rfl, -⟩ := reads
    cases readsAlso

theorem ReadsEntries.unique
    {heap : Heap Leaf Key} {entries : List (Key × HeapValue Leaf)} :
    ∀ {first second : List (Key × Tree Leaf Key)},
      heap.ReadsEntries entries first → heap.ReadsEntries entries second →
      first = second
  | [], [], _, _ => rfl
  | (_, _) :: _, (_, _) :: _, reads, readsAlso => by
    unfold ReadsEntries at reads readsAlso
    obtain ⟨value, rest, rfl, item, later⟩ := reads
    obtain ⟨other, others, same, itemAlso, laterAlso⟩ := readsAlso
    cases same
    rw [item.unique itemAlso, later.unique laterAlso]
  | [], (_, _) :: _, reads, readsAlso => by
    unfold ReadsEntries at reads readsAlso
    obtain ⟨value, rest, rfl, -⟩ := readsAlso
    cases reads
  | (_, _) :: _, [], reads, readsAlso => by
    unfold ReadsEntries at reads readsAlso
    obtain ⟨value, rest, rfl, -⟩ := reads
    cases readsAlso

end

structure Adds (before after : Heap Leaf Key) : Prop where
  extended : before.Extends after
  closed :
    ∀ low ≤ before.next, before.ClosedFrom low → after.ClosedFrom low

theorem Adds.refl (heap : Heap Leaf Key) : heap.Adds heap :=
  ⟨.refl heap, fun _ _ closed => closed⟩

theorem Adds.trans {first second third : Heap Leaf Key}
    (earlier : first.Adds second) (later : second.Adds third) :
    first.Adds third := by
  refine ⟨earlier.extended.trans later.extended, fun low bound closed => ?_⟩
  exact later.closed low (Nat.le_trans bound earlier.extended.next_le)
    (earlier.closed low bound closed)

theorem extends_push
    (heap : Heap Leaf Key) (container : Container Leaf Key) :
    heap.Extends (heap.push container).2 :=
  ⟨Nat.le_succ _, fun _ below => if_neg (Nat.ne_of_lt below)⟩

theorem push_containers_self
    (heap : Heap Leaf Key) (container : Container Leaf Key) :
    (heap.push container).2.containers heap.next = container :=
  if_pos rfl

theorem adds_push {before : Heap Leaf Key} (added : before.Adds heap)
    {container : Container Leaf Key}
    (fresh : ∀ value ∈ container.values,
      value.Between before.next heap.next) :
    before.Adds (heap.push container).2 := by
  refine ⟨added.extended.trans (extends_push _ _), ?_⟩
  intro low lower closed id above below value member
  by_cases isNew : id = heap.next
  · subst isNew
    rw [push_containers_self] at member
    exact (fresh value member).mono lower (Nat.le_succ _)
  · have old : id < heap.next := by
      have bound : id < heap.next + 1 := below
      omega
    rw [(extends_push heap container).same id old] at member
    exact (added.closed low lower closed id above old value member).mono
      (Nat.le_refl _) (Nat.le_succ _)

theorem between_push {before : Heap Leaf Key} (added : before.Adds heap)
    (container : Container Leaf Key) :
    (heap.push container).1.Between before.next
      (heap.push container).2.next :=
  HeapValue.between_ref_iff.mpr
    ⟨added.extended.next_le, Nat.lt_succ_self _⟩

mutual

theorem adds_build (heap : Heap Leaf Key) :
    ∀ tree : Tree Leaf Key,
      heap.Adds (heap.build tree).2 ∧
        (heap.build tree).1.Between heap.next (heap.build tree).2.next
  | .leaf value => ⟨.refl heap, HeapValue.between_leaf value⟩
  | .array items => by
    obtain ⟨added, fresh⟩ := adds_buildItems heap items
    unfold build
    exact ⟨adds_push added fresh, between_push added _⟩
  | .hash entries => by
    obtain ⟨added, fresh⟩ := adds_buildEntries heap entries
    unfold build
    refine ⟨adds_push added fun value member => ?_, between_push added _⟩
    obtain ⟨entry, isEntry, rfl⟩ := List.mem_map.mp member
    exact fresh entry isEntry

theorem adds_buildItems (heap : Heap Leaf Key) :
    ∀ items : List (Tree Leaf Key),
      heap.Adds (heap.buildItems items).2 ∧
        ∀ value ∈ (heap.buildItems items).1,
          value.Between heap.next (heap.buildItems items).2.next
  | [] => ⟨.refl heap, fun _ member => absurd member List.not_mem_nil⟩
  | item :: rest => by
    obtain ⟨added, fresh⟩ := adds_build heap item
    obtain ⟨later, laterFresh⟩ :=
      adds_buildItems (heap.build item).2 rest
    unfold buildItems
    refine ⟨added.trans later, fun value member => ?_⟩
    rcases List.mem_cons.mp member with rfl | inRest
    · exact fresh.mono (Nat.le_refl _) later.extended.next_le
    · exact (laterFresh value inRest).mono added.extended.next_le
        (Nat.le_refl _)

theorem adds_buildEntries (heap : Heap Leaf Key) :
    ∀ entries : List (Key × Tree Leaf Key),
      heap.Adds (heap.buildEntries entries).2 ∧
        ∀ entry ∈ (heap.buildEntries entries).1,
          entry.2.Between heap.next (heap.buildEntries entries).2.next
  | [] => ⟨.refl heap, fun _ member => absurd member List.not_mem_nil⟩
  | (key, item) :: rest => by
    obtain ⟨added, fresh⟩ := adds_build heap item
    obtain ⟨later, laterFresh⟩ :=
      adds_buildEntries (heap.build item).2 rest
    unfold buildEntries
    refine ⟨added.trans later, fun entry member => ?_⟩
    rcases List.mem_cons.mp member with rfl | inRest
    · exact fresh.mono (Nat.le_refl _) later.extended.next_le
    · exact (laterFresh entry inRest).mono added.extended.next_le
        (Nat.le_refl _)

end

mutual

theorem reads_build (heap : Heap Leaf Key) :
    ∀ tree : Tree Leaf Key,
      (heap.build tree).2.Reads (heap.build tree).1 tree
  | .leaf value => by
    unfold build Reads
    rfl
  | .array items => by
    have reads := reads_buildItems heap items
    unfold build Reads
    exact ⟨_, _, rfl, Nat.lt_succ_self _, push_containers_self _ _,
      reads.extend (extends_push _ _)⟩
  | .hash entries => by
    have reads := reads_buildEntries heap entries
    unfold build Reads
    exact ⟨_, _, rfl, Nat.lt_succ_self _, push_containers_self _ _,
      reads.extend (extends_push _ _)⟩

theorem reads_buildItems (heap : Heap Leaf Key) :
    ∀ items : List (Tree Leaf Key),
      (heap.buildItems items).2.ReadsItems (heap.buildItems items).1 items
  | [] => by
    unfold buildItems ReadsItems
    rfl
  | item :: rest => by
    have first := reads_build heap item
    have later := reads_buildItems (heap.build item).2 rest
    unfold buildItems ReadsItems
    exact ⟨_, _, rfl,
      first.extend (adds_buildItems _ rest).1.extended, later⟩

theorem reads_buildEntries (heap : Heap Leaf Key) :
    ∀ entries : List (Key × Tree Leaf Key),
      (heap.buildEntries entries).2.ReadsEntries
        (heap.buildEntries entries).1 entries
  | [] => by
    unfold buildEntries ReadsEntries
    rfl
  | (key, item) :: rest => by
    have first := reads_build heap item
    have later := reads_buildEntries (heap.build item).2 rest
    unfold buildEntries ReadsEntries
    exact ⟨_, _, rfl,
      first.extend (adds_buildEntries _ rest).1.extended, later⟩

end

theorem Reaches.between {low : Nat} (closed : heap.ClosedFrom low)
    (reaches : heap.Reaches value id)
    (between : value.Between low heap.next) :
    low ≤ id ∧ id < heap.next := by
  induction reaches with
  | here id => exact between id rfl
  | part isPart _ ih =>
    obtain ⟨above, below⟩ := between _ rfl
    exact ih (closed _ above below _ isPart)

theorem Reaches.before
    {before after : Heap Leaf Key} (extended : before.Extends after)
    (closed : before.ClosedFrom 0) (reaches : after.Reaches value id)
    (between : value.Between 0 before.next) :
    id < before.next := by
  induction reaches with
  | here id => exact (between id rfl).2
  | part isPart _ ih =>
    obtain ⟨above, below⟩ := between _ rfl
    rw [extended.same _ below] at isPart
    exact ih (closed _ above below _ isPart)

theorem apart_build (closed : heap.ClosedFrom 0) (tree : Tree Leaf Key)
    {old : HeapValue Leaf} (isOld : old.Between 0 heap.next) :
    (heap.build tree).2.Apart old (heap.build tree).1 := by
  obtain ⟨added, fresh⟩ := adds_build heap tree
  have nothing : heap.ClosedFrom heap.next := by
    intro id above below
    omega
  have freshClosed := added.closed _ (Nat.le_refl _) nothing
  intro id reachesOld reachesNew
  have below := reachesOld.before added.extended closed isOld
  have above := (reachesNew.between freshClosed fresh).1
  omega

end Heap

end Library
