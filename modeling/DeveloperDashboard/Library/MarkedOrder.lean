import Mathlib.Order.Lattice

namespace Library

/-!
# Orders with marked items

A comparison that reads a key of an item only when both items are marked.
Items of one rank are then ordered by two keys at once, and the comparison is
an order only when no item that is not marked stands between two marked ones
whose keys disagree.
-/

namespace MarkedOrder

variable {Item Rank Key Name : Type}

structure OrdersTotally
    (order : Item → Item → Ordering) (items : List Item) : Prop where
  swapped :
    ∀ left ∈ items, ∀ right ∈ items, order right left = (order left right).swap
  apart :
    ∀ left ∈ items, ∀ right ∈ items, order left right = .eq → left = right
  trans :
    ∀ first ∈ items, ∀ second ∈ items, ∀ third ∈ items,
      order first second = .lt → order second third = .lt →
        order first third = .lt

/-- Sort a list by a comparison; items that compare equal keep their order. -/
def sortBy (order : Item → Item → Ordering) (items : List Item) : List Item :=
  items.mergeSort fun left right => (order left right).isLE

theorem sortBy_perm (order : Item → Item → Ordering) (items : List Item) :
    (sortBy order items).Perm items :=
  List.mergeSort_perm items _

theorem map_sortBy {Other : Type} {order : Item → Item → Ordering}
    {other : Other → Other → Ordering} {change : Item → Other}
    {items : List Item}
    (same :
      ∀ left ∈ items, ∀ right ∈ items,
        order left right = other (change left) (change right)) :
    (sortBy order items).map change = sortBy other (items.map change) :=
  List.map_mergeSort fun left isLeft right isRight =>
    congrArg Ordering.isLE (same left isLeft right isRight)

namespace OrdersTotally

variable {order : Item → Item → Ordering} {items : List Item}

theorem of_subset {others : List Item}
    (totally : OrdersTotally order items) (sub : others ⊆ items) :
    OrdersTotally order others where
  swapped left isLeft right isRight :=
    totally.swapped left (sub isLeft) right (sub isRight)
  apart left isLeft right isRight :=
    totally.apart left (sub isLeft) right (sub isRight)
  trans first isFirst second isSecond third isThird :=
    totally.trans first (sub isFirst) second (sub isSecond) third
      (sub isThird)

/-- Sorting by an order leaves no item after a greater one. -/
theorem pairwise_sortBy (totally : OrdersTotally order items) :
    (sortBy order items).Pairwise fun left right =>
      (order left right).isLE = true := by
  let onItems := fun left right : { item // item ∈ items } =>
    order left.1 right.1
  have whole : (sortBy onItems items.attach).map Subtype.val =
      sortBy order items := by
    have mapped : (sortBy onItems items.attach).map Subtype.val =
        sortBy order (items.attach.map Subtype.val) :=
      map_sortBy fun left _ right _ => rfl
    rw [mapped, List.attach_map_subtype_val]
  rw [← whole, List.pairwise_map]
  refine List.pairwise_mergeSort ?_ ?_ items.attach
  · intro first second third before after
    by_cases same : order first.1 second.1 = .eq
    · rw [Subtype.ext (totally.apart _ first.2 _ second.2 same)]
      exact after
    by_cases alike : order second.1 third.1 = .eq
    · rw [← Subtype.ext (totally.apart _ second.2 _ third.2 alike)]
      exact before
    have less : order first.1 second.1 = .lt :=
      (Ordering.isLE_iff_eq_lt_or_eq_eq.mp before).resolve_right same
    have later : order second.1 third.1 = .lt :=
      (Ordering.isLE_iff_eq_lt_or_eq_eq.mp after).resolve_right alike
    change (order first.1 third.1).isLE = true
    rw [totally.trans _ first.2 _ second.2 _ third.2 less later]
    rfl
  · intro left right
    change ((order left.1 right.1).isLE ||
      (order right.1 left.1).isLE) = true
    rw [totally.swapped _ left.2 _ right.2]
    cases order left.1 right.1 <;> rfl

theorem sortBy_eq_of_perm (totally : OrdersTotally order items)
    {others : List Item} (perm : items.Perm others) :
    sortBy order items = sortBy order others := by
  have totallyOther : OrdersTotally order others :=
    totally.of_subset perm.symm.subset
  refine List.Perm.eq_of_pairwise ?_ totally.pairwise_sortBy
    totallyOther.pairwise_sortBy ?_
  · intro left right isLeft isRight before after
    have leftIn := (sortBy_perm order items).mem_iff.mp isLeft
    have rightIn := perm.mem_iff.mpr
      ((sortBy_perm order others).mem_iff.mp isRight)
    refine totally.apart left leftIn right rightIn ?_
    rw [totally.swapped left leftIn right rightIn] at after
    revert before after
    cases order left right <;> simp [Ordering.isLE, Ordering.swap]
  · exact ((sortBy_perm order items).trans perm).trans
      (sortBy_perm order others).symm

end OrdersTotally

structure Marks (Rank Key Name : Type) where
  rank : Rank
  marked : Bool
  key : Key
  name : Name

variable [LinearOrder Rank] [LinearOrder Key] [LinearOrder Name]

def compareMarks (left right : Marks Rank Key Name) : Ordering :=
  (cmp left.rank right.rank).then
    ((if left.marked && right.marked then cmp left.key right.key
      else .eq).then
      (cmp left.name right.name))

/-- An item without a mark is named between marked ones that disagree. -/
structure StandsBetween
    (first second other : Marks Rank Key Name) : Prop where
  sameRank : first.rank = second.rank
  otherRank : other.rank = first.rank
  firstMarked : first.marked = true
  secondMarked : second.marked = true
  unmarked : other.marked = false
  keys : first.key < second.key
  after : second.name < other.name
  before : other.name < first.name

theorem compareMarks_swap (left right : Marks Rank Key Name) :
    compareMarks right left = (compareMarks left right).swap := by
  unfold compareMarks
  rw [Ordering.swap_then, Ordering.swap_then, cmp_swap, cmp_swap,
    Bool.and_comm]
  by_cases both : (left.marked && right.marked) = true
  · rw [if_pos both, if_pos both, cmp_swap]
  · rw [if_neg both, if_neg both]
    rfl

theorem compareMarks_eq_lt_iff {left right : Marks Rank Key Name} :
    compareMarks left right = .lt ↔
      left.rank < right.rank ∨
        left.rank = right.rank ∧
          ((left.marked = true ∧ right.marked = true ∧
              left.key < right.key) ∨
            ((left.marked = true → right.marked = true →
                left.key = right.key) ∧
              left.name < right.name)) := by
  unfold compareMarks
  rw [Ordering.then_eq_lt, cmp_eq_lt_iff, cmp_eq_eq_iff,
    Ordering.then_eq_lt, cmp_eq_lt_iff]
  by_cases both : (left.marked && right.marked) = true
  · obtain ⟨leftMarked, rightMarked⟩ := Bool.and_eq_true_iff.mp both
    rw [if_pos both, cmp_eq_lt_iff, cmp_eq_eq_iff]
    simp [leftMarked, rightMarked]
  · rw [if_neg both]
    rw [Bool.and_eq_true, not_and] at both
    have none :
        ¬(left.marked = true ∧ right.marked = true ∧
          left.key < right.key) :=
      fun holds => both holds.1 holds.2.1
    have vacuous :
        left.marked = true → right.marked = true →
          left.key = right.key :=
      fun one other => absurd other (both one)
    simp only [none, false_or, true_and, and_iff_right vacuous, reduceCtorEq]

theorem sameRank_of_cycle {first second third : Marks Rank Key Name}
    (one : compareMarks first second = .lt)
    (two : compareMarks second third = .lt)
    (three : compareMarks third first = .lt) :
    first.rank = second.rank ∧ third.rank = first.rank := by
  have le : ∀ {left right : Marks Rank Key Name},
      compareMarks left right = .lt → left.rank ≤ right.rank := by
    intro left right less
    rcases compareMarks_eq_lt_iff.mp less with rank | ⟨same, -⟩
    · exact rank.le
    · exact same.le
  exact ⟨le_antisymm (le one) ((le two).trans (le three)),
    le_antisymm (le three) ((le one).trans (le two))⟩

/-- In one rank, a marked item before another by its key. -/
def ByKey (left right : Marks Rank Key Name) : Prop :=
  left.marked = true ∧ right.marked = true ∧ left.key < right.key

def ByName (left right : Marks Rank Key Name) : Prop :=
  (left.marked = true → right.marked = true → left.key = right.key) ∧
    left.name < right.name

theorem byKey_or_byName {left right : Marks Rank Key Name}
    (rank : left.rank = right.rank) (less : compareMarks left right = .lt) :
    ByKey left right ∨ ByName left right := by
  rcases compareMarks_eq_lt_iff.mp less with lower | ⟨-, holds⟩
  · exact absurd rank lower.ne
  · exact holds

omit [LinearOrder Rank] in
theorem standsBetween_of_byKey {first second third : Marks Rank Key Name}
    (rank : first.rank = second.rank) (thirdRank : third.rank = first.rank)
    (key : ByKey first second)
    (two : ByKey second third ∨ ByName second third)
    (three : ByKey third first ∨ ByName third first) :
    StandsBetween first second third := by
  obtain ⟨firstMarked, secondMarked, keys⟩ := key
  have unmarked : third.marked = false := by
    refine Bool.eq_false_iff.mpr fun marked => ?_
    have secondLe : second.key ≤ third.key := by
      rcases two with byKey | byName
      · exact byKey.2.2.le
      · exact (byName.1 secondMarked marked).le
    have thirdLe : third.key ≤ first.key := by
      rcases three with byKey | byName
      · exact byKey.2.2.le
      · exact (byName.1 marked firstMarked).le
    exact absurd keys (secondLe.trans thirdLe).not_gt
  have after : second.name < third.name := by
    rcases two with byKey | byName
    · rw [byKey.2.1] at unmarked
      contradiction
    · exact byName.2
  have before : third.name < first.name := by
    rcases three with byKey | byName
    · rw [byKey.1] at unmarked
      contradiction
    · exact byName.2
  exact ⟨rank, thirdRank, firstMarked, secondMarked, unmarked, keys, after,
    before⟩

theorem standsBetween_of_cycle {first second third : Marks Rank Key Name}
    (one : compareMarks first second = .lt)
    (two : compareMarks second third = .lt)
    (three : compareMarks third first = .lt) :
    StandsBetween first second third ∨ StandsBetween second third first ∨
      StandsBetween third first second := by
  obtain ⟨rank, thirdRank⟩ := sameRank_of_cycle one two three
  have secondRank : second.rank = third.rank :=
    (thirdRank.trans rank).symm
  have oneWay := byKey_or_byName rank one
  have twoWay := byKey_or_byName secondRank two
  have threeWay := byKey_or_byName thirdRank three
  rcases oneWay with key | name
  · exact Or.inl
      (standsBetween_of_byKey rank thirdRank key twoWay threeWay)
  rcases twoWay with key | name'
  · exact Or.inr (Or.inl
      (standsBetween_of_byKey secondRank rank key threeWay (Or.inr name)))
  rcases threeWay with key | name''
  · exact Or.inr (Or.inr
      (standsBetween_of_byKey thirdRank secondRank key (Or.inr name)
        (Or.inr name')))
  · exact absurd (name.2.trans (name'.2.trans name''.2)) (lt_irrefl _)

theorem StandsBetween.cycle {first second other : Marks Rank Key Name}
    (between : StandsBetween first second other) :
    compareMarks first second = .lt ∧ compareMarks second other = .lt ∧
      compareMarks other first = .lt := by
  refine ⟨compareMarks_eq_lt_iff.mpr (Or.inr ⟨between.sameRank, Or.inl
      ⟨between.firstMarked, between.secondMarked, between.keys⟩⟩),
    compareMarks_eq_lt_iff.mpr (Or.inr
      ⟨between.sameRank.symm.trans between.otherRank.symm, Or.inr
        ⟨fun _ marked => ?_, between.after⟩⟩),
    compareMarks_eq_lt_iff.mpr (Or.inr ⟨between.otherRank, Or.inr
      ⟨fun marked => ?_, between.before⟩⟩)⟩
  · rw [between.unmarked] at marked
    contradiction
  · rw [between.unmarked] at marked
    contradiction

def orderBy (marks : Item → Marks Rank Key Name) (left right : Item) :
    Ordering :=
  compareMarks (marks left) (marks right)

/--
A comparison of marked items that tells them all apart is an order if and only
if no item stands between two others.
-/
theorem ordersTotally_iff
    {marks : Item → Marks Rank Key Name} {items : List Item}
    (apart :
      ∀ left ∈ items, ∀ right ∈ items,
        orderBy marks left right = .eq → left = right) :
    OrdersTotally (orderBy marks) items ↔
      ∀ first ∈ items, ∀ second ∈ items, ∀ other ∈ items,
        ¬StandsBetween (marks first) (marks second) (marks other) := by
  constructor
  · intro totally first isFirst second isSecond other isOther between
    obtain ⟨one, two, three⟩ := between.cycle
    have round := totally.trans first isFirst second isSecond other isOther
      one two
    have back := totally.swapped first isFirst other isOther
    rw [round] at back
    exact absurd (three.symm.trans back) (by decide)
  · intro free
    refine ⟨fun left _ right _ => compareMarks_swap _ _, apart, ?_⟩
    intro first isFirst second isSecond third isThird one two
    cases last : orderBy marks first third with
    | lt => rfl
    | eq =>
      have same := apart first isFirst third isThird last
      rw [same, orderBy, compareMarks_swap] at one
      change compareMarks (marks second) (marks third) = .lt at two
      rw [two] at one
      contradiction
    | gt =>
      have three : compareMarks (marks third) (marks first) = .lt := by
        rw [compareMarks_swap]
        change (orderBy marks first third).swap = .lt
        rw [last]
        rfl
      rcases standsBetween_of_cycle one two three with
        between | between | between
      · exact absurd between
          (free first isFirst second isSecond third isThird)
      · exact absurd between
          (free second isSecond third isThird first isFirst)
      · exact absurd between
          (free third isThird first isFirst second isSecond)

end MarkedOrder

end Library
