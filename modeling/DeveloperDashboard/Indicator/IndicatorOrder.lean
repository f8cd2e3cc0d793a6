import DeveloperDashboard.Indicator.IndicatorStore
import DeveloperDashboard.Library.MarkedOrder
import DeveloperDashboard.Perl.Number

namespace DeveloperDashboard.Indicator

open Library Library.MarkedOrder Perl

/-!
# The order of indicators

`list_indicators` sorts records by priority, by the order of their collectors
and by name.  Only two managed records are compared by the order of their
collectors, so a record that is not managed can stand between them.
-/

def sortNumber (record : Record) (field : Field) : ℚ :=
  if record.defines field then textNumber (record.text field) else 999

/-- `_indicator_sort_cmp`. -/
def indicatorSortCmp (left right : Record) : Ordering :=
  let priorityCmp :=
    cmp (sortNumber left .priority) (sortNumber right .priority)
  if priorityCmp ≠ .eq then priorityCmp
  else
    let collectorCmp :=
      cmp (sortNumber left .collectorOrder)
        (sortNumber right .collectorOrder)
    if left.truthy .managedByCollector ∧
        right.truthy .managedByCollector ∧ collectorCmp ≠ .eq then
      collectorCmp
    else cmp (left.trueText .name) (right.trueText .name)

structure DecoratedRecord where
  record : Record
  priority : ℚ
  managed : Bool
  collectorOrder : ℚ
  name : Text

/-- The fields that are compared, next to the record. -/
def decorate (record : Record) : DecoratedRecord where
  record := record
  priority := sortNumber record .priority
  managed := record.truthy .managedByCollector
  collectorOrder := sortNumber record .collectorOrder
  name := record.trueText .name

/-- `_indicator_sort_order_cmp`. -/
def indicatorSortOrderCmp (left right : DecoratedRecord) : Ordering :=
  let priorityOrder := cmp left.priority right.priority
  if priorityOrder ≠ .eq then priorityOrder
  else
    let collectorOrder := cmp left.collectorOrder right.collectorOrder
    if left.managed ∧ right.managed ∧ collectorOrder ≠ .eq then
      collectorOrder
    else cmp left.name right.name

/-- `_sort_indicators`. -/
def sortIndicators (items : List Record) : List Record :=
  if items.length < 32 then sortBy indicatorSortCmp items
  else
    (sortBy indicatorSortOrderCmp (items.map decorate)).map
      DecoratedRecord.record

def sortMarks (record : Record) : Marks ℚ ℚ Text where
  rank := sortNumber record .priority
  marked := record.truthy .managedByCollector
  key := sortNumber record .collectorOrder
  name := record.trueText .name

theorem indicatorSortCmp_eq (left right : Record) :
    indicatorSortCmp left right =
      compareMarks (sortMarks left) (sortMarks right) := by
  have names :
      @cmp Text _ LinearOrder.toDecidableLT (left.trueText .name)
          (right.trueText .name) =
        cmp (left.trueText .name) (right.trueText .name) := by
    congr
  unfold indicatorSortCmp compareMarks sortMarks
  dsimp only
  rw [names]
  cases cmp (sortNumber left .priority) (sortNumber right .priority) with
  | lt => rfl
  | gt => rfl
  | eq =>
    rw [if_neg (fun other => other rfl), Ordering.eq_then]
    cases left.truthy .managedByCollector with
    | false =>
      rw [if_neg (fun all => Bool.false_ne_true all.1)]
      rfl
    | true =>
      cases right.truthy .managedByCollector with
      | false =>
        rw [if_neg (fun all => Bool.false_ne_true all.2.1)]
        rfl
      | true =>
        cases cmp (sortNumber left .collectorOrder)
          (sortNumber right .collectorOrder) <;> rfl

theorem sortIndicators_eq (items : List Record) :
    sortIndicators items = sortBy indicatorSortCmp items := by
  unfold sortIndicators
  split
  · rfl
  · have mapped :
        (sortBy indicatorSortCmp items).map decorate =
          sortBy indicatorSortOrderCmp (items.map decorate) :=
      map_sortBy fun left _ right _ => rfl
    rw [← mapped, List.map_map]
    exact List.map_id _

structure SortsTotally (records : List Record) : Prop where
  order : OrdersTotally indicatorSortCmp records
  decorated :
    ∀ left ∈ records, ∀ right ∈ records,
      indicatorSortOrderCmp (decorate left) (decorate right) =
        indicatorSortCmp left right
  settled :
    ∀ others, records.Perm others →
      sortIndicators records = sortIndicators others
  collectors :
    (sortIndicators records).Pairwise fun earlier later =>
      earlier.truthy .managedByCollector = true →
        later.truthy .managedByCollector = true →
          sortNumber earlier .priority = sortNumber later .priority →
            sortNumber earlier .collectorOrder ≤
              sortNumber later .collectorOrder

/--
No record that is not managed has a name between those of two managed records
of its priority whose names are not in the order of their collectors.
-/
def NothingBetween (records : List Record) : Prop :=
  ∀ first ∈ records, ∀ second ∈ records, ∀ other ∈ records,
    ¬StandsBetween (sortMarks first) (sortMarks second) (sortMarks other)

/-- The names `0` and the empty one are not all that two records differ in. -/
def NoTwins (records : List Record) : Prop :=
  ∀ left ∈ records, ∀ right ∈ records,
    left.text .name = ['0'] → right.text .name = [] →
      sortNumber left .priority ≠ sortNumber right .priority ∨
        (left.truthy .managedByCollector = true ∧
          right.truthy .managedByCollector = true ∧
          sortNumber left .collectorOrder ≠
            sortNumber right .collectorOrder)

theorem text_of_trueText_eq_nil {record : Record} {field : Field}
    (empty : record.trueText field = []) :
    record.text field = [] ∨ record.text field = ['0'] := by
  unfold Record.trueText at empty
  split at empty
  · exact Or.inl empty
  · next untrue =>
      unfold Record.truthy Perl.isTrue at untrue
      rw [decide_eq_true_eq, not_and_or, not_not, not_not] at untrue
      exact untrue

theorem text_of_trueText_ne_nil {record : Record} {field : Field}
    (filled : record.trueText field ≠ []) :
    record.text field = record.trueText field := by
  unfold Record.trueText at filled ⊢
  split
  · rfl
  · next untrue =>
      rw [if_neg untrue] at filled
      exact absurd rfl filled

theorem indicatorSortCmp_eq_eq_iff {left right : Record} :
    indicatorSortCmp left right = .eq ↔
      sortNumber left .priority = sortNumber right .priority ∧
        (left.truthy .managedByCollector = true →
          right.truthy .managedByCollector = true →
            sortNumber left .collectorOrder =
              sortNumber right .collectorOrder) ∧
        left.trueText .name = right.trueText .name := by
  rw [indicatorSortCmp_eq, compareMarks, Ordering.then_eq_eq,
    Ordering.then_eq_eq, cmp_eq_eq_iff, cmp_eq_eq_iff]
  refine and_congr_right fun _ => and_congr_left fun _ => ?_
  unfold sortMarks
  dsimp only
  by_cases both :
      (left.truthy .managedByCollector &&
        right.truthy .managedByCollector) = true
  · rw [if_pos both, cmp_eq_eq_iff]
    obtain ⟨one, other⟩ := Bool.and_eq_true_iff.mp both
    simp [one, other]
  · rw [if_neg both]
    rw [Bool.and_eq_true, not_and] at both
    simp only [true_iff]
    exact fun one other => absurd other (both one)

theorem eq_of_indicatorSortCmp_eq {records : List Record}
    (distinct : (records.map fun record => record.text .name).Nodup)
    (noTwins : NoTwins records) {left right : Record}
    (isLeft : left ∈ records) (isRight : right ∈ records)
    (same : indicatorSortCmp left right = .eq) :
    left = right := by
  obtain ⟨priority, orders, names⟩ := indicatorSortCmp_eq_eq_iff.mp same
  refine List.inj_on_of_nodup_map distinct isLeft isRight ?_
  by_cases empty : left.trueText .name = []
  · have otherEmpty := names.symm.trans empty
    rcases text_of_trueText_eq_nil empty with blank | zero
    · rcases text_of_trueText_eq_nil otherEmpty with otherBlank | otherZero
      · rw [blank, otherBlank]
      · rcases noTwins right isRight left isLeft otherZero blank with
          rank | ⟨one, other, keys⟩
        · exact absurd priority.symm rank
        · exact absurd (orders other one).symm keys
    · rcases text_of_trueText_eq_nil otherEmpty with otherBlank | otherZero
      · rcases noTwins left isLeft right isRight zero otherBlank with
          rank | ⟨one, other, keys⟩
        · exact absurd priority rank
        · exact absurd (orders one other) keys
      · rw [zero, otherZero]
  · rw [text_of_trueText_ne_nil empty, names]
    exact (text_of_trueText_ne_nil (names ▸ empty)).symm

theorem sortsTotally_of_ordersTotally {records : List Record}
    (totally : OrdersTotally indicatorSortCmp records) :
    SortsTotally records where
  order := totally
  decorated := fun left _ right _ => rfl
  settled := by
    intro others perm
    rw [sortIndicators_eq, sortIndicators_eq]
    exact totally.sortBy_eq_of_perm perm
  collectors := by
    rw [sortIndicators_eq]
    refine totally.pairwise_sortBy.imp ?_
    intro earlier later ordered one other priority
    by_contra greater
    have before :
        compareMarks (sortMarks later) (sortMarks earlier) = .lt :=
      compareMarks_eq_lt_iff.mpr (Or.inr ⟨priority.symm,
        Or.inl ⟨other, one, not_le.mp greater⟩⟩)
    rw [indicatorSortCmp_eq, compareMarks_swap, before] at ordered
    contradiction

def plainRecord (name : String) : Record
  | .name => some (.string name.toList)
  | _ => none

def managedRecord (name : String) (order : Nat) : Record
  | .name => some (.string name.toList)
  | .managedByCollector => some (.boolean true)
  | .collectorOrder => some (Scalar.ofNat order)
  | _ => none

end DeveloperDashboard.Indicator
