import Mathlib.Data.List.Basic
import Mathlib.Data.Nat.ModEq
import DeveloperDashboard.Library.Transition

namespace Library

/-!
# Fixed-capacity ring buffers

A ring is an array of optional cells with a head, a tail and a count.  The
cells read from the head are its contents; `Holds` says that a ring is well
formed and that these contents are a given list.  Pushing and popping through
the indices is then appending to and removing from that list.
-/

structure RingBuffer (α : Type) where
  capacity : Nat
  cells : List (Option α)
  head : Nat
  tail : Nat
  count : Nat
  deriving Repr, DecidableEq

namespace RingBuffer

variable {α : Type}

/-- The cell `offset` places after the head. -/
def cellAt (ring : RingBuffer α) (offset : Nat) : Option α :=
  (ring.cells[(ring.head + offset) % ring.capacity]?).join

def occupied (ring : RingBuffer α) : List (Option α) :=
  (List.range ring.count).map ring.cellAt

def push (ring : RingBuffer α) (value : α) : RingBuffer α :=
  { ring with
    cells := ring.cells.set ring.tail (some value)
    tail := (ring.tail + 1) % ring.capacity
    count := ring.count + 1 }

def front (ring : RingBuffer α) : Option α :=
  (ring.cells[ring.head]?).join

/-- Clear the cell under the head and advance it. -/
def pop (ring : RingBuffer α) : RingBuffer α :=
  { ring with
    cells := ring.cells.set ring.head none
    head := (ring.head + 1) % ring.capacity
    count := ring.count - 1 }

/-- The indices are in bounds and the occupied cells are `items`, in order. -/
structure Holds (ring : RingBuffer α) (items : List α) : Prop where
  capacity_pos : 0 < ring.capacity
  cells_length : ring.cells.length = ring.capacity
  head_lt : ring.head < ring.capacity
  count_le : ring.count ≤ ring.capacity
  tail_eq : ring.tail = (ring.head + ring.count) % ring.capacity
  occupied_eq : ring.occupied = items.map some

theorem holds_nil {capacity : Nat} (positive : 0 < capacity) :
    Holds (α := α)
      { capacity := capacity
        cells := List.replicate capacity none
        head := 0
        tail := 0
        count := 0 }
      [] where
  capacity_pos := positive
  cells_length := by simp
  head_lt := positive
  count_le := Nat.zero_le capacity
  tail_eq := by simp
  occupied_eq := rfl

private theorem offset_injective {head capacity first second : Nat}
    (firstBound : first < capacity) (secondBound : second < capacity)
    (same : (head + first) % capacity = (head + second) % capacity) :
    first = second := by
  have congruent : first ≡ second [MOD capacity] :=
    Nat.ModEq.add_left_cancel' head same
  exact Nat.ModEq.eq_of_lt_of_lt congruent firstBound secondBound

private theorem shifted_index (head offset capacity : Nat) :
    ((head + 1) % capacity + offset) % capacity =
      (head + (offset + 1)) % capacity := by
  rw [Nat.mod_add_mod, Nat.add_assoc, Nat.add_comm 1 offset]

namespace Holds

variable {ring : RingBuffer α}

theorem count_eq {items : List α} (holds : ring.Holds items) :
    ring.count = items.length := by
  have sameLength := congrArg List.length holds.occupied_eq
  simpa [occupied] using sameLength

theorem tail_lt {items : List α} (holds : ring.Holds items) :
    ring.tail < ring.capacity := by
  rw [holds.tail_eq]
  exact Nat.mod_lt _ holds.capacity_pos

private theorem cellAt_push {items : List α} (holds : ring.Holds items)
    (room : ring.count < ring.capacity) (value : α) {offset : Nat}
    (occupiedOffset : offset < ring.count) :
    (ring.push value).cellAt offset = ring.cellAt offset := by
  have otherCell :
      ring.tail ≠ (ring.head + offset) % ring.capacity := by
    rw [holds.tail_eq]
    intro same
    have equal :=
      offset_injective room (occupiedOffset.trans room) same
    omega
  simp only [cellAt, push]
  rw [List.getElem?_set_ne otherCell]

private theorem cellAt_push_count {items : List α} (holds : ring.Holds items)
    (value : α) :
    (ring.push value).cellAt ring.count = some value := by
  have inBounds : ring.tail < ring.cells.length := by
    rw [holds.cells_length]
    exact holds.tail_lt
  simp only [cellAt, push]
  rw [← holds.tail_eq, List.getElem?_set_self inBounds]
  rfl

theorem push {items : List α} (holds : ring.Holds items)
    (room : ring.count < ring.capacity) (value : α) :
    (ring.push value).Holds (items ++ [value]) where
  capacity_pos := holds.capacity_pos
  cells_length := by
    simpa [RingBuffer.push] using holds.cells_length
  head_lt := holds.head_lt
  count_le := room
  tail_eq := by
    simp only [RingBuffer.push]
    rw [holds.tail_eq, Nat.mod_add_mod, Nat.add_assoc]
  occupied_eq := by
    have unchanged :
        (List.range ring.count).map (ring.push value).cellAt =
          ring.occupied := by
      apply List.map_congr_left
      intro offset member
      exact holds.cellAt_push room value (List.mem_range.mp member)
    have grown : (ring.push value).count = ring.count + 1 := rfl
    rw [occupied, grown, List.range_succ, List.map_append,
      unchanged, holds.occupied_eq, List.map_singleton,
      holds.cellAt_push_count, List.map_append,
      List.map_singleton]

theorem front_cons {value : α} {rest : List α}
    (holds : ring.Holds (value :: rest)) :
    ring.front = some value := by
  have counted : ring.count = rest.length + 1 := by
    simpa using holds.count_eq
  have contents := holds.occupied_eq
  rw [occupied, counted, List.range_succ_eq_map] at contents
  have firstCell : ring.cellAt 0 = some value := by
    simpa using (List.cons.inj contents).1
  simpa [cellAt, front, Nat.mod_eq_of_lt holds.head_lt]
    using firstCell

/-- Clearing the head leaves the later occupied cells, one offset earlier. -/
private theorem cellAt_pop {items : List α} (holds : ring.Holds items)
    {offset : Nat} (occupiedOffset : offset + 1 < ring.count) :
    ring.pop.cellAt offset = ring.cellAt (offset + 1) := by
  have otherCell :
      ring.head ≠
        (ring.head + (offset + 1)) % ring.capacity := by
    intro same
    have wrapped :
        (ring.head + 0) % ring.capacity =
          (ring.head + (offset + 1)) % ring.capacity := by
      rw [← same, Nat.add_zero, Nat.mod_eq_of_lt holds.head_lt]
    have equal :=
      offset_injective holds.capacity_pos
        (occupiedOffset.trans_le holds.count_le) wrapped
    omega
  simp only [cellAt, pop]
  rw [shifted_index, List.getElem?_set_ne otherCell]

/-- Popping a nonempty ring removes its first item. -/
theorem pop {value : α} {rest : List α}
    (holds : ring.Holds (value :: rest)) :
    ring.pop.Holds rest := by
  have counted : ring.count = rest.length + 1 := by
    simpa using holds.count_eq
  exact {
    capacity_pos := holds.capacity_pos
    cells_length := by
      simpa [RingBuffer.pop] using holds.cells_length
    head_lt := Nat.mod_lt _ holds.capacity_pos
    count_le := (Nat.sub_le _ _).trans holds.count_le
    tail_eq := by
      simp only [RingBuffer.pop]
      rw [holds.tail_eq, shifted_index, counted]
      rfl
    occupied_eq := by
      have contents := holds.occupied_eq
      rw [occupied, counted, List.range_succ_eq_map] at contents
      have later := (List.cons.inj contents).2
      have shrunk : ring.pop.count = rest.length := by
        simp [RingBuffer.pop, counted]
      rw [occupied, shrunk, ← later, List.map_map]
      apply List.map_congr_left
      intro offset member
      apply holds.cellAt_pop
      rw [counted]
      exact Nat.succ_lt_succ (List.mem_range.mp member) }

end Holds

end RingBuffer

/-!
# A bounded FIFO queue that can be closed

The sequential meaning of a bounded channel: elements enter at the back while
the queue is open and has room, leave at the front in the order they entered,
and a closed queue reports itself drained only when it is empty.
-/

/-- The elements still queued and whether the queue was closed. -/
structure BoundedQueue (α : Type) where
  items : List α
  closed : Bool

namespace BoundedQueue

inductive Event (α : Type) where
  | enqueue (value : α)
  | dequeue (value : α)
  | close
  | drained
  deriving DecidableEq

/-- The steps of a queue with room for `capacity` elements. -/
inductive Step
    {α : Type} (capacity : Nat) :
    BoundedQueue α → Event α → BoundedQueue α → Prop where
  | enqueue
      {items : List α}
      (value : α)
      (room : items.length < capacity) :
      Step capacity
        ⟨items, false⟩ (.enqueue value) ⟨items ++ [value], false⟩
  | dequeue
      {rest : List α}
      {closed : Bool}
      (value : α) :
      Step capacity
        ⟨value :: rest, closed⟩ (.dequeue value) ⟨rest, closed⟩
  | close
      {items : List α} :
      Step capacity ⟨items, false⟩ .close ⟨items, true⟩
  | drained :
      Step capacity ⟨[], true⟩ .drained ⟨[], true⟩

/-- An open, empty queue with room for `capacity` elements. -/
def system (α : Type) (capacity : Nat) :
    TransitionSystem (BoundedQueue α) (Event α) where
  initial queue := queue = ⟨[], false⟩
  step := Step capacity

def enqueued {α : Type} (trace : List (Event α)) : List α :=
  trace.filterMap fun
    | .enqueue value => some value
    | _ => none

def dequeued {α : Type} (trace : List (Event α)) : List α :=
  trace.filterMap fun
    | .dequeue value => some value
    | _ => none

section

variable {α : Type} {capacity : Nat}

theorem enqueued_eq_dequeued_append {trace : List (Event α)}
    {queue : BoundedQueue α}
    (execution : (system α capacity).Execution trace queue) :
    enqueued trace = dequeued trace ++ queue.items := by
  refine execution.invariant
    (fun trace queue =>
      enqueued trace = dequeued trace ++ queue.items) ?_ ?_
  · rintro _ rfl
    rfl
  · intro trace state event next balanced step
    cases step with
    | @enqueue items value room =>
      have entered :
          enqueued (trace ++ [.enqueue value]) =
            enqueued trace ++ [value] := by
        simp [enqueued, List.filterMap_append]
      have left :
          dequeued (trace ++ [.enqueue value]) = dequeued trace := by
        simp [dequeued, List.filterMap_append]
      rw [entered, left, balanced, List.append_assoc]
    | dequeue value =>
      simpa [enqueued, dequeued, List.filterMap_append] using balanced
    | close =>
      simpa [enqueued, dequeued, List.filterMap_append] using balanced
    | drained =>
      simpa [enqueued, dequeued, List.filterMap_append] using balanced

theorem closed_iff {trace : List (Event α)} {queue : BoundedQueue α}
    (execution : (system α capacity).Execution trace queue) :
    queue.closed = true ↔ Event.close ∈ trace := by
  refine execution.invariant
    (fun trace queue =>
      queue.closed = true ↔ Event.close ∈ trace) ?_ ?_
  · rintro _ rfl
    simp
  · intro trace state event next isClosed step
    cases step with
    | enqueue value room =>
      simpa using isClosed
    | dequeue value =>
      simpa using isClosed
    | close =>
      simp
    | drained =>
      simpa using isClosed

theorem not_enqueue_after_close {earlier later : List (Event α)}
    {queue : BoundedQueue α}
    (execution :
      (system α capacity).Execution (earlier ++ .close :: later) queue)
    (value : α) :
    Event.enqueue value ∉ later := by
  intro member
  obtain ⟨between, rest, rfl⟩ := List.append_of_mem member
  rw [← List.cons_append, ← List.append_assoc] at execution
  obtain ⟨before, _, closing, step, _⟩ := execution.split_cons
  have wasClosed : before.closed = true :=
    (closed_iff closing).mpr (by simp)
  cases step
  simp at wasClosed

/--
A closed queue that reports itself drained has handed out everything that
entered before.
-/
theorem dequeued_eq_enqueued_of_drained {earlier later : List (Event α)}
    {queue : BoundedQueue α}
    (execution :
      (system α capacity).Execution (earlier ++ .drained :: later) queue) :
    Event.close ∈ earlier ∧ enqueued earlier = dequeued earlier := by
  obtain ⟨before, _, reached, step, _⟩ := execution.split_cons
  have balanced := enqueued_eq_dequeued_append reached
  have isClosed := closed_iff reached
  cases step
  exact ⟨isClosed.mp rfl, by simpa using balanced⟩

theorem enqueued_of_drained {earlier later : List (Event α)}
    {queue : BoundedQueue α}
    (execution :
      (system α capacity).Execution (earlier ++ .drained :: later) queue) :
    enqueued (earlier ++ .drained :: later) = enqueued earlier := by
  obtain ⟨closes, _⟩ := dequeued_eq_enqueued_of_drained execution
  obtain ⟨before, between, rfl⟩ := List.append_of_mem closes
  have regrouped :
      (before ++ .close :: between) ++ .drained :: later =
        before ++ .close :: (between ++ .drained :: later) := by
    simp
  rw [regrouped] at execution
  have noLater : enqueued later = [] := by
    rw [enqueued, List.filterMap_eq_nil_iff]
    intro event member
    cases event with
    | enqueue value =>
      exact (not_enqueue_after_close execution value
        (by simp [member])).elim
    | _ => rfl
  unfold enqueued at noLater ⊢
  rw [List.filterMap_append, List.filterMap_cons_none rfl, noLater,
    List.append_nil]

end

end BoundedQueue

end Library
