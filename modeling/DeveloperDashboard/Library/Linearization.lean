import DeveloperDashboard.Library.Transition

namespace Library

/-!
# Linearization

Calls on a store that overlap, as a trace of their invocations, their returns
and the steps in between.  A linearization is an order of calls in which each
takes effect at once; it holds every call that has returned, and keeps the
order of calls that did not overlap.
-/

inductive CallEvent (Id Call Step : Type) where
  | invoked (id : Id) (call : Call)
  | stepped (step : Step)
  | responded (id : Id)

variable {Id Call Step Store : Type}

/-- The store after calls that take effect one after the other. -/
def performAll (perform : Call → Store → Store) (initial : Store)
    (order : List (Id × Call)) : Store :=
  order.foldl (fun store entry => perform entry.2 store) initial

structure Linearization
    (perform : Call → Store → Store) (initial : Store)
    (trace : List (CallEvent Id Call Step)) (order : List (Id × Call))
    (store : Store) : Prop where
  nodup : (order.map Prod.fst).Nodup
  invoked : ∀ entry ∈ order, .invoked entry.1 entry.2 ∈ trace
  responded : ∀ id, .responded id ∈ trace → id ∈ order.map Prod.fst
  realTime :
    ∀ earlier later id call front back,
      trace = earlier ++ .invoked id call :: later →
      order = front ++ (id, call) :: back →
      ∀ other, .responded other ∈ earlier → other ∈ front.map Prod.fst
  result : performAll perform initial order = store

variable {id : Id}

namespace Linearization

variable {perform : Call → Store → Store} {initial store : Store}
  {trace : List (CallEvent Id Call Step)} {order : List (Id × Call)}

theorem nil :
    Linearization perform initial
      ([] : List (CallEvent Id Call Step)) [] initial where
  nodup := List.nodup_nil
  invoked := by
    intro entry isIn
    cases isIn
  responded := by
    intro id isIn
    cases isIn
  realTime := by
    intro earlier later id call front back whole
    exact absurd whole.symm (by simp)
  result := rfl

section

variable (linear : Linearization perform initial trace order store)

include linear

/-- The event of a longer trace that is not the last one was there before. -/
theorem realTime_snoc
    {event : CallEvent Id Call Step}
    (fresh :
      ∀ id call, event = .invoked id call → (id, call) ∉ order) :
    ∀ earlier later id call front back,
      trace ++ [event] = earlier ++ .invoked id call :: later →
      order = front ++ (id, call) :: back →
      ∀ other, .responded other ∈ earlier → other ∈ front.map Prod.fst := by
  intro earlier later id call front back whole split other isEarlier
  rcases snoc_eq_append_cons whole with
    ⟨-, rfl, -⟩ | ⟨between, rfl, -⟩
  · refine absurd ?_ (fresh id call rfl)
    rw [split]
    simp
  · exact linear.realTime earlier between id call front back rfl split other
      isEarlier

theorem invoke
    {call : Call} (fresh : ∀ other, .invoked id other ∉ trace) :
    Linearization perform initial (trace ++ [.invoked id call]) order
      store where
  nodup := linear.nodup
  invoked := by
    intro entry isIn
    exact List.mem_append_left _ (linear.invoked entry isIn)
  responded := by
    intro other isIn
    rcases List.mem_append.mp isIn with isOld | isNew
    · exact linear.responded other isOld
    · simp at isNew
  realTime := by
    refine linear.realTime_snoc ?_
    intro other otherCall same isIn
    obtain ⟨rfl, rfl⟩ := CallEvent.invoked.inj same
    exact fresh call (linear.invoked _ isIn)
  result := linear.result

theorem step
    (latest : Step) :
    Linearization perform initial (trace ++ [.stepped latest]) order
      store where
  nodup := linear.nodup
  invoked := by
    intro entry isIn
    exact List.mem_append_left _ (linear.invoked entry isIn)
  responded := by
    intro other isIn
    rcases List.mem_append.mp isIn with isOld | isNew
    · exact linear.responded other isOld
    · simp at isNew
  realTime :=
    linear.realTime_snoc fun _ _ same => by cases same
  result := linear.result

/-- A call returns after it has taken effect. -/
theorem respond
    (taken : id ∈ order.map Prod.fst) :
    Linearization perform initial (trace ++ [.responded id]) order
      store where
  nodup := linear.nodup
  invoked := by
    intro entry isIn
    exact List.mem_append_left _ (linear.invoked entry isIn)
  responded := by
    intro other isIn
    rcases List.mem_append.mp isIn with isOld | isNew
    · exact linear.responded other isOld
    · obtain rfl := CallEvent.responded.inj (List.mem_singleton.mp isNew)
      exact taken
  realTime :=
    linear.realTime_snoc fun _ _ same => by cases same
  result := linear.result

/-- A call takes effect: it goes to the end of the order. -/
theorem commit
    {call : Call} (latest : Step) (isInvoked : .invoked id call ∈ trace)
    (pending : id ∉ order.map Prod.fst) :
    Linearization perform initial (trace ++ [.stepped latest])
      (order ++ [(id, call)]) (perform call store) where
  nodup := by
    rw [List.map_append, List.nodup_append]
    refine ⟨linear.nodup, by simp, ?_⟩
    rintro one isOld other isNew rfl
    obtain rfl : one = id := by simpa using isNew
    exact pending isOld
  invoked := by
    intro entry isIn
    refine List.mem_append_left _ ?_
    rcases List.mem_append.mp isIn with isOld | isNew
    · exact linear.invoked entry isOld
    · rw [List.mem_singleton.mp isNew]
      exact isInvoked
  responded := by
    intro other isIn
    rw [List.map_append]
    refine List.mem_append_left _ ?_
    rcases List.mem_append.mp isIn with isOld | isNew
    · exact linear.responded other isOld
    · simp at isNew
  realTime := by
    intro earlier later other otherCall front back whole split responded
      isEarlier
    have isTrace :
        ∃ between, trace = earlier ++ .invoked other otherCall :: between := by
      rcases snoc_eq_append_cons whole with ⟨-, same, -⟩ | ⟨between, same, -⟩
      · cases same
      · exact ⟨between, same⟩
    obtain ⟨between, rfl⟩ := isTrace
    rcases snoc_eq_append_cons split with
      ⟨rfl, -, -⟩ | ⟨rest, rfl, -⟩
    · refine linear.responded responded ?_
      exact List.mem_append_left _ isEarlier
    · exact linear.realTime earlier between other otherCall front rest rfl rfl
        responded isEarlier
  result := by
    unfold performAll
    rw [List.foldl_append, List.foldl_cons, List.foldl_nil]
    exact congrArg (perform call) linear.result

end

end Linearization

end Library
