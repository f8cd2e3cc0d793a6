import DeveloperDashboard.Indicator.StoreCalls

namespace DeveloperDashboard.Indicator

open Library Perl

/-!
# The order of calls

Each call takes effect at one of its steps: a write at its rename, a call that
writes nothing when it is done, and the removal when it leaves the writable
layer.  What a removal has yet to unlink counts as unlinked from then on.
-/

namespace CallPhase

def clearing : CallPhase → Option Nat
  | .visiting layer => some layer
  | .waiting layer => some layer
  | .holding layer => some layer
  | .unlinking layer => some layer
  | _ => none

def lockedLayer : CallPhase → Option Nat
  | .rereading _ => some 0
  | .replacing _ _ => some 0
  | .holding layer => some layer
  | .unlinking layer => some layer
  | _ => none

def isCommitted : CallPhase → Bool
  | .visiting layer => decide (layer ≠ 0)
  | .waiting layer => decide (layer ≠ 0)
  | .holding layer => decide (layer ≠ 0)
  | .unlinking layer => decide (layer ≠ 0)
  | .finished => true
  | .returned => true
  | _ => false

end CallPhase

namespace CallsState

/-- A removal has left the writable layer and not yet an inherited one. -/
def IsClearing (state : CallsState) (layer : Nat) : Prop :=
  ∃ id call phase reached,
    state.calls id = some (call, phase) ∧
      phase.clearing = some reached ∧ 1 ≤ reached ∧ reached ≤ layer

/-- A retired record that a running removal has yet to unlink. -/
def IsDoomed (state : CallsState) (layer : Nat) : Prop :=
  (state.records layer).any isLegacyCoreDockerIndicator = true ∧
    state.IsClearing layer

open Classical in
/-- The records, without those that a running removal has yet to unlink. -/
noncomputable def settled (state : CallsState) : LayerRecords := fun layer =>
  if state.IsDoomed layer then none else state.records layer

end CallsState

namespace IndicatorPlace

variable (place : IndicatorPlace)

/-- What a call decides from its reads still holds at its last step. -/
def IsTimely (state : CallsState) : IndicatorCall → CallPhase → Prop
  | .setIndicatorIfChanged args, .reading layer =>
    ∀ item, layer < place.layers → state.records layer = some item →
      place.isUnchanged args item = true →
        (nearestRecord place.layers state.settled).any
          (place.isUnchanged args) = true
  | .markStale _ _, .reading layer =>
    layer = place.layers → nearestRecord place.layers state.settled = none
  | .setIndicatorIfChanged args, .replacing _ _ =>
    (nearestRecord place.layers state.settled).any
      (place.isUnchanged args) = false
  | .markStale _ _, .replacing write _ =>
    ∀ layer item, write.source = some (layer, item) →
      layer = 0 ∧ state.records 0 = some item
  | _, _ => True

def StaysTimely (state : CallsState) : IndicatorEvent → Prop
  | .stepped step =>
    ∀ call phase, state.calls step.id = some (call, phase) →
      place.IsTimely state call phase
  | _ => True

def IsWriteOf (write : PendingWrite) : IndicatorCall → Prop
  | .setIndicator args => write = ⟨args, none⟩
  | .setIndicatorIfChanged args => write = ⟨args, none⟩
  | .markStale status now =>
    ∃ layer item, write = ⟨staleArgs item status now, some (layer, item)⟩
  | .removeLegacyCoreDocker => False

/-- A call that goes through the layers before it writes. -/
def IsReader : IndicatorCall → Prop
  | .setIndicatorIfChanged _ => True
  | .markStale _ _ => True
  | _ => False

def IsPhaseOf (call : IndicatorCall) : CallPhase → Prop
  | .reading layer => IsReader call ∧ layer ≤ place.layers
  | .locking write => IsWriteOf write call
  | .rereading write => IsWriteOf write call
  | .replacing write _ => IsWriteOf write call
  | .visiting layer => call = .removeLegacyCoreDocker ∧ layer ≤ place.layers
  | .waiting layer => call = .removeLegacyCoreDocker ∧ layer < place.layers
  | .holding layer => call = .removeLegacyCoreDocker ∧ layer < place.layers
  | .unlinking layer => call = .removeLegacyCoreDocker ∧ layer < place.layers
  | _ => True

structure IsCallSound (trace : List IndicatorEvent)
    (order : List (Nat × IndicatorCall)) (state : CallsState) (id : Nat)
    (call : IndicatorCall) (phase : CallPhase) : Prop where
  invoked : .invoked id call ∈ trace
  committed : id ∈ order.map Prod.fst ↔ phase.isCommitted = true
  suits : place.IsPhaseOf call phase
  lock :
    ∀ layer, phase.lockedLayer = some layer → state.locks layer = some id
  existing :
    ∀ write found, phase = .replacing write found → state.records 0 = found
  legacy :
    ∀ layer, phase = .unlinking layer →
      (state.records layer).any isLegacyCoreDockerIndicator = true

/-- The store of the calls in order, and how far each call has come. -/
structure CallInvariant (initial : LayerRecords)
    (trace : List IndicatorEvent) (state : CallsState)
    (order : List (Nat × IndicatorCall)) (store : LayerRecords) : Prop where
  linear : Linearization place.perform initial trace order store
  fresh : ∀ id, state.calls id = none → ∀ call, .invoked id call ∉ trace
  sound :
    ∀ id call phase, state.calls id = some (call, phase) →
      place.IsCallSound trace order state id call phase
  settled :
    ∀ layer, layer < place.layers → store layer = state.settled layer
  localizesNothing : LocalizesNothing trace

end IndicatorPlace

/-- A phase of a removal that has not left an inherited layer. -/
def CallPhase.Clears (phase : CallPhase) (layer : Nat) : Prop :=
  ∃ reached, phase.clearing = some reached ∧ 1 ≤ reached ∧ reached ≤ layer

variable {layer : Nat}

namespace CallsState

variable {state next : CallsState} {id : Nat} {call : IndicatorCall}
  {phase after : CallPhase}

def OtherClears (state : CallsState) (id layer : Nat) : Prop :=
  ∃ other call phase,
    other ≠ id ∧ state.calls other = some (call, phase) ∧ phase.Clears layer

theorem isClearing_iff
    (isCall : state.calls id = some (call, phase)) (layer : Nat) :
    state.IsClearing layer ↔
      state.OtherClears id layer ∨ phase.Clears layer := by
  constructor
  · rintro ⟨other, otherCall, otherPhase, reached, found, clears⟩
    by_cases same : other = id
    · subst same
      obtain ⟨-, rfl⟩ := Prod.mk.inj (Option.some.inj (isCall.symm.trans found))
      exact Or.inr ⟨reached, clears⟩
    · exact Or.inl ⟨other, otherCall, otherPhase, same, found, reached, clears⟩
  · rintro (⟨other, otherCall, otherPhase, -, found, reached, clears⟩ |
      ⟨reached, clears⟩)
    · exact ⟨other, otherCall, otherPhase, reached, found, clears⟩
    · exact ⟨id, call, phase, reached, isCall, clears⟩

theorem otherClears_congr
    (nextCalls :
      next.calls = Function.update state.calls id (some (call, after)))
    (layer : Nat) :
    next.OtherClears id layer ↔ state.OtherClears id layer := by
  unfold OtherClears
  rw [nextCalls]
  constructor
  · rintro ⟨other, otherCall, otherPhase, different, found, clears⟩
    rw [Function.update_of_ne different] at found
    exact ⟨other, otherCall, otherPhase, different, found, clears⟩
  · rintro ⟨other, otherCall, otherPhase, different, found, clears⟩
    refine ⟨other, otherCall, otherPhase, different, ?_, clears⟩
    rw [Function.update_of_ne different]
    exact found

theorem settled_congr_of_iff
    (kept : next.records layer = state.records layer)
    (clears :
      (state.records layer).any isLegacyCoreDockerIndicator = true →
        (next.IsClearing layer ↔ state.IsClearing layer)) :
    next.settled layer = state.settled layer := by
  have same : next.IsDoomed layer ↔ state.IsDoomed layer := by
    unfold IsDoomed
    rw [kept]
    constructor
    · rintro ⟨legacy, clearing⟩
      exact ⟨legacy, (clears legacy).mp clearing⟩
    · rintro ⟨legacy, clearing⟩
      exact ⟨legacy, (clears legacy).mpr clearing⟩
  unfold settled
  by_cases doomed : state.IsDoomed layer
  · rw [if_pos doomed, if_pos (same.mpr doomed)]
  · rw [if_neg doomed, if_neg fun other => doomed (same.mp other), kept]

theorem settled_congr (isCall : state.calls id = some (call, phase))
    (nextCalls :
      next.calls = Function.update state.calls id (some (call, after)))
    (kept : next.records layer = state.records layer)
    (clears :
      (state.records layer).any isLegacyCoreDockerIndicator = true →
        (after.Clears layer ↔ phase.Clears layer)) :
    next.settled layer = state.settled layer := by
  have nextCall : next.calls id = some (call, after) := by
    rw [nextCalls, Function.update_self]
  refine settled_congr_of_iff kept ?_
  intro legacy
  rw [isClearing_iff nextCall, isClearing_iff isCall,
    otherClears_congr nextCalls]
  exact or_congr_right (clears legacy)

theorem settled_of_unused (unused : state.calls id = none)
    (nextCalls :
      next.calls = Function.update state.calls id (some (call, after)))
    (kept : next.records layer = state.records layer)
    (clears : ¬after.Clears layer) :
    next.settled layer = state.settled layer := by
  have nextCall : next.calls id = some (call, after) := by
    rw [nextCalls, Function.update_self]
  refine settled_congr_of_iff kept ?_
  intro _
  rw [isClearing_iff nextCall, otherClears_congr nextCalls]
  constructor
  · rintro (⟨other, otherCall, otherPhase, -, found, reached, clears⟩ | own)
    · exact ⟨other, otherCall, otherPhase, reached, found, clears⟩
    · exact absurd own clears
  · rintro ⟨other, otherCall, otherPhase, reached, found, clears⟩
    refine Or.inl ⟨other, otherCall, otherPhase, ?_, found, reached, clears⟩
    rintro rfl
    rw [unused] at found
    cases found

theorem settled_zero (state : CallsState) :
    state.settled 0 = state.records 0 := by
  unfold settled
  rw [if_neg]
  rintro ⟨-, id, call, phase, reached, -, -, positive, atMost⟩
  omega

end CallsState

theorem nearestRecord_congr {layers : Nat} {one other : LayerRecords}
    (same : ∀ layer, layer < layers → one layer = other layer) :
    nearestRecord layers one = nearestRecord layers other := by
  unfold nearestRecord
  induction layers with
  | zero => rfl
  | succ layers ih =>
    rw [List.range_succ, List.findSome?_append, List.findSome?_append,
      ih fun layer before => same layer (by omega),
      List.findSome?_cons, List.findSome?_cons, same layers (by omega),
      List.findSome?_nil, List.findSome?_nil]

theorem nearestRecord_of_zero
    {place : IndicatorPlace} {records : LayerRecords} {item : Record}
    (found : records 0 = some item) :
    nearestRecord place.layers records = some item := by
  unfold nearestRecord IndicatorPlace.layers
  rw [List.range_succ_eq_map, List.findSome?_cons, found]

namespace IndicatorPlace

variable {place : IndicatorPlace}

/-- What is known of a call survives the steps of others. -/
theorem IsCallSound.other {trace longer : List IndicatorEvent}
    {order newOrder : List (Nat × IndicatorCall)} {state next : CallsState}
    {other : Nat} {call : IndicatorCall} {phase : CallPhase}
    (sound : place.IsCallSound trace order state other call phase)
    (before : ∀ event ∈ trace, event ∈ longer)
    (order' :
      other ∈ newOrder.map Prod.fst ↔ other ∈ order.map Prod.fst)
    (locks :
      ∀ layer, state.locks layer = some other →
        next.locks layer = some other)
    (records :
      ∀ layer, state.locks layer = some other →
        next.records layer = state.records layer) :
    place.IsCallSound longer newOrder next other call phase where
  invoked := before _ sound.invoked
  committed := order'.trans sound.committed
  suits := sound.suits
  lock := fun layer isLocked => locks layer (sound.lock layer isLocked)
  existing := by
    rintro write found rfl
    rw [records 0 (sound.lock 0 rfl)]
    exact sound.existing write found rfl
  legacy := by
    rintro layer rfl
    rw [records layer (sound.lock layer rfl)]
    exact sound.legacy layer rfl

namespace CallInvariant

variable {initial store : LayerRecords} {trace : List IndicatorEvent}
  {state next : CallsState} {order : List (Nat × IndicatorCall)}
  {id : Nat} {call : IndicatorCall} {phase after : CallPhase}

theorem extend
    (invariant : place.CallInvariant initial trace state order store)
    (nextCalls :
      next.calls = Function.update state.calls id (some (call, after)))
    {latest : IndicatorEvent} {newOrder : List (Nat × IndicatorCall)}
    {newStore : LayerRecords}
    (linear :
      Linearization place.perform initial (trace ++ [latest]) newOrder
        newStore)
    (ofCall : ∀ other otherCall, latest = .invoked other otherCall → other = id)
    (others :
      ∀ other, other ≠ id →
        (other ∈ newOrder.map Prod.fst ↔ other ∈ order.map Prod.fst))
    (locks :
      ∀ other, other ≠ id → ∀ layer, state.locks layer = some other →
        next.locks layer = some other ∧
          next.records layer = state.records layer)
    (own :
      place.IsCallSound (trace ++ [latest]) newOrder next id call after)
    (settled :
      ∀ layer, layer < place.layers →
        newStore layer = next.settled layer)
    (localizes :
      ∀ other layer, latest = .stepped (.markedStale other layer) →
        layer = 0) :
    place.CallInvariant initial (trace ++ [latest]) next newOrder
      newStore where
  linear := linear
  fresh := by
    intro other unused otherCall isIn
    rw [nextCalls] at unused
    by_cases same : other = id
    · rw [same, Function.update_self] at unused
      cases unused
    · rw [Function.update_of_ne same] at unused
      rcases List.mem_append.mp isIn with isOld | isNew
      · exact invariant.fresh other unused otherCall isOld
      · exact same (ofCall other otherCall (List.mem_singleton.mp isNew).symm)
  sound := by
    intro other otherCall otherPhase found
    rw [nextCalls] at found
    by_cases same : other = id
    · rw [same, Function.update_self] at found
      obtain ⟨rfl, rfl⟩ := Prod.mk.inj (Option.some.inj found)
      rw [same]
      exact own
    · rw [Function.update_of_ne same] at found
      refine (invariant.sound other otherCall otherPhase found).other
        (fun event isIn => List.mem_append_left _ isIn) (others other same)
        ?_ ?_
      · exact fun layer isLocked => (locks other same layer isLocked).1
      · exact fun layer isLocked => (locks other same layer isLocked).2
  settled := settled
  localizesNothing := by
    intro other layer isIn
    rcases List.mem_append.mp isIn with isOld | isNew
    · exact invariant.localizesNothing other layer isOld
    · exact localizes other layer (List.mem_singleton.mp isNew).symm

/-- A step that changes no record and at which the call takes no effect. -/
theorem quiet
    (invariant : place.CallInvariant initial trace state order store)
    (isCall : state.calls id = some (call, phase))
    (nextCalls :
      next.calls = Function.update state.calls id (some (call, after)))
    (records : next.records = state.records)
    (locks :
      ∀ other, other ≠ id → ∀ layer, state.locks layer = some other →
        next.locks layer = some other)
    (committed : after.isCommitted = phase.isCommitted)
    (clears :
      ∀ layer, layer < place.layers →
        (state.records layer).any isLegacyCoreDockerIndicator = true →
          (after.Clears layer ↔ phase.Clears layer))
    (suits : place.IsPhaseOf call after)
    (lock :
      ∀ layer, after.lockedLayer = some layer → next.locks layer = some id)
    (existing :
      ∀ write found, after = .replacing write found →
        state.records 0 = found)
    (legacy :
      ∀ layer, after = .unlinking layer →
        (state.records layer).any isLegacyCoreDockerIndicator = true) :
    place.CallInvariant initial (trace ++ [.stepped (.advanced id)]) next
      order store := by
  have sound := invariant.sound id call phase isCall
  refine invariant.extend nextCalls
    (invariant.linear.step (.advanced id)) (by simp) (fun _ _ => Iff.rfl)
    ?_ ?_ ?_ ?_
  · intro other different layer isLocked
    exact ⟨locks other different layer isLocked, congrFun records layer⟩
  · refine ⟨List.mem_append_left _ sound.invoked, ?_, suits, lock, ?_, ?_⟩
    · rw [committed]
      exact sound.committed
    · rw [records]
      exact existing
    · rw [records]
      exact legacy
  · intro layer isLayer
    rw [invariant.settled layer isLayer]
    exact (CallsState.settled_congr isCall nextCalls (congrFun records layer)
      (clears layer isLayer)).symm
  · intro other layer same
    cases same

theorem commit
    (invariant : place.CallInvariant initial trace state order store)
    (isCall : state.calls id = some (call, phase))
    (pending : phase.isCommitted = false)
    (nextCalls :
      next.calls = Function.update state.calls id (some (call, after)))
    (step : CallStep)
    (locks :
      ∀ other, other ≠ id → ∀ layer, state.locks layer = some other →
        next.locks layer = some other ∧
          next.records layer = state.records layer)
    (committed : after.isCommitted = true)
    (suits : place.IsPhaseOf call after)
    (unlocked : after.lockedLayer = none)
    (settled :
      ∀ layer, layer < place.layers →
        place.perform call store layer = next.settled layer)
    (localizes : ∀ other layer, step = .markedStale other layer → layer = 0) :
    place.CallInvariant initial (trace ++ [.stepped step]) next
      (order ++ [(id, call)]) (place.perform call store) := by
  have sound := invariant.sound id call phase isCall
  have notYet : id ∉ order.map Prod.fst := by
    rw [sound.committed, pending]
    exact Bool.false_ne_true
  refine invariant.extend nextCalls
    (invariant.linear.commit step sound.invoked notYet) (by simp) ?_ locks ?_
    settled fun other layer same =>
      localizes other layer (CallEvent.stepped.inj same)
  · intro other different
    simp [different]
  · refine ⟨List.mem_append_left _ sound.invoked, ?_, suits, ?_, ?_, ?_⟩
    · simp [committed]
    · intro layer isLocked
      rw [unlocked] at isLocked
      cases isLocked
    · rintro write found rfl
      cases unlocked
    · rintro layer rfl
      cases unlocked

end CallInvariant

end IndicatorPlace

end DeveloperDashboard.Indicator
