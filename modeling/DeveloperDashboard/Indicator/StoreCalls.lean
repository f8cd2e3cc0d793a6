import DeveloperDashboard.Indicator.IndicatorStore
import DeveloperDashboard.Library.Linearization

namespace DeveloperDashboard.Indicator

open Library Perl

/-!
# Calls on one indicator

`set_indicator` reads and replaces a record of the writable layer under the
lock of its directory.  `mark_stale` and `_set_indicator_if_changed` first go
through the layers without any lock, and the removal of the retired Docker
record locks one layer after the other.
-/

/-- The records of one indicator by layers; the first one is written to. -/
abbrev LayerRecords :=
  Nat → Option Record

/-- The record of the nearest layer: `_get_indicator_from_roots`. -/
def nearestRecord (layers : Nat) (records : LayerRecords) : Option Record :=
  (List.range layers).findSome? records

def legacyCoreDockerFields : List (Field × Text) :=
  [(.name, "docker".toList), (.label, "Docker".toList),
    (.alias_, "🐳".toList), (.icon, "🐳".toList), (.priority, "20".toList),
    (.promptVisible, "1".toList)]

/-- `_is_legacy_core_docker_indicator`. -/
def isLegacyCoreDockerIndicator (record : Record) : Bool :=
  !record.truthy .managedByCollector &&
    (legacyCoreDockerFields.all fun expected =>
      record.defines expected.1 &&
        decide (record.text expected.1 = expected.2)) &&
    (decide (record.trueText .pageStatusIcon = "&#x1F7E2;".toList) ||
      decide (record.trueText .pageStatusIcon = "&#x1F534;".toList)) &&
    !(record .collectorName).isSome && !(record .configuredLabel).isSome &&
    !(record .configuredAlias).isSome && !(record .configuredIcon).isSome

/-- What `set_indicator` is given, and the time at which it writes. -/
structure SetArgs where
  data : Record
  preserve : List Field
  now : Scalar

/-- The record that `mark_stale` makes of the one that it has read. -/
def staleRecord (item : Record) (status : Option Scalar) : Record
  | .stale => some (.number ['1'])
  | .status =>
    if status.any fun status => status.text?.isSome then status
    else item .status
  | field => item field

/-- What `mark_stale` gives to `set_indicator`. -/
def staleArgs (item : Record) (status : Option Scalar) (now : Scalar) :
    SetArgs :=
  ⟨staleRecord item status, [], now⟩

inductive IndicatorCall where
  | setIndicator (args : SetArgs)
  | setIndicatorIfChanged (args : SetArgs)
  | markStale (status : Option Scalar) (now : Scalar)
  | removeLegacyCoreDocker

/-- The name of the indicator, and how many layers there are. -/
structure IndicatorPlace where
  name : Text
  inherited : Nat

namespace IndicatorPlace

variable (place : IndicatorPlace)

def layers : Nat :=
  place.inherited + 1

/-- The record that `set_indicator` writes over another. -/
def saved (args : SetArgs) (existing : Option Record) : Record :=
  savedRecord (.string place.name) args.now args.preserve
    (existing.getD Record.empty) args.data

/-- A record is the one that would be written: `_indicator_matches`. -/
def isUnchanged (args : SetArgs) (record : Record) : Bool :=
  indicatorMatches record fun field =>
    if field = .name then some (.string place.name) else args.data field

/-- `set_indicator`. -/
def setIndicator (args : SetArgs) (records : LayerRecords) : LayerRecords :=
  Function.update records 0 (some (place.saved args (records 0)))

def perform (call : IndicatorCall) (records : LayerRecords) : LayerRecords :=
  match call with
  | .setIndicator args => place.setIndicator args records
  | .setIndicatorIfChanged args =>
    if (nearestRecord place.layers records).any (place.isUnchanged args) then
      records
    else place.setIndicator args records
  | .markStale status now =>
    match nearestRecord place.layers records with
    | none => records
    | some item => place.setIndicator (staleArgs item status now) records
  | .removeLegacyCoreDocker => fun layer =>
    if layer < place.layers then
      (records layer).filter fun record =>
        !isLegacyCoreDockerIndicator record
    else records layer

end IndicatorPlace

/-- A record that is to be written, and the one of `mark_stale`, with its
layer, that it has been made from. -/
structure PendingWrite where
  args : SetArgs
  source : Option (Nat × Record)

inductive CallPhase where
  /-- `get_indicator` reads the record of a layer -/
  | reading (layer : Nat)
  | locking (write : PendingWrite)
  | rereading (write : PendingWrite)
  | replacing (write : PendingWrite) (existing : Option Record)
  | visiting (layer : Nat)
  | waiting (layer : Nat)
  | holding (layer : Nat)
  | unlinking (layer : Nat)
  | finished
  | returned

/-- The records and their locks, and the calls by their ids. -/
structure CallsState where
  records : LayerRecords
  locks : Nat → Option Nat
  calls : Nat → Option (IndicatorCall × CallPhase)

/-- A step of a call; the rename of `mark_stale` has read a layer. -/
inductive CallStep where
  | advanced (id : Nat)
  | markedStale (id layer : Nat)

def CallStep.id : CallStep → Nat
  | advanced id => id
  | markedStale id _ => id

abbrev IndicatorEvent :=
  CallEvent Nat IndicatorCall CallStep

/-- What a process does: it calls, goes on, or takes the result. -/
inductive CallInput where
  | invoke (id : Nat) (call : IndicatorCall)
  | advance (id : Nat)
  | respond (id : Nat)

namespace CallsState

variable (state : CallsState)

def moved (id : Nat) (call : IndicatorCall) (phase : CallPhase) : CallsState :=
  { state with calls := Function.update state.calls id (some (call, phase)) }

def locked (id layer : Nat) : CallsState :=
  { state with locks := Function.update state.locks layer (some id) }

def unlocked (layer : Nat) : CallsState :=
  { state with locks := Function.update state.locks layer none }

def stored (layer : Nat) (record : Option Record) : CallsState :=
  { state with records := Function.update state.records layer record }

end CallsState

namespace IndicatorPlace

variable (place : IndicatorPlace)

def firstPhase : IndicatorCall → CallPhase
  | .setIndicator args => .locking ⟨args, none⟩
  | .setIndicatorIfChanged _ => .reading 0
  | .markStale _ _ => .reading 0
  | .removeLegacyCoreDocker => .visiting 0

def phaseOfFound (call : IndicatorCall) (layer : Nat) (item : Record) :
    CallPhase :=
  match call with
  | .setIndicatorIfChanged args =>
    if place.isUnchanged args item then .finished
    else .locking ⟨args, none⟩
  | .markStale status now =>
    .locking ⟨staleArgs item status now, some (layer, item)⟩
  | _ => .finished

def phaseOfMissing : IndicatorCall → CallPhase
  | .setIndicatorIfChanged args => .locking ⟨args, none⟩
  | _ => .finished

def renameStep (id : Nat) (write : PendingWrite) : CallStep :=
  match write.source with
  | some source => .markedStale id source.1
  | none => .advanced id

/-- The next step of a call, unless it waits for a lock or is done. -/
def advance (state : CallsState) (id : Nat) (call : IndicatorCall) :
    CallPhase → Option (CallStep × CallsState)
  | .reading layer =>
    some (.advanced id, state.moved id call
        (if layer < place.layers then
          match state.records layer with
          | some item => place.phaseOfFound call layer item
          | none => .reading (layer + 1)
        else phaseOfMissing call))
  | .locking write =>
    if state.locks 0 = none then
      some (.advanced id,
        (state.locked id 0).moved id call (.rereading write))
    else none
  | .rereading write =>
    some (.advanced id,
      state.moved id call (.replacing write (state.records 0)))
  | .replacing write existing =>
    some (renameStep id write,
      ((state.stored 0 (some (place.saved write.args existing))).unlocked
        0).moved id call .finished)
  | .visiting layer =>
    some (.advanced id, state.moved id call
        (if layer < place.layers then
          if (state.records layer).isNone then .visiting (layer + 1)
          else .waiting layer
        else .finished))
  | .waiting layer =>
    if state.locks layer = none then
      some (.advanced id,
        (state.locked id layer).moved id call (.holding layer))
    else none
  | .holding layer =>
    some (.advanced id,
      if (state.records layer).any isLegacyCoreDockerIndicator then
        state.moved id call (.unlinking layer)
      else (state.unlocked layer).moved id call (.visiting (layer + 1)))
  | .unlinking layer =>
    some (.advanced id,
      ((state.stored layer none).unlocked layer).moved id call
        (.visiting (layer + 1)))
  | .finished => none
  | .returned => none

def concerns : IndicatorCall → Bool
  | .removeLegacyCoreDocker => decide (place.name = "docker".toList)
  | _ => true

/-- One step, under an id that is not used twice. -/
def next? (state : CallsState) :
    CallInput → Option (IndicatorEvent × CallsState)
  | .invoke id call =>
    if (state.calls id).isNone ∧ place.concerns call then
      some (.invoked id call, state.moved id call (firstPhase call))
    else none
  | .advance id =>
    match state.calls id with
    | none => none
    | some (call, phase) =>
      (place.advance state id call phase).map fun came =>
        (.stepped came.1, came.2)
  | .respond id =>
    match state.calls id with
    | some (call, .finished) =>
      some (.responded id, state.moved id call .returned)
    | _ => none

/-- The calls of any number of processes, from given records. -/
def callSystem (initial : LayerRecords) :
    TransitionSystem CallsState IndicatorEvent :=
  TransitionSystem.ofNext
    (fun state => state = ⟨initial, fun _ => none, fun _ => none⟩)
    place.next?

end IndicatorPlace

/-- The record of the writable layer is that of calls one after the other. -/
def IsLinearizable (place : IndicatorPlace) (initial : LayerRecords)
    (trace : List IndicatorEvent) (state : CallsState) : Prop :=
  ∃ order store,
    Linearization place.perform initial trace order store ∧
      state.records 0 = store 0

/-- No record of an inherited layer has been marked in the writable one. -/
def LocalizesNothing (trace : List IndicatorEvent) : Prop :=
  ∀ id layer, .stepped (.markedStale id layer) ∈ trace → layer = 0

structure LosesNothing (place : IndicatorPlace) (initial : LayerRecords)
    (trace : List IndicatorEvent) (state : CallsState) : Prop where
  linearizable : IsLinearizable place initial trace state
  localizesNothing : LocalizesNothing trace

end DeveloperDashboard.Indicator
