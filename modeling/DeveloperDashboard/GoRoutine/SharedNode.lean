import DeveloperDashboard.Library.Binary64
import DeveloperDashboard.Library.Croak

namespace DeveloperDashboard.GoRoutine

open Library

/-!
# Perl values

The scalars and the referents of the calling interpreter, as far as the shared
graph reads them: which flags a scalar has, what a reference points to, and in
which order a container gives up its contents.  Magic and overloading are left
out.  Capturing a callback, a file handle, a regular expression or a format
either gives the captured thing or fails with a message.
-/

/-- `IV_MIN`. -/
def ivMin : Int :=
  -2 ^ 63

/-- `IV_MAX`. -/
def ivMax : Int :=
  2 ^ 63 - 1

/-- `UV_MAX`. -/
def uvMax : Int :=
  2 ^ 64 - 1

/-- An integer that fits the IV or the UV slot of a scalar. -/
structure PerlInteger where
  value : Int
  lower : ivMin ≤ value
  upper : value ≤ uvMax
  deriving DecidableEq

def PerlInteger.small (value : Nat) (fits : value < 2 ^ 63) :
    PerlInteger where
  value := value
  lower := by
    unfold ivMin
    omega
  upper := by
    unfold uvMax
    omega

theorem int64_ofInt_toInt {value : Int} (lower : ivMin ≤ value)
    (upper : value ≤ ivMax) :
    (Int64.ofInt value).toInt = value := by
  unfold ivMin at lower
  unfold ivMax at upper
  exact Int64.toInt_ofInt_of_le (by omega) (by omega)

/--
A scalar by the one slot that is valid: nothing, the integer, the number, the
string with its UTF-8 flag, or the reference.
-/
inductive Scalar (Addr : Type) where
  | undefValue
  | integer (value : PerlInteger)
  | number (value : Double)
  | string (bytes : List UInt8) (utf8 : Bool)
  | reference (target : Addr)
  deriving DecidableEq

abbrev PlainScalar : Type :=
  Scalar Empty

/-- The slots of a typeglob that are shared graph nodes. -/
inductive GlobSlot where
  | scalar
  | array
  | hash
  | code
  deriving DecidableEq, Repr

/-- What is kept of a referent that has no parts of its own. -/
inductive Captured where
  | code (state : Nat)
  | io (handle : Nat)
  | regexp (source : List UInt8)
  | format (name : List UInt8)
  deriving DecidableEq, Repr

/-- What a reference points to, by its `SvTYPE`. -/
inductive ReferentBody (Addr : Type) where
  | scalar (value : Scalar Addr)
  | array (items : List (Option (Scalar Addr)))
  | hash (entries : List (List UInt8 × Scalar Addr))
  | object (fields : List (Option (Scalar Addr)))
  | glob
      (slots : List (GlobSlot × Scalar Addr))
      (handle : Except String (Option Nat))
  | captured (result : Except String Captured)

structure Referent (Addr : Type) where
  className : Option String
  body : ReferentBody Addr

/-- The calling interpreter: `PERL_VERSION` and the referents it holds. -/
structure Perl (Addr : Type) where
  version : Nat
  heap : Addr → Referent Addr

def ReferentBody.scalars {Addr : Type} :
    ReferentBody Addr → List (Scalar Addr)
  | .scalar value => [value]
  | .array items => items.filterMap id
  | .hash entries => entries.map Prod.snd
  | .object fields => fields.filterMap id
  | .glob slots _ => slots.map Prod.snd
  | .captured _ => []

inductive Perl.Reaches
    {Addr : Type} (perl : Perl Addr) :
    Scalar Addr → Addr → Prop where
  | direct (target : Addr) :
      Perl.Reaches perl (.reference target) target
  | step
      {value : Scalar Addr}
      {container target : Addr} :
      Perl.Reaches perl value container →
      Scalar.reference target ∈ (perl.heap container).body.scalars →
      Perl.Reaches perl value target

theorem Perl.Reaches.of_part {Addr : Type} {perl : Perl Addr}
    {container target : Addr} {part : Scalar Addr}
    (member : part ∈ (perl.heap container).body.scalars)
    (reaches : perl.Reaches part target) :
    perl.Reaches (.reference container) target := by
  induction reaches with
  | direct target =>
    exact .step (.direct container) member
  | step _ inside ih =>
    exact .step (ih member) inside

/-- `I_V`: the integer part of a double, saturating as Perl does. -/
def castIv : Double → Int64
  | .finite value =>
    let whole := if 0 ≤ value then value.floor else value.ceil
    if whole < ivMin then Int64.ofInt ivMin
    else if whole ≤ uvMax then Int64.ofInt whole
    else Int64.ofInt uvMax
  | .infinite negative =>
    if negative then Int64.ofInt ivMin else Int64.ofInt uvMax
  | .nan => 0

/-!
# The shared graph

The process-wide nodes, the depth at which the calling thread holds the
recursive shared mutex, and the steps that the primitives are made of.  A node
is named by its number in the order of allocation and is never freed; a
pointer that may be `NULL` is an `Option`.  A node has the fields of the one
kind it is of, which is what `shared_node_clear` before every change of kind
achieves.  Allocation does not fail.
-/

abbrev NodeId : Type :=
  Nat

def doubleUntil : Nat → Nat → Nat → Nat
  | 0, capacity, _ => capacity
  | fuel + 1, capacity, need =>
    if capacity < need then
      doubleUntil fuel (capacity * 2) need
    else
      capacity

theorem le_doubleUntil (fuel capacity need : Nat) (positive : 0 < capacity)
    (enough : need ≤ capacity + fuel) :
    need ≤ doubleUntil fuel capacity need := by
  induction fuel generalizing capacity with
  | zero =>
    exact enough
  | succ fuel ih =>
    unfold doubleUntil
    split
    · apply ih
      · omega
      · omega
    · next covered =>
        exact Nat.le_of_not_lt covered

def reservedCapacity (capacity need : Nat) : Nat :=
  doubleUntil need (if capacity = 0 then 8 else capacity * 2) need

/--
The slots of an array node: `array_items`, whose length is `array_capacity`,
and `array_size`.
-/
structure SlotArray where
  slots : List (Option NodeId)
  size : Nat
  size_le : size ≤ slots.length
  deriving DecidableEq

namespace SlotArray

def empty : SlotArray where
  slots := []
  size := 0
  size_le := Nat.le_refl 0

/-- `shared_array_reserve`, on the slots alone. -/
def reserved (slots : List (Option NodeId)) (need : Nat) :
    List (Option NodeId) :=
  if slots.length < need then
    slots ++
      List.replicate
        (reservedCapacity slots.length need - slots.length) none
  else
    slots

theorem le_length_reserved (slots : List (Option NodeId)) (need : Nat) :
    need ≤ (reserved slots need).length := by
  unfold reserved
  split
  · have covered :
        need ≤ reservedCapacity slots.length need := by
      apply le_doubleUntil
      · split <;> omega
      · omega
    rw [List.length_append, List.length_replicate]
    omega
  · next covered =>
      exact Nat.le_of_not_lt covered

theorem length_le_reserved (slots : List (Option NodeId)) (need : Nat) :
    slots.length ≤ (reserved slots need).length := by
  unfold reserved
  split <;> simp

theorem filterMap_reserved (slots : List (Option NodeId)) (need : Nat) :
    (reserved slots need).filterMap id = slots.filterMap id := by
  unfold reserved
  split
  · simp [List.filterMap_append]
  · rfl

/-- An array of empty slots, as an import lays it out. -/
def ofSize (size : Nat) : SlotArray where
  slots := reserved [] size
  size := size
  size_le := le_length_reserved [] size

def item (array : SlotArray) (index : Nat) : Option NodeId :=
  if index < array.size then (array.slots[index]?).join else none

def set (array : SlotArray) (index : Nat) (node : Option NodeId) :
    SlotArray where
  slots := array.slots.set index node
  size := array.size
  size_le := by
    rw [List.length_set]
    exact array.size_le

end SlotArray

/-- The kind of a node with the fields that belong to it. -/
inductive SharedBody where
  | undefValue
  | iv (value : Int64)
  | nv (value : Double)
  | pv (bytes : List UInt8) (utf8 : Bool)
  | hash (entries : List (List UInt8 × NodeId))
  | array (items : SlotArray)
  | scalarref (value : Option NodeId)
  | object (fields : SlotArray)
  | glob (slots : List (GlobSlot × NodeId)) (handle : Option Nat)
  | captured (captured : Captured)
  deriving DecidableEq

/-- `shared_node`. -/
structure SharedNode where
  className : Option String
  body : SharedBody
  deriving DecidableEq

/-- A node as `calloc` and `shared_node_clear` leave it. -/
def SharedNode.clear : SharedNode where
  className := none
  body := .undefValue

/-- `n->type >= SHARED_HASH`. -/
def SharedBody.isReference : SharedBody → Bool
  | .undefValue => false
  | .iv _ => false
  | .nv _ => false
  | .pv _ _ => false
  | _ => true

/-- The nodes of the process and the depth of the shared mutex. -/
structure World where
  lockDepth : Nat
  nodes : NodeId → SharedNode
  next : NodeId

namespace World

def empty : World where
  lockDepth := 0
  nodes _ := .clear
  next := 0

def single (body : SharedBody) : World where
  lockDepth := 0
  nodes node := if node = 0 then ⟨none, body⟩ else .clear
  next := 1

def locked (world : World) : World :=
  { world with lockDepth := world.lockDepth + 1 }

def setNode (world : World) (node : NodeId) (contents : SharedNode) : World :=
  { world with nodes := Function.update world.nodes node contents }

def setBody (world : World) (node : NodeId) (body : SharedBody) : World :=
  world.setNode node { world.nodes node with body := body }

def allocate (world : World) : World :=
  { world.setNode world.next .clear with next := world.next + 1 }

@[simp] theorem setNode_nodes_self (world : World) (node : NodeId)
    (contents : SharedNode) :
    (world.setNode node contents).nodes node = contents := by
  simp [setNode]

theorem setNode_nodes_of_ne (world : World) {node other : NodeId}
    (different : other ≠ node) (contents : SharedNode) :
    (world.setNode node contents).nodes other = world.nodes other := by
  simp [setNode, different]

@[simp] theorem setBody_body_self (world : World) (node : NodeId)
    (body : SharedBody) :
    ((world.setBody node body).nodes node).body = body := by
  simp [setBody]

end World

/-- A computation over the shared graph, with the text of a `croak`. -/
abbrev SharedM : Type → Type :=
  Croak String World

/-- `shared_lock`. -/
def sharedLock : SharedM Unit :=
  Croak.modify fun world =>
    { world with lockDepth := world.lockDepth + 1 }

/-- `shared_unlock`. -/
def sharedUnlock : SharedM Unit :=
  Croak.modify fun world =>
    { world with lockDepth := world.lockDepth - 1 }

/-- `shared_node_new`. -/
def sharedNodeNew : SharedM NodeId :=
  fun world => .returned world.next world.allocate

/-- `shared_from_uv`. -/
def sharedFromUv (ptr : Option NodeId) : SharedM NodeId :=
  match ptr with
  | some node => pure node
  | none => Croak.croak "invalid shared value handle"

def sharedBody (node : NodeId) : SharedM SharedBody :=
  fun world => .returned (world.nodes node).body world

/-- Replace the fields of a node, and its kind with them. -/
def sharedSetBody (node : NodeId) (body : SharedBody) : SharedM Unit :=
  Croak.modify fun world => world.setBody node body

/-- `shared_node_clear` and the fields set after it. -/
def sharedSetNode (node : NodeId) (contents : SharedNode) : SharedM Unit :=
  Croak.modify fun world => world.setNode node contents

end DeveloperDashboard.GoRoutine
