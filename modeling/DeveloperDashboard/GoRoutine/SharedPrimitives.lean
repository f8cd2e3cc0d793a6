import DeveloperDashboard.GoRoutine.SharedImport
import DeveloperDashboard.GoRoutine.SharedScalar

namespace DeveloperDashboard.GoRoutine

open Library

/-!
# The primitives of shared hashes and arrays

The native functions that the tied classes call, one definition each.  A
primitive holds the shared mutex from its first step to its last; where the
source unlocks before it croaks, so does the model.  A key is given by its
bytes, which the primitive takes by `SvPV` before it locks.
-/

variable {Addr : Type}

namespace SlotArray

/-- The size raised to a need, the slots reserved for it. -/
def covering (array : SlotArray) (need : Nat) : SlotArray where
  slots := reserved array.slots need
  size := max array.size need
  size_le :=
    max_le (array.size_le.trans (length_le_reserved array.slots need))
      (le_length_reserved array.slots need)

def push (array : SlotArray) (node : NodeId) : SlotArray where
  slots :=
    (reserved array.slots (array.size + 1)).set array.size (some node)
  size := array.size + 1
  size_le := by
    rw [List.length_set]
    exact le_length_reserved array.slots (array.size + 1)

def unshift (array : SlotArray) (node : NodeId) : SlotArray where
  slots :=
    some node :: array.slots.take array.size ++
      (reserved array.slots (array.size + 1)).drop (array.size + 1)
  size := array.size + 1
  size_le := by
    have covered := array.size_le
    simp
    omega

/-- The last slot emptied and the size lowered. -/
def pop (array : SlotArray) : SlotArray where
  slots := array.slots.set (array.size - 1) none
  size := array.size - 1
  size_le := by
    rw [List.length_set]
    exact (Nat.sub_le _ _).trans array.size_le

/-- The slots moved down by one and the last of them emptied. -/
def shift (array : SlotArray) : SlotArray where
  slots :=
    (array.slots.take array.size).tail ++
      none :: array.slots.drop array.size
  size := array.size - 1
  size_le := by
    have covered := array.size_le
    simp
    omega

def clear (array : SlotArray) : SlotArray where
  slots := List.replicate array.slots.length none
  size := 0
  size_le := Nat.zero_le _

/-- Another size; the slots that a growth adds are emptied. -/
def resize (array : SlotArray) (newSize : Nat) : SlotArray where
  slots :=
    if array.size < newSize then
      (reserved array.slots newSize).take array.size ++
        List.replicate (newSize - array.size) none ++
          (reserved array.slots newSize).drop newSize
    else
      reserved array.slots newSize
  size := newSize
  size_le := by
    have covered := le_length_reserved array.slots newSize
    have kept := length_le_reserved array.slots newSize
    have bound := array.size_le
    split
    · simp
      omega
    · exact covered

end SlotArray

def SharedBody.entries : SharedBody → List (List UInt8 × NodeId)
  | .hash entries => entries
  | _ => []

def lookupEntry (entries : List (List UInt8 × NodeId)) (key : List UInt8) :
    Option NodeId :=
  (entries.find? fun entry => decide (entry.1 = key)).map Prod.snd

/-- `shared_hash_find`. -/
def sharedHashFind (n : NodeId) (key : List UInt8) :
    SharedM (Option Nat) := do
  let body ← sharedBody n
  match body with
  | .hash entries =>
    pure (entries.findIdx? fun entry => decide (entry.1 = key))
  | _ => Croak.croak "shared value is not a hash"

def sharedHashEntry (n : NodeId) (index : Option Nat) :
    SharedM (Option NodeId) := do
  let body ← sharedBody n
  pure (index.bind fun index =>
    (body.entries[index]?).map Prod.snd)

/-- `shared_hash_get_node`. -/
def sharedHashGetNode (n : NodeId) (key : List UInt8) :
    SharedM (Option NodeId) := do
  let index ← sharedHashFind n key
  sharedHashEntry n index

def sharedHashAppend (n : NodeId) (key : List UInt8) (child : NodeId) :
    SharedM Unit := do
  let body ← sharedBody n
  sharedSetBody n (.hash (body.entries ++ [(key, child)]))

/-- `shared_hash_ensure_node`. -/
def sharedHashEnsureNode (n : NodeId) (key : List UInt8) :
    SharedM NodeId := do
  let existing ← sharedHashGetNode n key
  match existing with
  | some child => pure child
  | none => do
      let child ← sharedNodeNew
      sharedHashAppend n key child
      pure child

/-- `_shared_hash_fetch_ptr`. -/
def sharedHashFetchPtr (ptr : Option NodeId) (key : List UInt8) :
    SharedM (Option NodeId) := do
  sharedLock
  let n ← sharedFromUv ptr
  let child ← sharedHashGetNode n key
  sharedUnlock
  pure child

/-- `_shared_hash_exists`. -/
def sharedHashExists (ptr : Option NodeId) (key : List UInt8) :
    SharedM Bool := do
  sharedLock
  let n ← sharedFromUv ptr
  let child ← sharedHashGetNode n key
  sharedUnlock
  pure child.isSome

/-- `_shared_hash_store`. -/
def sharedHashStore [DecidableEq Addr] [Fintype Addr] (perl : Perl Addr)
    (ptr : Option NodeId) (key : List UInt8) (value : Scalar Addr) :
    SharedM Unit := do
  sharedLock
  let n ← sharedFromUv ptr
  let child ← sharedHashEnsureNode n key
  sharedImportInto perl child value
  sharedUnlock

/-- Write a child over the entry at an index, or into a new entry. -/
def sharedHashPut (n : NodeId) (key : List UInt8) (index : Option Nat)
    (child : NodeId) :
    SharedM Unit :=
  match index with
  | some index => do
      let body ← sharedBody n
      sharedSetBody n
        (.hash (body.entries.modify index fun entry => (entry.1, child)))
  | none => sharedHashAppend n key child

/-- `_shared_hash_store_ptr`. -/
def sharedHashStorePtr (ptr : Option NodeId) (key : List UInt8)
    (childPtr : Option NodeId) :
    SharedM Unit := do
  sharedLock
  let n ← sharedFromUv ptr
  let child ← sharedFromUv childPtr
  let index ← sharedHashFind n key
  sharedHashPut n key index child
  sharedUnlock

def sharedHashRemove (n : NodeId) (index : Option Nat) : SharedM Unit :=
  match index with
  | some index => do
      let body ← sharedBody n
      sharedSetBody n (.hash (body.entries.eraseIdx index))
  | none => pure ()

/-- `_shared_hash_delete_ptr`. -/
def sharedHashDeletePtr (ptr : Option NodeId) (key : List UInt8) :
    SharedM (Option NodeId) := do
  sharedLock
  let n ← sharedFromUv ptr
  let index ← sharedHashFind n key
  let old ← sharedHashEntry n index
  sharedHashRemove n index
  sharedUnlock
  pure old

/-- The entries of a hash node; the mutex is released before the `croak`. -/
def sharedHashEntries (n : NodeId) :
    SharedM (List (List UInt8 × NodeId)) := do
  let body ← sharedBody n
  match body with
  | .hash entries => pure entries
  | _ => do
      sharedUnlock
      Croak.croak "shared value is not a hash"

/-- `_shared_hash_clear`. -/
def sharedHashClear (ptr : Option NodeId) : SharedM Unit := do
  sharedLock
  let n ← sharedFromUv ptr
  let _ ← sharedHashEntries n
  sharedSetBody n (.hash [])
  sharedUnlock

/-- `_shared_hash_keys`. -/
def sharedHashKeys (ptr : Option NodeId) :
    SharedM (List (List UInt8)) := do
  sharedLock
  let n ← sharedFromUv ptr
  let entries ← sharedHashEntries n
  sharedUnlock
  pure (entries.map Prod.fst)

def SharedBody.items : SharedBody → SlotArray
  | .array items => items
  | _ => .empty

/-- The slots of an array node; the mutex is released before the `croak`. -/
def sharedArrayItems (n : NodeId) : SharedM SlotArray := do
  let body ← sharedBody n
  match body with
  | .array items => pure items
  | _ => do
      sharedUnlock
      Croak.croak "shared value is not an array"

/-- `_shared_array_size`. -/
def sharedArraySize (ptr : Option NodeId) : SharedM Nat := do
  sharedLock
  let n ← sharedFromUv ptr
  let items ← sharedArrayItems n
  sharedUnlock
  pure items.size

/-- The node at an index that may be negative or too large. -/
def SlotArray.itemAt (array : SlotArray) (index : Int) : Option NodeId :=
  if 0 ≤ index then array.item index.toNat else none

/-- `_shared_array_fetch_ptr`. -/
def sharedArrayFetchPtr (ptr : Option NodeId) (index : Int) :
    SharedM (Option NodeId) := do
  sharedLock
  let n ← sharedFromUv ptr
  let items ← sharedArrayItems n
  sharedUnlock
  pure (items.itemAt index)

/-- `_shared_array_exists`. -/
def sharedArrayExists (ptr : Option NodeId) (index : Int) :
    SharedM Bool := do
  sharedLock
  let n ← sharedFromUv ptr
  let items ← sharedArrayItems n
  sharedUnlock
  pure (items.itemAt index).isSome

def sharedArrayEnsureNode (n : NodeId) (items : SlotArray) (index : Nat) :
    SharedM NodeId :=
  match (items.slots[index]?).join with
  | some child => pure child
  | none => do
      let child ← sharedNodeNew
      sharedSetBody n (.array (items.set index (some child)))
      pure child

/-- `_shared_array_store`. -/
def sharedArrayStore [DecidableEq Addr] [Fintype Addr] (perl : Perl Addr)
    (ptr : Option NodeId) (index : Int) (value : Scalar Addr) :
    SharedM Unit :=
  if index < 0 then
    Croak.croak "negative shared array index not supported for STORE"
  else do
    sharedLock
    let n ← sharedFromUv ptr
    let items ← sharedArrayItems n
    let items := items.covering (index.toNat + 1)
    sharedSetBody n (.array items)
    let child ← sharedArrayEnsureNode n items index.toNat
    sharedImportInto perl child value
    sharedUnlock

/-- `_shared_array_store_ptr`. -/
def sharedArrayStorePtr (ptr : Option NodeId) (index : Int)
    (childPtr : Option NodeId) :
    SharedM Unit :=
  if index < 0 then
    Croak.croak "negative shared array index not supported for STORE"
  else do
    sharedLock
    let n ← sharedFromUv ptr
    let child ← sharedFromUv childPtr
    let items ← sharedArrayItems n
    sharedSetBody n
      (.array ((items.covering (index.toNat + 1)).set index.toNat child))
    sharedUnlock

def sharedSetItems (n : NodeId) (condition : Prop) [Decidable condition]
    (items : SlotArray) :
    SharedM Unit :=
  if condition then sharedSetBody n (.array items) else pure ()

/-- `_shared_array_delete_ptr`. -/
def sharedArrayDeletePtr (ptr : Option NodeId) (index : Int) :
    SharedM (Option NodeId) := do
  sharedLock
  let n ← sharedFromUv ptr
  let items ← sharedArrayItems n
  sharedSetItems n (0 ≤ index ∧ index.toNat < items.size)
    (items.set index.toNat none)
  sharedUnlock
  pure (items.itemAt index)

/-- `_shared_array_push`. -/
def sharedArrayPush [DecidableEq Addr] [Fintype Addr] (perl : Perl Addr)
    (ptr : Option NodeId) (value : Scalar Addr) :
    SharedM Nat := do
  sharedLock
  let n ← sharedFromUv ptr
  let _ ← sharedArrayItems n
  let child ← sharedNodeNew
  sharedImportInto perl child value
  let body ← sharedBody n
  sharedSetBody n (.array (body.items.push child))
  sharedUnlock
  pure (body.items.size + 1)

/-- `_shared_array_push_ptr`. -/
def sharedArrayPushPtr (ptr childPtr : Option NodeId) :
    SharedM Unit := do
  sharedLock
  let n ← sharedFromUv ptr
  let child ← sharedFromUv childPtr
  let items ← sharedArrayItems n
  sharedSetBody n (.array (items.push child))
  sharedUnlock

/-- `_shared_array_unshift`. -/
def sharedArrayUnshift [DecidableEq Addr] [Fintype Addr] (perl : Perl Addr)
    (ptr : Option NodeId) (value : Scalar Addr) :
    SharedM Nat := do
  sharedLock
  let n ← sharedFromUv ptr
  let _ ← sharedArrayItems n
  let child ← sharedNodeNew
  sharedImportInto perl child value
  let body ← sharedBody n
  sharedSetBody n (.array (body.items.unshift child))
  sharedUnlock
  pure (body.items.size + 1)

/-- `_shared_array_pop_ptr`. -/
def sharedArrayPopPtr (ptr : Option NodeId) :
    SharedM (Option NodeId) := do
  sharedLock
  let n ← sharedFromUv ptr
  let items ← sharedArrayItems n
  sharedSetItems n (0 < items.size) items.pop
  sharedUnlock
  pure (items.item (items.size - 1))

/-- `_shared_array_shift_ptr`. -/
def sharedArrayShiftPtr (ptr : Option NodeId) :
    SharedM (Option NodeId) := do
  sharedLock
  let n ← sharedFromUv ptr
  let items ← sharedArrayItems n
  sharedSetItems n (0 < items.size) items.shift
  sharedUnlock
  pure (items.item 0)

/-- `_shared_array_clear`. -/
def sharedArrayClear (ptr : Option NodeId) : SharedM Unit := do
  sharedLock
  let n ← sharedFromUv ptr
  let items ← sharedArrayItems n
  sharedSetBody n (.array items.clear)
  sharedUnlock

/-- `_shared_array_resize`. -/
def sharedArrayResize (ptr : Option NodeId) (newSize : Nat) :
    SharedM Unit := do
  sharedLock
  let n ← sharedFromUv ptr
  let items ← sharedArrayItems n
  sharedSetBody n (.array (items.resize newSize))
  sharedUnlock

/-- `n->pv_utf8 = 1`. -/
def SharedBody.withUtf8 : SharedBody → SharedBody
  | .pv bytes _ => .pv bytes true
  | body => body

/-- `if (utf8 && !SvROK(value) && n->type == SHARED_PV)`. -/
def sharedMarkUtf8 (n : NodeId) (value : Scalar Addr) (utf8 : Bool) :
    SharedM Unit := do
  let body ← sharedBody n
  match utf8, value with
  | false, _ => pure ()
  | true, .reference _ => pure ()
  | true, _ => sharedSetBody n body.withUtf8

/-- `_shared_node_set`. -/
def sharedNodeSet [DecidableEq Addr] [Fintype Addr] (perl : Perl Addr)
    (ptr : Option NodeId) (value : Scalar Addr) (utf8 : Bool) :
    SharedM Unit := do
  sharedLock
  let n ← sharedFromUv ptr
  sharedImportInto perl n value
  sharedMarkUtf8 n value utf8
  sharedUnlock

variable {key : List UInt8}

section Results

variable
  {world : World}
  {n : NodeId}
  {entries : List (List UInt8 × NodeId)}
  {items : SlotArray}
  {value : Scalar Addr}

section

variable (isHash : (world.nodes n).body = .hash entries)

include isHash

theorem sharedHashFind_of_hash (key : List UInt8) :
    sharedHashFind n key world =
      .returned (entries.findIdx? fun entry => decide (entry.1 = key))
        world :=
  Croak.bind_of_returned (sharedBody_eq isHash) _

omit isHash in
theorem sharedHashFind_of_not_hash
    (notHash : ∀ entries, (world.nodes n).body ≠ .hash entries)
    (key : List UInt8) :
    sharedHashFind n key world =
      .croaked "shared value is not a hash" world := by
  refine (Croak.bind_of_returned (sharedBody_eq rfl) _).trans ?_
  cases kind : (world.nodes n).body with
  | hash entries => exact (notHash entries kind).elim
  | _ => rfl

theorem sharedHashEntry_of_hash (key : List UInt8) :
    sharedHashEntry n
        (entries.findIdx? fun entry => decide (entry.1 = key)) world =
      .returned (lookupEntry entries key) world := by
  refine (Croak.bind_of_returned (sharedBody_eq isHash) _).trans ?_
  have found :=
    @List.find?_eq_bind_findIdx?_getElem? _ entries
      fun entry => decide (entry.1 = key)
  unfold lookupEntry
  rw [found, Option.map_bind]
  rfl

theorem sharedHashGetNode_of_hash (key : List UInt8) :
    sharedHashGetNode n key world =
      .returned (lookupEntry entries key) world :=
  (Croak.bind_of_returned (sharedHashFind_of_hash isHash key) _).trans
    (sharedHashEntry_of_hash isHash key)

omit isHash in
theorem sharedHashGetNode_of_not_hash
    (notHash : ∀ entries, (world.nodes n).body ≠ .hash entries)
    (key : List UInt8) :
    sharedHashGetNode n key world =
      .croaked "shared value is not a hash" world :=
  Croak.bind_of_croaked (sharedHashFind_of_not_hash notHash key) _

theorem sharedHashEnsureNode_of_some {child : NodeId}
    (found : lookupEntry entries key = some child) :
    sharedHashEnsureNode n key world = .returned child world := by
  have got := sharedHashGetNode_of_hash isHash key
  rw [found] at got
  exact Croak.bind_of_returned got _

theorem sharedHashEnsureNode_of_none
    (allocated : n < world.next) (missing : lookupEntry entries key = none) :
    sharedHashEnsureNode n key world =
      .returned world.next
        (world.allocate.setBody n
          (.hash (entries ++ [(key, world.next)]))) := by
  have got := sharedHashGetNode_of_hash isHash key
  rw [missing] at got
  refine (Croak.bind_of_returned got _).trans ?_
  have stillHash : (world.allocate.nodes n).body = .hash entries := by
    rw [← isHash]
    exact congrArg SharedNode.body
      (world.setNode_nodes_of_ne (Nat.ne_of_lt allocated) .clear)
  have appended :
      sharedHashAppend n key world.next world.allocate =
        .returned ()
          (world.allocate.setBody n
            (.hash (entries ++ [(key, world.next)]))) :=
    Croak.bind_of_returned (sharedBody_eq stillHash) _
  have fresh :
      sharedNodeNew world = .returned world.next world.allocate :=
    rfl
  exact (Croak.bind_of_returned fresh _).trans
    (Croak.bind_of_returned appended _)

end

theorem mem_of_lookupEntry {child : NodeId}
    (found : lookupEntry entries key = some child) :
    child ∈ entries.map Prod.snd := by
  obtain ⟨entry, isEntry, rfl⟩ := Option.map_eq_some_iff.mp found
  exact List.mem_map_of_mem (List.mem_of_find?_eq_some isEntry)

theorem sharedArrayItems_of_array
    (isArray : (world.nodes n).body = .array items) :
    sharedArrayItems n world = .returned items world :=
  Croak.bind_of_returned (sharedBody_eq isArray) _

theorem sharedArrayItems_of_not_array
    (notArray : ∀ items, (world.nodes n).body ≠ .array items) :
    sharedArrayItems n world =
      .croaked "shared value is not an array"
        { world with lockDepth := world.lockDepth - 1 } := by
  refine (Croak.bind_of_returned (sharedBody_eq rfl) _).trans ?_
  cases kind : (world.nodes n).body with
  | array items => exact (notArray items kind).elim
  | _ => rfl

theorem sharedArrayFetchPtr_of_array
    (isArray : (world.nodes n).body = .array items) (index : Int) :
    sharedArrayFetchPtr (some n) index world =
      .returned (items.itemAt index) world :=
  Croak.bind_of_returned
    (@sharedArrayItems_of_array world.locked n items isArray) _

end Results

end DeveloperDashboard.GoRoutine
