import DeveloperDashboard.GoRoutine.SharedNode

namespace DeveloperDashboard.GoRoutine

open Library

/-!
# Importing Perl values into the shared graph

`shared_import_value` with its map from the referents it met to their nodes.
The recursion follows the source; its fuel bounds the depth at which referents
nest in referents that were not met before.
-/

variable {Addr : Type}

/-- The shared graph and the `import_map` of the running import. -/
structure ImportState (Addr : Type) where
  world : World
  map : List (Addr × NodeId)

abbrev ImportM (Addr : Type) : Type → Type :=
  Croak String (ImportState Addr)

def onWorld {Value : Type} (inner : SharedM Value) :
    ImportM Addr Value :=
  Croak.zoom ImportState.world
    (fun world state => { state with world := world }) inner

/-- `import_map_find`. -/
def importMapFind [DecidableEq Addr] (map : List (Addr × NodeId))
    (source : Addr) :
    Option NodeId :=
  map.lookup source

/-- `import_map_add`. -/
def importMapAdd (source : Addr) (node : NodeId) : ImportM Addr Unit :=
  Croak.modify fun state =>
    { state with map := state.map ++ [(source, node)] }

/-- What `shared_import_scalar` makes of a scalar that is no reference. -/
def sharedScalarBody : Scalar Addr → SharedBody
  | .undefValue => .undefValue
  | .integer value => .iv (Int64.ofInt value.value)
  | .number value => .nv value
  | .string bytes utf8 => .pv bytes utf8
  | .reference _ => .undefValue

/-- `shared_import_scalar`. -/
def sharedImportScalar (node : NodeId) (value : Scalar Addr) :
    ImportM Addr Unit :=
  onWorld (sharedSetNode node
    { className := none, body := sharedScalarBody value })

def SharedBody.setItem (index : Nat) (child : NodeId) :
    SharedBody → SharedBody
  | .array items => .array (items.set index (some child))
  | .object fields => .object (fields.set index (some child))
  | body => body

def SharedBody.addEntry (key : List UInt8) (child : NodeId) :
    SharedBody → SharedBody
  | .hash entries => .hash (entries ++ [(key, child)])
  | body => body

def SharedBody.addGlobSlot (slot : GlobSlot) (child : NodeId) :
    SharedBody → SharedBody
  | .glob slots handle => .glob (slots ++ [(slot, child)]) handle
  | body => body

def changeBody (node : NodeId) (change : SharedBody → SharedBody) :
    ImportM Addr Unit :=
  onWorld (Croak.modify fun world =>
    world.setBody node (change (world.nodes node).body))

/-- The loop over the elements of an array or the fields of an object. -/
def importItems (importChild : Scalar Addr → ImportM Addr NodeId)
    (node : NodeId) :
    Nat → List (Option (Scalar Addr)) → ImportM Addr Unit
  | _, [] => pure ()
  | index, none :: rest => importItems importChild node (index + 1) rest
  | index, some value :: rest => do
      let child ← importChild value
      changeBody node (SharedBody.setItem index child)
      importItems importChild node (index + 1) rest

/-- The loop over the entries of a hash or the slots of a glob. -/
def importEntries {Key : Type}
    (importChild : Scalar Addr → ImportM Addr NodeId) (node : NodeId)
    (add : Key → NodeId → SharedBody → SharedBody) :
    List (Key × Scalar Addr) → ImportM Addr Unit
  | [] => pure ()
  | (key, value) :: rest => do
      let child ← importChild value
      changeBody node (add key child)
      importEntries importChild node add rest

/-- The message for a referent of a type that cannot be shared. -/
def unsupportedReference (reftype : String) (className : Option String) :
    String :=
  "share() does not support reference type " ++ reftype ++
    (match className with
      | some name => " for object " ++ name
      | none => "")

/-- The class kept for a referent without parts. -/
def Captured.className (className : Option String) :
    Captured → Option String
  | .code _ => none
  | .format _ => none
  | _ => className

/-- Import a referent that was not met before into a cleared node. -/
def sharedImportReferent (perl : Perl Addr)
    (importChild : Scalar Addr → ImportM Addr NodeId) (node : NodeId)
    (source : Addr) :
    ImportM Addr Unit :=
  let className := (perl.heap source).className
  match (perl.heap source).body with
  | .captured result => do
      importMapAdd source node
      match result with
      | .ok captured =>
        onWorld (sharedSetNode node
          { className := captured.className className
            body := .captured captured })
      | .error error => Croak.croak error
  | .glob slots handle => do
      importMapAdd source node
      onWorld (sharedSetNode node ⟨className, .glob [] none⟩)
      importEntries importChild node SharedBody.addGlobSlot slots
      match handle with
      | .ok handle =>
        changeBody node fun
          | .glob slots _ => .glob slots handle
          | body => body
      | .error error => Croak.croak error
  | .hash entries => do
      importMapAdd source node
      onWorld (sharedSetNode node ⟨className, .hash []⟩)
      importEntries importChild node SharedBody.addEntry entries
  | .array items => do
      importMapAdd source node
      onWorld (sharedSetNode node
        ⟨className, .array (.ofSize items.length)⟩)
      importItems importChild node 0 items
  | .object fields =>
    if 40 ≤ perl.version then do
      importMapAdd source node
      onWorld (sharedSetNode node
        ⟨className, .object (.ofSize fields.length)⟩)
      importItems importChild node 0 fields
    else
      Croak.croak (unsupportedReference "OBJECT" className)
  | .scalar value => do
      importMapAdd source node
      onWorld (sharedSetNode node ⟨className, .scalarref none⟩)
      let child ← importChild value
      changeBody node fun _ => .scalarref (some child)
      pure ()

/-- The body of `shared_import_value`, once its node is chosen. -/
def sharedImportAt [DecidableEq Addr] (perl : Perl Addr)
    (importChild : Scalar Addr → ImportM Addr NodeId) (node : NodeId)
    (value : Scalar Addr) :
    ImportM Addr NodeId :=
  match value with
  | .reference source => do
      let state ← Croak.get
      match importMapFind state.map source with
      | some existing => pure existing
      | none => do
          onWorld (sharedSetNode node .clear)
          sharedImportReferent perl importChild node source
          pure node
  | value => do
      sharedImportScalar node value
      pure node

/-- One level of `shared_import_value`. -/
def sharedImportLevel [DecidableEq Addr] (perl : Perl Addr)
    (importChild : Scalar Addr → ImportM Addr NodeId) (value : Scalar Addr)
    (preferred : Option NodeId) :
    ImportM Addr NodeId :=
  match preferred with
  | some node => sharedImportAt perl importChild node value
  | none => do
      let node ← onWorld sharedNodeNew
      sharedImportAt perl importChild node value

/-- `shared_import_value`. -/
def sharedImportValue [DecidableEq Addr] (perl : Perl Addr) :
    Nat → Scalar Addr → Option NodeId → ImportM Addr NodeId
  | 0 => sharedImportLevel perl fun _ => Croak.outOfFuel
  | fuel + 1 =>
    sharedImportLevel perl fun child =>
      sharedImportValue perl fuel child none

/-- `shared_import_into`. -/
def sharedImportInto [DecidableEq Addr] [Fintype Addr] (perl : Perl Addr)
    (dest : NodeId) (value : Scalar Addr) :
    SharedM Unit :=
  fun world =>
    match
      sharedImportValue perl (Fintype.card Addr) value (some dest)
        ⟨world, []⟩
    with
    | .returned _ state => .returned () state.world
    | .croaked error state => .croaked error state.world
    | .undefined => .undefined
    | .outOfFuel => .outOfFuel

end DeveloperDashboard.GoRoutine
