import DeveloperDashboard.GoRoutine.SharedNode
import DeveloperDashboard.Perl.CodePoints

namespace DeveloperDashboard.GoRoutine

open Library

/-!
# Operations on a shared scalar

`shared_apply` with the helpers it is made of, and the two primitives that
read and update a scalar node.  How the interpreter converts a text or an
address is a parameter.  An integer overflow and a conversion of a double out
of range are undefined, as they are in C.
-/

variable {Addr : Type}

/-- The conversions of the interpreter that go by a text or an address. -/
structure Conversions (Addr : Type) where
  textNv : List UInt8 → Bool → Double
  textIv : List UInt8 → Bool → Int64
  numberText : Double → List UInt8
  referenceText : Addr → List UInt8
  address : Addr → UInt64

/-- Conversions of an interpreter that holds no texts and no references. -/
def Conversions.none : Conversions Empty where
  textNv _ _ := .finite 0
  textIv _ _ := 0
  numberText _ := []
  referenceText := nofun
  address := nofun

def decimalText (value : Int) : List UInt8 :=
  (toString value).toList.map fun digit => digit.toNat.toUInt8

/-- `(NV)` of an integer. -/
def integerNv (value : Int) : Double :=
  .round value

/-- `SvNV`. -/
def svNv (conversions : Conversions Addr) : Scalar Addr → Double
  | .undefValue => .finite 0
  | .integer value => integerNv value.value
  | .number value => value
  | .string bytes utf8 => conversions.textNv bytes utf8
  | .reference target => integerNv (conversions.address target).toNat

/-- `SvIV`. -/
def svIv (conversions : Conversions Addr) : Scalar Addr → Int64
  | .undefValue => 0
  | .integer value => Int64.ofInt value.value
  | .number value => castIv value
  | .string bytes utf8 => conversions.textIv bytes utf8
  | .reference target => (conversions.address target).toInt64

/-- `SvPV`, with its length. -/
def svPv (conversions : Conversions Addr) : Scalar Addr → List UInt8
  | .undefValue => []
  | .integer value => decimalText value.value
  | .number value => conversions.numberText value
  | .string bytes _ => bytes
  | .reference target => conversions.referenceText target

/-- `SvUTF8`. -/
def svUtf8 : Scalar Addr → Bool
  | .string _ utf8 => utf8
  | _ => false

/--
`SvIOK(arg) && !SvNOK(arg) && !SvPOK(arg)` after `SvNV(arg)`, which has turned
on the number flag of every integer that it converted exactly.
-/
def isInexactInteger : Scalar Addr → Bool
  | .integer value =>
    decide (integerNv value.value ≠ .finite value.value)
  | _ => false

def PerlInteger.ofIv (value : Int64) : PerlInteger where
  value := value.toInt
  lower := by
    have bound := value.le_toInt
    unfold ivMin
    omega
  upper := by
    have bound := value.toInt_lt
    unfold uvMax
    omega

/-- `shared_copy_scalar`. -/
def sharedCopyScalar (n : NodeId) : SharedM (Scalar Addr) := do
  let body ← sharedBody n
  match body with
  | .iv value => pure (.integer (.ofIv value))
  | .nv value => pure (.number value)
  | .pv bytes utf8 => pure (.string bytes utf8)
  | .undefValue => pure .undefValue
  | _ =>
    Croak.croak "shared value is a reference/container, not a scalar"

/-- `shared_as_nv`. -/
def sharedAsNv (conversions : Conversions Addr) (n : NodeId) :
    SharedM Double := do
  let copy ← sharedCopyScalar n
  pure (svNv conversions copy)

/-- `shared_as_iv`. -/
def sharedAsIv (conversions : Conversions Addr) (n : NodeId) :
    SharedM Int64 := do
  let copy ← sharedCopyScalar n
  pure (svIv conversions copy)

/-- `shared_store_iv`. -/
def sharedStoreIv (n : NodeId) (value : Int64) : SharedM Unit :=
  sharedSetNode n ⟨none, .iv value⟩

/-- `shared_store_nv`. -/
def sharedStoreNv (n : NodeId) (value : Double) : SharedM Unit :=
  sharedSetNode n ⟨none, .nv value⟩

def operands {Operand : Type} (reverse : Bool) (left right : Operand) :
    Operand × Operand :=
  if reverse then (right, left) else (left, right)

/-- `shared_concat`. -/
def sharedConcat (conversions : Conversions Addr) (n : NodeId)
    (arg : Scalar Addr) (reverse : Bool) :
    SharedM Unit := do
  let left ← sharedCopyScalar n
  let (first, second) :=
    operands reverse (svPv conversions left) (svPv conversions arg)
  sharedSetNode n
    ⟨none, .pv (first ++ second) (svUtf8 left || svUtf8 arg)⟩

/-- `++n->iv` and `--n->iv`. -/
def sharedStepIv (n : NodeId) (stepped : Int) : SharedM Unit :=
  if ivMin ≤ stepped ∧ stepped ≤ ivMax then
    sharedSetBody n (.iv (Int64.ofInt stepped))
  else
    Croak.undefined

/-- `inc` and `dec`. -/
def sharedStep (conversions : Conversions Addr) (n : NodeId) (change : Int) :
    SharedM Unit := do
  let body ← sharedBody n
  match body with
  | .iv value => sharedStepIv n (value.toInt + change)
  | _ => do
      let value ← sharedAsNv conversions n
      sharedStoreNv n (value.add (.finite change))

/-- `%` of two IVs. -/
def remainderIv (first second : Int64) : SharedM Int64 :=
  if first.toInt = ivMin ∧ second.toInt = -1 then
    Croak.undefined
  else
    pure (Int64.ofInt (first.toInt.tmod second.toInt))

/-- `mod`. -/
def sharedMod (conversions : Conversions Addr) (n : NodeId)
    (arg : Scalar Addr) (reverse : Bool) :
    SharedM Unit := do
  let left ← sharedAsIv conversions n
  let (first, second) := operands reverse left (svIv conversions arg)
  if second = 0 then
    Croak.croak "Illegal modulus zero"
  else do
    let remainder ← remainderIv first second
    sharedStoreIv n remainder

/-- `(IV)` of a double, undefined out of range. -/
def truncateIv : Double → SharedM Int64
  | .finite value =>
    let whole := if 0 ≤ value then value.floor else value.ceil
    if ivMin ≤ whole ∧ whole ≤ ivMax then
      pure (Int64.ofInt whole)
    else
      Croak.undefined
  | _ => Croak.undefined

def sharedArithmetic (op : String) (first second : Double) :
    SharedM Double :=
  if op = "add" then pure (first.add second)
  else if op = "sub" then pure (first.sub second)
  else if op = "mul" then pure (first.mul second)
  else if op = "div" then
    if second = .finite 0 then
      Croak.croak "Illegal division by zero"
    else
      pure (first.div second)
  else
    Croak.croak ("unknown shared scalar operation '" ++ op ++ "'")

/-- The last branch of `shared_apply`. -/
def sharedNumeric (conversions : Conversions Addr) (n : NodeId) (op : String)
    (arg : Scalar Addr) (reverse : Bool) :
    SharedM Unit := do
  let left ← sharedAsNv conversions n
  let (first, second) := operands reverse left (svNv conversions arg)
  let out ← sharedArithmetic op first second
  let body ← sharedBody n
  match body with
  | .iv _ =>
    if op ≠ "div" ∧ isInexactInteger arg = true then do
      let value ← truncateIv out
      sharedStoreIv n value
    else
      sharedStoreNv n out
  | _ => sharedStoreNv n out

/-- `shared_apply`. -/
def sharedApply (conversions : Conversions Addr) (n : NodeId) (op : String)
    (arg : Scalar Addr) (reverse : Bool) :
    SharedM Unit := do
  let body ← sharedBody n
  if body.isReference then
    Croak.croak
      "numeric/string operation attempted on shared reference"
  else if op = "inc" then
    sharedStep conversions n 1
  else if op = "dec" then
    sharedStep conversions n (-1)
  else if op = "concat" then
    sharedConcat conversions n arg reverse
  else if op = "mod" then
    sharedMod conversions n arg reverse
  else
    sharedNumeric conversions n op arg reverse

/-- `_shared_scalar_get`. -/
def sharedScalarGet (ptr : Option NodeId) : SharedM (Scalar Addr) := do
  sharedLock
  let n ← sharedFromUv ptr
  let copy ← sharedCopyScalar n
  sharedUnlock
  pure copy

/-- `_shared_scalar_apply`. -/
def sharedScalarApply (conversions : Conversions Addr) (ptr : Option NodeId)
    (op : String) (arg : Scalar Addr) (reverse : Bool) :
    SharedM Unit := do
  sharedLock
  let n ← sharedFromUv ptr
  sharedApply conversions n op arg reverse
  sharedUnlock

section Copy

variable {world : World} {n : NodeId}

theorem sharedBody_eq {body : SharedBody}
    (same : (world.nodes n).body = body) :
    sharedBody n world = .returned body world := by
  rw [← same]
  rfl

def SharedBody.toScalar : SharedBody → Scalar Addr
  | .iv value => .integer (.ofIv value)
  | .nv value => .number value
  | .pv bytes utf8 => .string bytes utf8
  | _ => .undefValue

theorem sharedCopyScalar_of_scalar
    (isScalar : (world.nodes n).body.isReference = false) :
    sharedCopyScalar n world =
      .returned ((world.nodes n).body.toScalar : Scalar Addr) world := by
  refine (Croak.bind_of_returned (sharedBody_eq rfl) _).trans ?_
  cases kind : (world.nodes n).body with
  | undefValue => rfl
  | iv value => rfl
  | nv value => rfl
  | pv bytes utf8 => rfl
  | _ =>
    rw [kind] at isScalar
    cases isScalar

end Copy

open DeveloperDashboard.Perl

/-!
# Appending to a shared string

`shared_concat` joins the held bytes of two strings and sets the flag when one
of them has it.  The characters are those of both strings if the flags agree;
where they do not, the bytes of the string without the flag are read as UTF-8.
-/

variable {Addr : Type} {conversions : Conversions Addr}
variable {world : World} {node : NodeId}

theorem sharedApply_concat {value argument : HeldString}
    (holds : (world.nodes node).body = .pv value.bytes value.utf8)
    (reverse : Bool) :
    sharedApply conversions node "concat"
        (.string argument.bytes argument.utf8) reverse world =
      .returned () (world.setNode node
        ⟨none, .pv
          ((operands reverse value.bytes argument.bytes).1 ++
            (operands reverse value.bytes argument.bytes).2)
          (value.utf8 || argument.utf8)⟩) := by
  have read : sharedBody node world =
      .returned (.pv value.bytes value.utf8) world :=
    sharedBody_eq holds
  have copied : sharedCopyScalar node world =
      .returned (.string value.bytes value.utf8 : Scalar Addr) world :=
    Croak.bind_of_returned read _
  refine (Croak.bind_of_returned read _).trans ?_
  exact Croak.bind_of_returned copied _

theorem sharedScalarGet_pv {bytes : List UInt8} {utf8 : Bool}
    (isPv : (world.nodes node).body = .pv bytes utf8) :
    sharedScalarGet (some node) world =
      .returned (.string bytes utf8 : Scalar Addr) world := by
  have read : sharedBody node world.locked =
      .returned (.pv bytes utf8) world.locked :=
    sharedBody_eq isPv
  have copied : sharedCopyScalar node world.locked =
      .returned (.string bytes utf8 : Scalar Addr) world.locked :=
    Croak.bind_of_returned read _
  exact Croak.bind_of_returned copied _

/-- After the append the shared scalar reads as some characters. -/
def AppendReadsAs
    (conversions : Conversions Addr) (world : World) (node : NodeId)
    (argument : HeldString) (reverse : Bool) (codes : List Nat) : Prop :=
  ∃ later text,
    sharedApply conversions node "concat"
        (.string argument.bytes argument.utf8) reverse world =
      .returned () later ∧
    sharedScalarGet (some node) later =
      .returned (.string text.bytes text.utf8 : Scalar Addr) later ∧
    HeldString.ReadsAs text codes

/-- The characters of both strings, in the order of the operation. -/
def appendedCodes (reverse : Bool) (value argument : List Nat) : List Nat :=
  (operands reverse value argument).1 ++ (operands reverse value argument).2

theorem appendReadsAs_iff_join {value argument : HeldString}
    (holds : (world.nodes node).body = .pv value.bytes value.utf8)
    (reverse : Bool) (codes : List Nat) :
    AppendReadsAs conversions world node argument reverse codes ↔
      ((operands reverse value argument).1.join
        (operands reverse value argument).2).ReadsAs codes := by
  have applied := @sharedApply_concat Addr conversions world node
    value argument holds reverse
  have text :
      (⟨(operands reverse value.bytes argument.bytes).1 ++
          (operands reverse value.bytes argument.bytes).2,
          value.utf8 || argument.utf8⟩ : HeldString) =
        (operands reverse value argument).1.join
          (operands reverse value argument).2 := by
    cases reverse with
    | false => rfl
    | true =>
      rw [Bool.or_comm]
      rfl
  have read (bytes : List UInt8) (utf8 : Bool) :
      sharedScalarGet (some node)
          (world.setNode node ⟨none, .pv bytes utf8⟩) =
        .returned (.string bytes utf8 : Scalar Addr)
          (world.setNode node ⟨none, .pv bytes utf8⟩) :=
    sharedScalarGet_pv (by rw [World.setNode_nodes_self])
  rw [← text]
  constructor
  · rintro ⟨later, held, returned, readsBack, reads⟩
    rw [applied] at returned
    obtain ⟨-, rfl⟩ := Outcome.returned.inj returned
    rw [read] at readsBack
    obtain ⟨bytes, utf8⟩ :=
      Scalar.string.inj (Outcome.returned.inj readsBack).1
    rw [bytes, utf8]
    exact reads
  · intro reads
    exact ⟨_, ⟨_, _⟩, applied, read _ _, reads⟩

/--
The shared scalar reads as the characters of both strings if and only if the
flags agree, or the string without the flag is ASCII.
-/
theorem appendReadsAs_iff
    {value argument : HeldString} {left right : List Nat}
    (holds : (world.nodes node).body = .pv value.bytes value.utf8)
    (valueReads : value.ReadsAs left)
    (argumentReads : argument.ReadsAs right) (reverse : Bool) :
    AppendReadsAs conversions world node argument reverse
        (appendedCodes reverse left right) ↔
      value.utf8 = argument.utf8 ∨
        (value.utf8 = false ∧ ∀ code ∈ left, code < 128) ∨
        (argument.utf8 = false ∧ ∀ code ∈ right, code < 128) := by
  rw [appendReadsAs_iff_join holds]
  cases reverse with
  | false => exact HeldString.join_readsAs_iff valueReads argumentReads
  | true =>
    refine (HeldString.join_readsAs_iff argumentReads valueReads).trans ?_
    rw [or_comm (a := _ ∧ _), eq_comm]

/-- The one character `é`, without the flag. -/
def narrowText : HeldString where
  bytes := [0xE9]
  utf8 := false

/-- The one character `☺`, with the flag. -/
def wideText : HeldString where
  bytes := [0xE2, 0x98, 0xBA]
  utf8 := true

theorem readsAs_narrowText : narrowText.ReadsAs [0xE9] :=
  ⟨by decide, by decide⟩

theorem readsAs_wideText : wideText.ReadsAs [0x263A] :=
  ⟨by decide, by decide⟩

def stringWorld : World :=
  .single (.pv narrowText.bytes narrowText.utf8)

/-- Appending a string without the flag to one without it. -/
theorem appendReadsAs_iff_narrow :
    (stringWorld.nodes 0).body = .pv narrowText.bytes narrowText.utf8 ∧
      narrowText.ReadsAs [0xE9] ∧
      (AppendReadsAs Conversions.none stringWorld 0 narrowText true
          (appendedCodes true [0xE9] [0xE9]) ↔
        narrowText.utf8 = narrowText.utf8 ∨
          (narrowText.utf8 = false ∧ ∀ code ∈ [0xE9], code < 128) ∨
          (narrowText.utf8 = false ∧ ∀ code ∈ [0xE9], code < 128)) :=
  ⟨rfl, readsAs_narrowText,
    appendReadsAs_iff rfl readsAs_narrowText readsAs_narrowText true⟩

/-- A smiling face after an accented letter garbles the letter. -/
theorem append_garbles_letter :
    ¬ ∀ (world : World) (node : NodeId) (value argument : HeldString)
        (left right : List Nat) (reverse : Bool),
      (world.nodes node).body = .pv value.bytes value.utf8 →
        value.ReadsAs left → argument.ReadsAs right →
          AppendReadsAs Conversions.none world node argument reverse
            (appendedCodes reverse left right) := by
  intro always
  have appended :=
    always stringWorld 0 narrowText wideText _ _ false rfl
      readsAs_narrowText readsAs_wideText
  rw [appendReadsAs_iff_join rfl] at appended
  exact absurd appended.2 (by decide)

end DeveloperDashboard.GoRoutine
