import DeveloperDashboard.GoRoutine.SharedImportMap
import DeveloperDashboard.GoRoutine.SharedPrimitives

namespace DeveloperDashboard.GoRoutine

open Library

/-!
# The shared mutex on every exit

A `croak` leaves a primitive at once, and only the type checks of the array
primitives unlock before it.  Whether a primitive gives back the mutex, and
leaves the graph alone where it throws, therefore depends on what the helpers
below it can throw: `Safe` says when they throw nothing.
-/

variable {Addr : Type}

section Keeps

/-! Nothing below a primitive touches the mutex. -/

theorem keeps_sharedSetNode (n : NodeId) (contents : SharedNode) :
    (sharedSetNode n contents).Keeps World.lockDepth :=
  .modify fun _ => rfl

theorem keeps_sharedSetBody (n : NodeId) (body : SharedBody) :
    (sharedSetBody n body).Keeps World.lockDepth :=
  .modify fun _ => rfl

theorem keeps_sharedBody (n : NodeId) :
    (sharedBody n).Keeps World.lockDepth :=
  fun _ => rfl

theorem keeps_sharedNodeNew : sharedNodeNew.Keeps World.lockDepth :=
  fun _ => rfl

theorem keeps_sharedCopyScalar (n : NodeId) :
    (sharedCopyScalar n : SharedM (Scalar Addr)).Keeps World.lockDepth := by
  apply Croak.Keeps.andThen (keeps_sharedBody n)
  intro body
  cases body <;> first | exact .pure _ | exact .croak _

section

variable (conversions : Conversions Addr)

include conversions

theorem keeps_sharedConcat (n : NodeId)
    (arg : Scalar Addr) (reverse : Bool) :
    (sharedConcat conversions n arg reverse).Keeps World.lockDepth :=
  .andThen (keeps_sharedCopyScalar n) fun _ => keeps_sharedSetNode n _

theorem keeps_sharedAsNv (n : NodeId) :
    (sharedAsNv conversions n).Keeps World.lockDepth :=
  .andThen (keeps_sharedCopyScalar n) fun _ => .pure _

theorem keeps_sharedAsIv (n : NodeId) :
    (sharedAsIv conversions n).Keeps World.lockDepth :=
  .andThen (keeps_sharedCopyScalar n) fun _ => .pure _

/-- Counting up or down keeps the depth of the mutex. -/
theorem keeps_sharedStep (n : NodeId)
    (change : Int) :
    (sharedStep conversions n change).Keeps World.lockDepth := by
  apply Croak.Keeps.andThen (keeps_sharedBody n)
  intro body
  have step :
      (do
        let value ← sharedAsNv conversions n
        sharedStoreNv n (value.add (.finite change))).Keeps
          World.lockDepth :=
    .andThen (keeps_sharedAsNv conversions n)
      fun _ => keeps_sharedSetNode n _
  cases body with
  | iv value =>
    dsimp only
    unfold sharedStepIv
    split
    · exact keeps_sharedSetBody n _
    · exact .undefined
  | _ => exact step

theorem keeps_sharedMod (n : NodeId)
    (arg : Scalar Addr) (reverse : Bool) :
    (sharedMod conversions n arg reverse).Keeps World.lockDepth := by
  apply Croak.Keeps.andThen (keeps_sharedAsIv conversions n)
  intro left
  dsimp only
  split
  · exact .croak _
  · refine .andThen ?_ fun _ => keeps_sharedSetNode n _
    unfold remainderIv
    split
    · exact .undefined
    · exact .pure _

omit conversions in
theorem keeps_sharedArithmetic (op : String) (first second : Double) :
    (sharedArithmetic op first second).Keeps World.lockDepth := by
  unfold sharedArithmetic
  repeat' split
  all_goals first | exact .pure _ | exact .croak _

omit conversions in
theorem keeps_truncateIv (out : Double) :
    (truncateIv out).Keeps World.lockDepth := by
  cases out with
  | finite value =>
    unfold truncateIv
    dsimp only
    generalize
      (if 0 ≤ value then value.floor else value.ceil) = whole
    split
    · exact .pure _
    · exact .undefined
  | infinite negative => exact .undefined
  | nan => exact .undefined

/-- The other operations keep the depth of the mutex. -/
theorem keeps_sharedNumeric (n : NodeId)
    (op : String) (arg : Scalar Addr) (reverse : Bool) :
    (sharedNumeric conversions n op arg reverse).Keeps
      World.lockDepth := by
  apply Croak.Keeps.andThen (keeps_sharedAsNv conversions n)
  intro left
  apply Croak.Keeps.andThen (keeps_sharedArithmetic _ _ _)
  intro out
  apply Croak.Keeps.andThen (keeps_sharedBody n)
  intro body
  cases body with
  | iv value =>
    dsimp only
    split
    · exact .andThen (keeps_truncateIv out)
        fun _ => keeps_sharedSetNode n _
    · exact keeps_sharedSetNode n _
  | _ => exact keeps_sharedSetNode n _

theorem keeps_sharedApply (n : NodeId)
    (op : String) (arg : Scalar Addr) (reverse : Bool) :
    (sharedApply conversions n op arg reverse).Keeps World.lockDepth := by
  apply Croak.Keeps.andThen (keeps_sharedBody n)
  intro body
  split
  · exact .croak _
  split
  · exact keeps_sharedStep conversions n 1
  split
  · exact keeps_sharedStep conversions n (-1)
  split
  · exact keeps_sharedConcat conversions n arg reverse
  split
  · exact keeps_sharedMod conversions n arg reverse
  · exact keeps_sharedNumeric conversions n op arg reverse

end

def ImportState.lockDepth (state : ImportState Addr) : Nat :=
  state.world.lockDepth

theorem keeps_onWorld {Value : Type} {inner : SharedM Value}
    (keeps : inner.Keeps World.lockDepth) :
    (onWorld inner : ImportM Addr Value).Keeps ImportState.lockDepth :=
  .zoom keeps (fun _ => rfl) fun _ _ => rfl

theorem keeps_importMapAdd (source : Addr) (node : NodeId) :
    (importMapAdd source node).Keeps ImportState.lockDepth :=
  .modify fun _ => rfl

theorem keeps_changeBody (node : NodeId) (change : SharedBody → SharedBody) :
    (changeBody node change : ImportM Addr Unit).Keeps
      ImportState.lockDepth :=
  keeps_onWorld (.modify fun _ => rfl)

section Import

variable {importChild : Scalar Addr → ImportM Addr NodeId}

theorem keeps_importItems
    (keeps : ∀ value, (importChild value).Keeps ImportState.lockDepth)
    (node : NodeId) (index : Nat) (items : List (Option (Scalar Addr))) :
    (importItems importChild node index items).Keeps
      ImportState.lockDepth := by
  induction items generalizing index with
  | nil => exact .pure ()
  | cons item rest ih =>
    cases item with
    | none => exact ih (index + 1)
    | some value =>
      exact .andThen (keeps value) fun child =>
        .andThen (keeps_changeBody node _) fun _ =>
          ih (index + 1)

theorem keeps_importEntries {Key : Type}
    (keeps : ∀ value, (importChild value).Keeps ImportState.lockDepth)
    (node : NodeId) (add : Key → NodeId → SharedBody → SharedBody)
    (entries : List (Key × Scalar Addr)) :
    (importEntries importChild node add entries).Keeps
      ImportState.lockDepth := by
  induction entries with
  | nil => exact .pure ()
  | cons entry rest ih =>
    exact .andThen (keeps entry.2) fun child =>
      .andThen (keeps_changeBody node _) fun _ => ih

theorem keeps_sharedImportReferent (perl : Perl Addr)
    (keeps : ∀ value, (importChild value).Keeps ImportState.lockDepth)
    (node : NodeId) (source : Addr) :
    (sharedImportReferent perl importChild node source).Keeps
      ImportState.lockDepth := by
  have entered
      {rest : Unit → ImportM Addr Unit}
      (later : ∀ value, (rest value).Keeps ImportState.lockDepth) :
      (importMapAdd source node >>= rest).Keeps
        ImportState.lockDepth :=
    .andThen (keeps_importMapAdd source node) later
  have prepared
      {contents : SharedNode}
      {rest : Unit → ImportM Addr Unit}
      (later : ∀ value, (rest value).Keeps ImportState.lockDepth) :
      (onWorld (sharedSetNode node contents) >>= rest).Keeps
        ImportState.lockDepth :=
    .andThen (keeps_onWorld (keeps_sharedSetNode node contents)) later
  unfold sharedImportReferent
  dsimp only
  cases (perl.heap source).body with
  | captured result =>
    refine entered fun _ => ?_
    cases result with
    | ok captured =>
      exact keeps_onWorld (keeps_sharedSetNode node _)
    | error error => exact .croak error
  | glob slots handle =>
    refine entered fun _ => prepared fun _ => ?_
    refine .andThen (keeps_importEntries keeps node _ slots) fun _ => ?_
    cases handle with
    | ok handle => exact keeps_changeBody node _
    | error error => exact .croak error
  | hash entries =>
    exact entered fun _ => prepared fun _ =>
      keeps_importEntries keeps node _ entries
  | array items =>
    exact entered fun _ => prepared fun _ =>
      keeps_importItems keeps node 0 items
  | object fields =>
    dsimp only
    split
    · exact entered fun _ => prepared fun _ =>
        keeps_importItems keeps node 0 fields
    · exact .croak _
  | scalar value =>
    exact entered fun _ => prepared fun _ =>
      .andThen (keeps value) fun _ =>
        .andThen (keeps_changeBody node _) fun _ => .pure ()

variable [DecidableEq Addr]

theorem keeps_sharedImportAt (perl : Perl Addr)
    (keeps : ∀ value, (importChild value).Keeps ImportState.lockDepth)
    (node : NodeId) (value : Scalar Addr) :
    (sharedImportAt perl importChild node value).Keeps
      ImportState.lockDepth := by
  have plain :
      (do
        sharedImportScalar node value
        pure node : ImportM Addr NodeId).Keeps ImportState.lockDepth :=
    .andThen (keeps_onWorld (keeps_sharedSetNode node _))
      fun _ => .pure node
  cases value with
  | reference source =>
    refine .andThen .get fun state => ?_
    cases importMapFind state.map source with
    | some existing => exact .pure existing
    | none =>
      exact .andThen (keeps_onWorld (keeps_sharedSetNode node _))
        fun _ =>
          .andThen (keeps_sharedImportReferent perl keeps node source)
            fun _ => .pure node
  | _ => exact plain

theorem keeps_sharedImportLevel (perl : Perl Addr)
    (keeps : ∀ value, (importChild value).Keeps ImportState.lockDepth)
    (value : Scalar Addr) (preferred : Option NodeId) :
    (sharedImportLevel perl importChild value preferred).Keeps
      ImportState.lockDepth := by
  cases preferred with
  | some node => exact keeps_sharedImportAt perl keeps node value
  | none =>
    exact .andThen (keeps_onWorld keeps_sharedNodeNew) fun node =>
      keeps_sharedImportAt perl keeps node value

theorem keeps_sharedImportValue (perl : Perl Addr) (fuel : Nat)
    (value : Scalar Addr) (preferred : Option NodeId) :
    (sharedImportValue perl fuel value preferred).Keeps
      ImportState.lockDepth := by
  induction fuel generalizing value preferred with
  | zero =>
    exact keeps_sharedImportLevel perl (fun _ => .outOfFuel) value
      preferred
  | succ fuel ih =>
    exact keeps_sharedImportLevel perl
      (fun child => ih child none) value preferred

theorem keeps_sharedImportInto [Fintype Addr] (perl : Perl Addr)
    (dest : NodeId) (value : Scalar Addr) :
    (sharedImportInto perl dest value).Keeps World.lockDepth := by
  intro world
  have kept :=
    keeps_sharedImportValue perl (Fintype.card Addr) value (some dest)
      ⟨world, []⟩
  unfold sharedImportInto
  cases run :
      sharedImportValue perl (Fintype.card Addr) value (some dest)
        ⟨world, []⟩ with
  | returned node state =>
    rw [run] at kept
    exact kept
  | croaked error state =>
    rw [run] at kept
    exact kept
  | undefined => trivial
  | outOfFuel => trivial

end Import

end Keeps

/-- A call of a primitive that imports, looks up or applies an operation. -/
inductive SharedCall (Addr : Type) where
  | scalarApply
      (ptr : Option NodeId)
      (op : String)
      (arg : Scalar Addr)
      (reverse : Bool)
  | nodeSet (ptr : Option NodeId) (value : Scalar Addr) (utf8 : Bool)
  | hashFetchPtr (ptr : Option NodeId) (key : List UInt8)
  | hashExists (ptr : Option NodeId) (key : List UInt8)
  | hashStore
      (ptr : Option NodeId)
      (key : List UInt8)
      (value : Scalar Addr)
  | hashStorePtr (ptr : Option NodeId) (key : List UInt8)
      (childPtr : Option NodeId)
  | hashDeletePtr (ptr : Option NodeId) (key : List UInt8)
  | arrayStore
      (ptr : Option NodeId)
      (index : Int)
      (value : Scalar Addr)
  | arrayPush (ptr : Option NodeId) (value : Scalar Addr)
  | arrayUnshift (ptr : Option NodeId) (value : Scalar Addr)

def SharedBody.children : SharedBody → List NodeId
  | .hash entries => entries.map Prod.snd
  | .array items => items.slots.filterMap id
  | .scalarref value => value.toList
  | .object fields => fields.slots.filterMap id
  | .glob slots _ => slots.map Prod.snd
  | _ => []

/-- Every node of the graph leads to nodes of the graph. -/
def World.Closed (world : World) : Prop :=
  ∀ node < world.next,
    ∀ child ∈ (world.nodes node).body.children, child < world.next

def SharedCall.handles : SharedCall Addr → List NodeId
  | .scalarApply ptr _ _ _ => ptr.toList
  | .nodeSet ptr _ _ => ptr.toList
  | .hashFetchPtr ptr _ => ptr.toList
  | .hashExists ptr _ => ptr.toList
  | .hashStore ptr _ _ => ptr.toList
  | .hashStorePtr ptr _ childPtr => ptr.toList ++ childPtr.toList
  | .hashDeletePtr ptr _ => ptr.toList
  | .arrayStore ptr _ _ => ptr.toList
  | .arrayPush ptr _ => ptr.toList
  | .arrayUnshift ptr _ => ptr.toList

/--
The mutex is held as many times as before, and an exception has left every
node that there was as it was.
-/
def SettledAfter {Value : Type} (world : World) :
    Outcome String World Value → Prop
  | .returned _ after => after.lockDepth = world.lockDepth
  | .croaked _ after =>
    after.lockDepth = world.lockDepth ∧
      ∀ node < world.next, after.nodes node = world.nodes node
  | .undefined => True
  | .outOfFuel => False

def SharedCall.Settled [DecidableEq Addr] [Fintype Addr]
    (conversions : Conversions Addr) (perl : Perl Addr) (world : World) :
    SharedCall Addr → Prop
  | .scalarApply ptr op arg reverse =>
    SettledAfter world
      (sharedScalarApply conversions ptr op arg reverse world)
  | .nodeSet ptr value utf8 =>
    SettledAfter world (sharedNodeSet perl ptr value utf8 world)
  | .hashFetchPtr ptr key =>
    SettledAfter world (sharedHashFetchPtr ptr key world)
  | .hashExists ptr key =>
    SettledAfter world (sharedHashExists ptr key world)
  | .hashStore ptr key value =>
    SettledAfter world (sharedHashStore perl ptr key value world)
  | .hashStorePtr ptr key childPtr =>
    SettledAfter world (sharedHashStorePtr ptr key childPtr world)
  | .hashDeletePtr ptr key =>
    SettledAfter world (sharedHashDeletePtr ptr key world)
  | .arrayStore ptr index value =>
    SettledAfter world (sharedArrayStore perl ptr index value world)
  | .arrayPush ptr value =>
    SettledAfter world (sharedArrayPush perl ptr value world)
  | .arrayUnshift ptr value =>
    SettledAfter world (sharedArrayUnshift perl ptr value world)

def SharedBody.IsHash (body : SharedBody) : Prop :=
  ∃ entries, body = .hash entries

def SharedBody.IsArray (body : SharedBody) : Prop :=
  ∃ items, body = .array items

/-- An operation that is known, on a scalar, without a zero divisor. -/
structure ApplySafe
    (conversions : Conversions Addr) (body : SharedBody) (op : String)
    (arg : Scalar Addr) (reverse : Bool) : Prop where
  isScalar : body.isReference = false
  known :
    op ∈ ["inc", "dec", "concat", "mod", "add", "sub", "mul", "div"]
  modulus :
    op = "mod" →
    (operands reverse (svIv conversions body.toScalar)
      (svIv conversions arg)).2 ≠ 0
  divisor :
    op = "div" →
    (operands reverse (svNv conversions body.toScalar)
      (svNv conversions arg)).2 ≠ .finite 0

/-- When nothing below a primitive throws while the mutex is held. -/
def SharedCall.Safe (conversions : Conversions Addr) (perl : Perl Addr)
    (world : World) :
    SharedCall Addr → Prop
  | .scalarApply ptr op arg reverse =>
    ∃ n, ptr = some n ∧
      ApplySafe conversions (world.nodes n).body op arg reverse
  | .nodeSet ptr value _ => ptr ≠ none ∧ ¬ perl.Fails value
  | .hashFetchPtr ptr _ =>
    ∃ n, ptr = some n ∧ (world.nodes n).body.IsHash
  | .hashExists ptr _ =>
    ∃ n, ptr = some n ∧ (world.nodes n).body.IsHash
  | .hashStore ptr _ value =>
    ∃ n, ptr = some n ∧ (world.nodes n).body.IsHash ∧
      ¬ perl.Fails value
  | .hashStorePtr ptr _ childPtr =>
    ∃ n, ptr = some n ∧ (world.nodes n).body.IsHash ∧ childPtr ≠ none
  | .hashDeletePtr ptr _ =>
    ∃ n, ptr = some n ∧ (world.nodes n).body.IsHash
  | .arrayStore ptr index value =>
    index < 0 ∨
      ∃ n, ptr = some n ∧
        ((world.nodes n).body.IsArray → ¬ perl.Fails value)
  | .arrayPush ptr value =>
    ∃ n, ptr = some n ∧
      ((world.nodes n).body.IsArray → ¬ perl.Fails value)
  | .arrayUnshift ptr value =>
    ∃ n, ptr = some n ∧
      ((world.nodes n).body.IsArray → ¬ perl.Fails value)

section Rules

variable
  {Value Result : Type}
  {world : World}
  {outcome : Outcome String World Result}
  {error : String}

theorem not_settled_of_croaked
    (croaked : outcome = .croaked error world.locked) :
    ¬ SettledAfter world outcome := by
  rw [croaked]
  rintro ⟨depth, _⟩
  exact absurd depth (Nat.succ_ne_self _)

/-- A primitive is settled when what it does under the mutex finishes. -/
theorem settled_iff_finishes {inner : SharedM Value}
    (keeps : inner.Keeps World.lockDepth) (result : Value → Result)
    (unfolds :
      outcome =
        (inner >>= fun value =>
          sharedUnlock >>= fun _ => pure (result value)) world.locked) :
    SettledAfter world outcome ↔ (inner world.locked).Finishes := by
  have kept := keeps world.locked
  rw [unfolds]
  cases run : inner world.locked with
  | returned value next =>
    rw [run] at kept
    rw [Croak.bind_of_returned run]
    refine iff_of_true ?_ trivial
    change next.lockDepth - 1 = world.lockDepth
    rw [kept]
    rfl
  | croaked error next =>
    rw [run] at kept
    rw [Croak.bind_of_croaked run]
    refine iff_of_false ?_ not_false
    rintro ⟨depth, _⟩
    rw [kept] at depth
    exact absurd depth (Nat.succ_ne_self _)
  | undefined =>
    rw [Croak.bind_of_undefined run]
    exact iff_of_true trivial trivial
  | outOfFuel =>
    rw [Croak.bind_of_outOfFuel run]
    exact iff_of_false not_false not_false

theorem settled_of_unlocked
    (croaked :
      outcome =
        .croaked error
          { world.locked with lockDepth := world.locked.lockDepth - 1 }) :
    SettledAfter world outcome := by
  rw [croaked]
  exact ⟨rfl, fun _ _ => rfl⟩

theorem settled_iff_of_null {safe : Prop}
    (croaked :
      outcome = .croaked "invalid shared value handle" world.locked)
    (notSafe : ¬ safe) :
    SettledAfter world outcome ↔ safe :=
  iff_of_false (not_settled_of_croaked croaked) notSafe

end Rules

section Apply

variable
  {conversions : Conversions Addr}
  {world : World}
  {n : NodeId}
  {op : String}
  {arg : Scalar Addr}
  {reverse : Bool}

/-- Counting up or down never croaks on a scalar. -/
theorem sharedStep_finishes
    (isScalar : (world.nodes n).body.isReference = false) (change : Int) :
    (sharedStep conversions n change world).Finishes := by
  have read :
      sharedAsNv conversions n world =
        .returned (svNv conversions (world.nodes n).body.toScalar) world :=
    Croak.bind_of_returned (sharedCopyScalar_of_scalar isScalar) _
  have stored :
      ((do
        let value ← sharedAsNv conversions n
        sharedStoreNv n (value.add (.finite change))) world).Finishes := by
    rw [Croak.bind_of_returned read]
    trivial
  unfold sharedStep
  rw [Croak.bind_of_returned (sharedBody_eq rfl)]
  cases kind : (world.nodes n).body with
  | iv value =>
    dsimp only
    unfold sharedStepIv
    split <;> trivial
  | _ => exact stored

theorem sharedMod_finishes_iff
    (isScalar : (world.nodes n).body.isReference = false) :
    (sharedMod conversions n arg reverse world).Finishes ↔
      (operands reverse
        (svIv conversions (world.nodes n).body.toScalar)
        (svIv conversions arg)).2 ≠ 0 := by
  have read :
      sharedAsIv conversions n world =
        .returned (svIv conversions (world.nodes n).body.toScalar) world :=
    Croak.bind_of_returned (sharedCopyScalar_of_scalar isScalar) _
  unfold sharedMod
  rw [Croak.bind_of_returned read]
  dsimp only
  split
  · next zero => exact iff_of_false not_false (not_not.mpr zero)
  · next nonzero =>
      refine iff_of_true ?_ nonzero
      unfold remainderIv
      split <;> trivial

/-- The arithmetic croaks on a zero divisor and on an unknown operation. -/
theorem sharedArithmetic_finishes (op : String) (first second : Double)
    (world : World) :
    (op ∈ ["add", "sub", "mul", "div"] ∧
        (op = "div" → second ≠ .finite 0) ∧
        ∃ out,
          sharedArithmetic op first second world = .returned out world) ∨
      (¬ (op ∈ ["add", "sub", "mul", "div"] ∧
          (op = "div" → second ≠ .finite 0)) ∧
        ∃ error,
          sharedArithmetic op first second world =
            .croaked error world) := by
  unfold sharedArithmetic
  by_cases isAdd : op = "add"
  · subst isAdd
    exact Or.inl ⟨by decide, by simp, _, rfl⟩
  by_cases isSub : op = "sub"
  · subst isSub
    exact Or.inl ⟨by decide, by simp, _, rfl⟩
  by_cases isMul : op = "mul"
  · subst isMul
    exact Or.inl ⟨by decide, by simp, _, rfl⟩
  by_cases isDiv : op = "div"
  · subst isDiv
    by_cases zero : second = .finite 0
    · right
      refine ⟨fun both => both.2 rfl zero, "Illegal division by zero", ?_⟩
      simp only [zero]
      rfl
    · left
      refine ⟨by decide, fun _ => zero, first.div second, ?_⟩
      simp only [zero]
      rfl
  · right
    refine ⟨by simp [isAdd, isSub, isMul, isDiv],
      "unknown shared scalar operation '" ++ op ++ "'", ?_⟩
    simp only [isAdd, isSub, isMul, isDiv]
    rfl

/-- Storing a computed double never croaks. -/
theorem sharedNumeric_finishes_iff
    (isScalar : (world.nodes n).body.isReference = false) :
    (sharedNumeric conversions n op arg reverse world).Finishes ↔
      op ∈ ["add", "sub", "mul", "div"] ∧
        (op = "div" →
          (operands reverse
            (svNv conversions (world.nodes n).body.toScalar)
            (svNv conversions arg)).2 ≠ .finite 0) := by
  have read :
      sharedAsNv conversions n world =
        .returned (svNv conversions (world.nodes n).body.toScalar) world :=
    Croak.bind_of_returned (sharedCopyScalar_of_scalar isScalar) _
  unfold sharedNumeric
  rw [Croak.bind_of_returned read]
  dsimp only
  rcases sharedArithmetic_finishes op
      (operands reverse (svNv conversions (world.nodes n).body.toScalar)
        (svNv conversions arg)).1
      (operands reverse (svNv conversions (world.nodes n).body.toScalar)
        (svNv conversions arg)).2 world with
    ⟨known, nonzero, out, computed⟩ | ⟨refused, error, croaked⟩
  · refine iff_of_true ?_ ⟨known, nonzero⟩
    rw [Croak.bind_of_returned computed,
      Croak.bind_of_returned (sharedBody_eq rfl)]
    have cast :
        ((do
          let value ← truncateIv out
          sharedStoreIv n value) world).Finishes := by
      cases out with
      | finite value =>
        unfold truncateIv
        dsimp only
        generalize
          (if 0 ≤ value then value.floor else value.ceil) = whole
        split <;> trivial
      | infinite negative => trivial
      | nan => trivial
    cases (world.nodes n).body with
    | iv value =>
      dsimp only
      split
      · exact cast
      · trivial
    | _ => trivial
  · refine iff_of_false ?_ refused
    rw [Croak.bind_of_croaked croaked]
    exact not_false

/-- `shared_apply` croaks on all but the safe operations. -/
theorem sharedApply_finishes_iff :
    (sharedApply conversions n op arg reverse world).Finishes ↔
      ApplySafe conversions (world.nodes n).body op arg reverse := by
  unfold sharedApply
  rw [Croak.bind_of_returned (sharedBody_eq rfl)]
  by_cases isReference : (world.nodes n).body.isReference = true
  · rw [if_pos isReference]
    refine iff_of_false not_false fun safe => ?_
    rw [safe.isScalar] at isReference
    cases isReference
  have isScalar : (world.nodes n).body.isReference = false :=
    Bool.eq_false_iff.mpr isReference
  rw [if_neg isReference]
  by_cases isInc : op = "inc"
  · subst isInc
    exact iff_of_true (sharedStep_finishes isScalar 1)
      ⟨isScalar, by decide, by simp, by simp⟩
  rw [if_neg isInc]
  by_cases isDec : op = "dec"
  · subst isDec
    exact iff_of_true (sharedStep_finishes isScalar (-1))
      ⟨isScalar, by decide, by simp, by simp⟩
  rw [if_neg isDec]
  by_cases isConcat : op = "concat"
  · subst isConcat
    refine iff_of_true ?_ ⟨isScalar, by decide, by simp, by simp⟩
    unfold sharedConcat
    rw [if_pos rfl,
      Croak.bind_of_returned (sharedCopyScalar_of_scalar isScalar)]
    trivial
  rw [if_neg isConcat]
  by_cases isMod : op = "mod"
  · subst isMod
    rw [if_pos rfl, sharedMod_finishes_iff isScalar]
    constructor
    · intro nonzero
      exact ⟨isScalar, by decide, fun _ => nonzero, by simp⟩
    · intro safe
      exact safe.modulus rfl
  rw [if_neg isMod, sharedNumeric_finishes_iff isScalar]
  constructor
  · rintro ⟨known, nonzero⟩
    refine ⟨isScalar, ?_, fun same => (isMod same).elim, nonzero⟩
    simp only [List.mem_cons] at known ⊢
    tauto
  · intro safe
    refine ⟨?_, safe.divisor⟩
    have known := safe.known
    simp only [List.mem_cons] at known ⊢
    tauto

end Apply

section Calls

variable
  {conversions : Conversions Addr}
  {world : World}
  {n : NodeId}
  {key : List UInt8}

theorem sharedHashGetNode_finishes_iff :
    (sharedHashGetNode n key world).Finishes ↔
      (world.nodes n).body.IsHash := by
  by_cases isHash : (world.nodes n).body.IsHash
  · obtain ⟨entries, same⟩ := isHash
    rw [sharedHashGetNode_of_hash same]
    exact iff_of_true trivial ⟨entries, same⟩
  · have notHash :
        ∀ entries, (world.nodes n).body ≠ .hash entries :=
      fun entries same => isHash ⟨entries, same⟩
    rw [sharedHashGetNode_of_not_hash notHash]
    exact iff_of_false not_false isHash

theorem keeps_sharedHashFind (n : NodeId) (key : List UInt8) :
    (sharedHashFind n key).Keeps World.lockDepth := by
  apply Croak.Keeps.andThen (keeps_sharedBody n)
  intro body
  cases body <;> first | exact .pure _ | exact .croak _

theorem keeps_sharedHashEntry (n : NodeId) (index : Option Nat) :
    (sharedHashEntry n index).Keeps World.lockDepth :=
  .andThen (keeps_sharedBody n) fun _ => .pure _

theorem keeps_sharedHashGetNode (n : NodeId) (key : List UInt8) :
    (sharedHashGetNode n key).Keeps World.lockDepth :=
  .andThen (keeps_sharedHashFind n key) fun index =>
    keeps_sharedHashEntry n index

theorem keeps_sharedHashAppend (n : NodeId) (key : List UInt8)
    (child : NodeId) :
    (sharedHashAppend n key child).Keeps World.lockDepth :=
  .andThen (keeps_sharedBody n) fun _ => keeps_sharedSetBody n _

theorem keeps_sharedHashEnsureNode (n : NodeId) (key : List UInt8) :
    (sharedHashEnsureNode n key).Keeps World.lockDepth := by
  apply Croak.Keeps.andThen (keeps_sharedHashGetNode n key)
  intro existing
  cases existing with
  | some child => exact .pure child
  | none =>
    exact .andThen keeps_sharedNodeNew fun child =>
      .andThen (keeps_sharedHashAppend n key child) fun _ => .pure child

theorem keeps_sharedHashPut (n : NodeId) (key : List UInt8)
    (index : Option Nat) (child : NodeId) :
    (sharedHashPut n key index child).Keeps World.lockDepth := by
  cases index with
  | some index =>
    exact .andThen (keeps_sharedBody n) fun _ => keeps_sharedSetBody n _
  | none => exact keeps_sharedHashAppend n key child

theorem keeps_sharedHashRemove (n : NodeId) (index : Option Nat) :
    (sharedHashRemove n index).Keeps World.lockDepth := by
  cases index with
  | some index =>
    exact .andThen (keeps_sharedBody n) fun _ => keeps_sharedSetBody n _
  | none => exact .pure ()

theorem keeps_sharedMarkUtf8 (n : NodeId) (value : Scalar Addr)
    (utf8 : Bool) :
    (sharedMarkUtf8 n value utf8).Keeps World.lockDepth := by
  apply Croak.Keeps.andThen (keeps_sharedBody n)
  intro body
  cases utf8 with
  | false => exact .pure ()
  | true =>
    cases value with
    | reference target => exact .pure ()
    | _ => exact keeps_sharedSetBody n _

theorem sharedMarkUtf8_finishes (n : NodeId) (value : Scalar Addr)
    (utf8 : Bool) (world : World) :
    (sharedMarkUtf8 n value utf8 world).Finishes := by
  unfold sharedMarkUtf8
  rw [Croak.bind_of_returned (sharedBody_eq rfl)]
  cases utf8 with
  | false => trivial
  | true => cases value <;> trivial

theorem scalarApply_settled_iff (ptr : Option NodeId) (op : String)
    (arg : Scalar Addr) (reverse : Bool) :
    SettledAfter world
        (sharedScalarApply conversions ptr op arg reverse world) ↔
      ∃ n, ptr = some n ∧
        ApplySafe conversions (world.nodes n).body op arg reverse := by
  cases ptr with
  | none => exact settled_iff_of_null rfl (by simp)
  | some n =>
    refine (settled_iff_finishes
      (keeps_sharedApply conversions n op arg reverse) id rfl).trans ?_
    rw [sharedApply_finishes_iff]
    simp [World.locked]

theorem hashFetchPtr_settled_iff (ptr : Option NodeId) (key : List UInt8) :
    SettledAfter world (sharedHashFetchPtr ptr key world) ↔
      ∃ n, ptr = some n ∧ (world.nodes n).body.IsHash := by
  cases ptr with
  | none => exact settled_iff_of_null rfl (by simp)
  | some n =>
    refine (settled_iff_finishes (keeps_sharedHashGetNode n key) id
      rfl).trans ?_
    rw [sharedHashGetNode_finishes_iff]
    simp [World.locked]

theorem hashExists_settled_iff (ptr : Option NodeId) (key : List UInt8) :
    SettledAfter world (sharedHashExists ptr key world) ↔
      ∃ n, ptr = some n ∧ (world.nodes n).body.IsHash := by
  cases ptr with
  | none => exact settled_iff_of_null rfl (by simp)
  | some n =>
    refine (settled_iff_finishes (keeps_sharedHashGetNode n key)
      Option.isSome rfl).trans ?_
    rw [sharedHashGetNode_finishes_iff]
    simp [World.locked]

theorem sharedHashFind_andThen_finishes_iff {Result : Type}
    {rest : Option Nat → SharedM Result}
    (finishes : ∀ index after, (rest index after).Finishes) :
    ((sharedHashFind n key >>= rest) world).Finishes ↔
      (world.nodes n).body.IsHash := by
  by_cases isHash : (world.nodes n).body.IsHash
  · obtain ⟨entries, same⟩ := isHash
    rw [Croak.bind_of_returned (sharedHashFind_of_hash same key)]
    exact iff_of_true (finishes _ world) ⟨entries, same⟩
  · have notHash :
        ∀ entries, (world.nodes n).body ≠ .hash entries :=
      fun entries same => isHash ⟨entries, same⟩
    rw [Croak.bind_of_croaked (sharedHashFind_of_not_hash notHash key)]
    exact iff_of_false not_false isHash

theorem sharedHashPut_finishes (n : NodeId) (key : List UInt8)
    (index : Option Nat) (child : NodeId) (world : World) :
    (sharedHashPut n key index child world).Finishes := by
  cases index <;> trivial

theorem hashStorePtr_settled_iff (ptr : Option NodeId) (key : List UInt8)
    (childPtr : Option NodeId) :
    SettledAfter world (sharedHashStorePtr ptr key childPtr world) ↔
      ∃ n, ptr = some n ∧ (world.nodes n).body.IsHash ∧
        childPtr ≠ none := by
  cases ptr with
  | none => exact settled_iff_of_null rfl (by simp)
  | some n =>
    cases childPtr with
    | none => exact settled_iff_of_null rfl (by simp)
    | some child =>
      have keeps :
          (sharedHashFind n key >>= fun index =>
            sharedHashPut n key index child).Keeps World.lockDepth :=
        .andThen (keeps_sharedHashFind n key)
          fun index => keeps_sharedHashPut n key index child
      refine (settled_iff_finishes keeps id ?_).trans ?_
      · rw [Croak.andThen_assoc]
        rfl
      · rw [sharedHashFind_andThen_finishes_iff
          fun index => sharedHashPut_finishes n key index child]
        simp [World.locked]

theorem hashDeletePtr_settled_iff (ptr : Option NodeId) (key : List UInt8) :
    SettledAfter world (sharedHashDeletePtr ptr key world) ↔
      ∃ n, ptr = some n ∧ (world.nodes n).body.IsHash := by
  cases ptr with
  | none => exact settled_iff_of_null rfl (by simp)
  | some n =>
    have keeps :
        (sharedHashFind n key >>= fun index =>
          sharedHashEntry n index >>= fun old =>
            sharedHashRemove n index >>= fun _ => pure old).Keeps
              World.lockDepth :=
      .andThen (keeps_sharedHashFind n key) fun index =>
        .andThen (keeps_sharedHashEntry n index) fun old =>
          .andThen (keeps_sharedHashRemove n index) fun _ => .pure old
    refine (settled_iff_finishes keeps id ?_).trans ?_
    · simp only [Croak.andThen_assoc]
      rfl
    · refine (sharedHashFind_andThen_finishes_iff ?_).trans ?_
      · intro index after
        cases index <;> trivial
      · simp [World.locked]

end Calls

section Settled

variable
  [DecidableEq Addr]
  [Fintype Addr]
  {conversions : Conversions Addr}
  {perl : Perl Addr}
  {world : World}

theorem sharedImportInto_finishes_iff (perl : Perl Addr) {dest : NodeId}
    (value : Scalar Addr) (allocated : dest < world.next) :
    (sharedImportInto perl dest value world).Finishes ↔
      ¬ perl.Fails value := by
  have ends := sharedImportInto_ends perl value allocated
  cases run : sharedImportInto perl dest value world with
  | returned result after =>
    rw [run] at ends
    exact iff_of_true trivial ends
  | croaked error after =>
    rw [run] at ends
    exact iff_of_false not_false (not_not.mpr ends)
  | undefined =>
    rw [run] at ends
    exact ends.elim
  | outOfFuel =>
    rw [run] at ends
    exact ends.elim

theorem import_andThen_finishes_iff {Result : Type}
    {rest : Unit → SharedM Result} {dest : NodeId} (perl : Perl Addr)
    (value : Scalar Addr) (allocated : dest < world.next)
    (finishes : ∀ after, (rest () after).Finishes) :
    ((sharedImportInto perl dest value >>= rest) world).Finishes ↔
      ¬ perl.Fails value := by
  rw [← sharedImportInto_finishes_iff perl value allocated]
  cases run : sharedImportInto perl dest value world with
  | returned result after =>
    rw [Croak.bind_of_returned run]
    exact iff_of_true (finishes after) trivial
  | croaked error after =>
    rw [Croak.bind_of_croaked run]
    exact Iff.rfl
  | undefined =>
    rw [Croak.bind_of_undefined run]
    exact Iff.rfl
  | outOfFuel =>
    rw [Croak.bind_of_outOfFuel run]
    exact Iff.rfl

theorem nodeSet_settled_iff (ptr : Option NodeId) (value : Scalar Addr)
    (utf8 : Bool) (allocated : ∀ n ∈ ptr, n < world.next) :
    SettledAfter world (sharedNodeSet perl ptr value utf8 world) ↔
      ptr ≠ none ∧ ¬ perl.Fails value := by
  cases ptr with
  | none => exact settled_iff_of_null rfl (by simp)
  | some n =>
    have keeps :
        (sharedImportInto perl n value >>= fun _ =>
          sharedMarkUtf8 n value utf8).Keeps World.lockDepth :=
      .andThen (keeps_sharedImportInto perl n value)
        fun _ => keeps_sharedMarkUtf8 n value utf8
    refine (settled_iff_finishes keeps id ?_).trans ?_
    · rw [Croak.andThen_assoc]
      rfl
    · have inside : n < world.locked.next := allocated n rfl
      refine (import_andThen_finishes_iff perl value inside ?_).trans ?_
      · exact sharedMarkUtf8_finishes n value utf8
      · simp

theorem sharedHashEnsureNode_allocated {n : NodeId}
    {entries : List (List UInt8 × NodeId)}
    (isHash : (world.nodes n).body = .hash entries)
    (allocated : n < world.next)
    (closed : ∀ child ∈ entries.map Prod.snd, child < world.next)
    (key : List UInt8) :
    ∃ child after,
      sharedHashEnsureNode n key world = .returned child after ∧
        child < after.next := by
  cases found : lookupEntry entries key with
  | some child =>
    exact ⟨child, world, sharedHashEnsureNode_of_some isHash found,
      closed child (mem_of_lookupEntry found)⟩
  | none =>
    exact ⟨_, _, sharedHashEnsureNode_of_none isHash allocated found,
      Nat.lt_succ_self _⟩

theorem hashStore_settled_iff (ptr : Option NodeId) (key : List UInt8)
    (value : Scalar Addr) (allocated : ∀ n ∈ ptr, n < world.next)
    (closed : world.Closed) :
    SettledAfter world (sharedHashStore perl ptr key value world) ↔
      ∃ n, ptr = some n ∧ (world.nodes n).body.IsHash ∧
        ¬ perl.Fails value := by
  cases ptr with
  | none => exact settled_iff_of_null rfl (by simp)
  | some n =>
    have keeps :
        (sharedHashEnsureNode n key >>= fun child =>
          sharedImportInto perl child value).Keeps World.lockDepth :=
      .andThen (keeps_sharedHashEnsureNode n key)
        fun child => keeps_sharedImportInto perl child value
    refine (settled_iff_finishes keeps id ?_).trans ?_
    · rw [Croak.andThen_assoc]
      rfl
    by_cases isHash : (world.nodes n).body.IsHash
    · obtain ⟨entries, same⟩ := isHash
      have inside : n < world.locked.next := allocated n rfl
      have children :
          ∀ child ∈ entries.map Prod.snd, child < world.locked.next := by
        intro child member
        apply closed n inside
        rw [same]
        exact member
      obtain ⟨child, after, ensured, childAllocated⟩ :=
        @sharedHashEnsureNode_allocated world.locked n entries same
          inside children key
      rw [Croak.bind_of_returned ensured,
        sharedImportInto_finishes_iff perl value childAllocated]
      simp [SharedBody.IsHash, same]
    · have notHash :
          ∀ entries, (world.locked.nodes n).body ≠ .hash entries :=
        fun entries same => isHash ⟨entries, same⟩
      have croaked :
          sharedHashEnsureNode n key world.locked =
            .croaked "shared value is not a hash" world.locked :=
        Croak.bind_of_croaked (sharedHashGetNode_of_not_hash notHash key) _
      rw [Croak.bind_of_croaked croaked]
      simp [isHash, Outcome.Finishes]

theorem sharedArrayEnsureNode_allocated (n : NodeId) {items : SlotArray}
    (closed : ∀ child ∈ items.slots.filterMap id, child < world.next)
    (index : Nat) :
    ∃ child after,
      sharedArrayEnsureNode n items index world = .returned child after ∧
        child < after.next := by
  unfold sharedArrayEnsureNode
  cases found : (items.slots[index]?).join with
  | some child =>
    refine ⟨child, world, rfl, closed child ?_⟩
    have slot := Option.join_eq_some_iff.mp found
    simpa using List.mem_of_getElem? slot
  | none =>
    exact ⟨world.next, _, rfl, Nat.lt_succ_self _⟩

theorem keeps_sharedArrayEnsureNode (n : NodeId) (items : SlotArray)
    (index : Nat) :
    (sharedArrayEnsureNode n items index).Keeps World.lockDepth := by
  unfold sharedArrayEnsureNode
  split
  · exact .pure _
  · exact .andThen keeps_sharedNodeNew fun child =>
      .andThen (keeps_sharedSetBody n _) fun _ => .pure child

theorem arrayStore_settled_iff (ptr : Option NodeId) (index : Int)
    (value : Scalar Addr) (allocated : ∀ n ∈ ptr, n < world.next)
    (closed : world.Closed) :
    SettledAfter world (sharedArrayStore perl ptr index value world) ↔
      index < 0 ∨
        ∃ n, ptr = some n ∧
          ((world.nodes n).body.IsArray → ¬ perl.Fails value) := by
  unfold sharedArrayStore
  by_cases negative : index < 0
  · rw [if_pos negative]
    exact iff_of_true ⟨rfl, fun _ _ => rfl⟩ (Or.inl negative)
  rw [if_neg negative]
  cases ptr with
  | none => exact settled_iff_of_null rfl (by simp [negative])
  | some n =>
    by_cases isArray : (world.nodes n).body.IsArray
    · obtain ⟨items, same⟩ := isArray
      have read := @sharedArrayItems_of_array world.locked n items same
      have keeps :
          (sharedSetBody n
              (.array (items.covering (index.toNat + 1))) >>= fun _ =>
            sharedArrayEnsureNode n (items.covering (index.toNat + 1))
                index.toNat >>= fun child =>
              sharedImportInto perl child value).Keeps
                World.lockDepth :=
        .andThen (keeps_sharedSetBody n _) fun _ =>
          .andThen (keeps_sharedArrayEnsureNode n _ _) fun child =>
            keeps_sharedImportInto perl child value
      refine (settled_iff_finishes keeps id ?_).trans ?_
      · simp only [Croak.andThen_assoc]
        exact Croak.bind_of_returned read _
      have children :
          ∀ child ∈
              (items.covering (index.toNat + 1)).slots.filterMap id,
            child < world.next := by
        intro child member
        apply closed n (allocated n rfl)
        rw [same]
        unfold SlotArray.covering at member
        rw [SlotArray.filterMap_reserved] at member
        exact member
      obtain ⟨child, after, ensured, childAllocated⟩ :=
        @sharedArrayEnsureNode_allocated
          (world.locked.setBody n
            (.array (items.covering (index.toNat + 1)))) n _
          children index.toNat
      change
        ((sharedArrayEnsureNode n (items.covering (index.toNat + 1))
            index.toNat >>= fun child =>
              sharedImportInto perl child value)
          (world.locked.setBody n
            (.array (items.covering (index.toNat + 1))))).Finishes ↔ _
      rw [Croak.bind_of_returned ensured,
        sharedImportInto_finishes_iff perl value childAllocated]
      simp [SharedBody.IsArray, same, negative]
    · have notArray :
          ∀ items, (world.locked.nodes n).body ≠ .array items :=
        fun items same => isArray ⟨items, same⟩
      refine iff_of_true ?_ (Or.inr ⟨n, rfl, fun same =>
        (isArray same).elim⟩)
      exact settled_of_unlocked
        (Croak.bind_of_croaked (sharedArrayItems_of_not_array notArray) _)

theorem arrayAdd_settled_iff {Result : Type}
    {outcome : Outcome String World Result} (n : NodeId)
    (value : Scalar Addr) (add : SlotArray → NodeId → SlotArray)
    (result : Nat → Result)
    (unfolds :
      outcome =
        (sharedArrayItems n >>= fun _ =>
          sharedNodeNew >>= fun child =>
            sharedImportInto perl child value >>= fun _ =>
              sharedBody n >>= fun body =>
                sharedSetBody n (.array (add body.items child)) >>= fun _ =>
                  sharedUnlock >>= fun _ =>
                    pure (result (body.items.size + 1))) world.locked) :
    SettledAfter world outcome ↔
      ((world.nodes n).body.IsArray → ¬ perl.Fails value) := by
  by_cases isArray : (world.nodes n).body.IsArray
  · obtain ⟨items, same⟩ := isArray
    have read := @sharedArrayItems_of_array world.locked n items same
    have keeps :
        (sharedNodeNew >>= fun child =>
          sharedImportInto perl child value >>= fun _ =>
            sharedBody n >>= fun body =>
              sharedSetBody n (.array (add body.items child)) >>= fun _ =>
                pure (body.items.size + 1)).Keeps World.lockDepth :=
      .andThen keeps_sharedNodeNew fun child =>
        .andThen (keeps_sharedImportInto perl child value) fun _ =>
          .andThen (keeps_sharedBody n) fun body =>
            .andThen (keeps_sharedSetBody n _) fun _ => .pure _
    refine (settled_iff_finishes keeps result ?_).trans ?_
    · simp only [Croak.andThen_assoc]
      exact unfolds.trans (Croak.bind_of_returned read _)
    have inside : world.locked.next < world.locked.allocate.next :=
      Nat.lt_succ_self _
    refine (import_andThen_finishes_iff perl value inside ?_).trans ?_
    · intro after
      trivial
    · simp [SharedBody.IsArray, same]
  · have notArray :
        ∀ items, (world.locked.nodes n).body ≠ .array items :=
      fun items same => isArray ⟨items, same⟩
    refine iff_of_true ?_ fun same => (isArray same).elim
    exact settled_of_unlocked (unfolds.trans
      (Croak.bind_of_croaked (sharedArrayItems_of_not_array notArray) _))

theorem arrayPush_settled_iff (ptr : Option NodeId) (value : Scalar Addr) :
    SettledAfter world (sharedArrayPush perl ptr value world) ↔
      ∃ n, ptr = some n ∧
        ((world.nodes n).body.IsArray → ¬ perl.Fails value) := by
  cases ptr with
  | none => exact settled_iff_of_null rfl (by simp)
  | some n =>
    refine (arrayAdd_settled_iff n value SlotArray.push id rfl).trans ?_
    simp

theorem arrayUnshift_settled_iff (ptr : Option NodeId)
    (value : Scalar Addr) :
    SettledAfter world (sharedArrayUnshift perl ptr value world) ↔
      ∃ n, ptr = some n ∧
        ((world.nodes n).body.IsArray → ¬ perl.Fails value) := by
  cases ptr with
  | none => exact settled_iff_of_null rfl (by simp)
  | some n =>
    refine (arrayAdd_settled_iff n value SlotArray.unshift id
      rfl).trans ?_
    simp

end Settled

theorem World.closed_single_iv (value : Int64) :
    (World.single (.iv value)).Closed := by
  intro node allocated child member
  obtain rfl : node = 0 := Nat.lt_one_iff.mp allocated
  cases member

end DeveloperDashboard.GoRoutine
