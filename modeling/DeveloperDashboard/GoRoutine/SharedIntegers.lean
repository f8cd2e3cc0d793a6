import DeveloperDashboard.GoRoutine.SharedImport
import DeveloperDashboard.GoRoutine.SharedOperators

namespace DeveloperDashboard.GoRoutine

open Library

/-!
# Shared integers at the ends of their range

`shared_apply` steps an integer in place, takes a remainder of integers, and
adds, subtracts and multiplies in doubles.  An exact result is kept as long as
it is a double or lies out of range; a stored unsigned integer is read as a
signed one.
-/

variable {Addr : Type}

/-- The operations on a shared integer with integers as results. -/
inductive IntegerOp where
  | inc
  | dec
  | add
  | sub
  | mul
  | mod
  deriving DecidableEq, Repr

/-- The word by which `shared_apply` knows an operation. -/
def IntegerOp.op : IntegerOp → String
  | .inc => "inc"
  | .dec => "dec"
  | .add => "add"
  | .sub => "sub"
  | .mul => "mul"
  | .mod => "mod"

/-- The exact results: of a modulus, any remainder below the divisor. -/
def IntegerOp.Means
    (op : IntegerOp) (held first second result : Int) : Prop :=
  match op with
  | .inc => result = held + 1
  | .dec => result = held - 1
  | .add => result = first + second
  | .sub => result = first - second
  | .mul => result = first * second
  | .mod => second ∣ first - result ∧ |result| < |second|

/-- The number that a node of a scalar kind holds. -/
def SharedBody.number? : SharedBody → Option Double
  | .iv value => some (.finite value.toInt)
  | .nv value => some value
  | _ => none

/--
A run stores an exact result, or a double where no exact result fits; it dies
only for a modulus by zero.
-/
def KeepsInteger (op : IntegerOp) (node : NodeId) (held first second : Int) :
    Outcome String World Unit → Prop
  | .returned _ after =>
    (∃ result, op.Means held first second result ∧
      (after.nodes node).body.number? = some (.finite result)) ∨
    ((∃ number, (after.nodes node).body = .nv number) ∧
      ∀ result, op.Means held first second result → ¬ IsIv result)
  | .croaked _ _ => op = .mod ∧ second = 0
  | _ => False

instance (value : Int) : Decidable (IsIv value) :=
  inferInstanceAs (Decidable (_ ∧ _))

/--
When an operation in doubles is right: rounding does not change an exact result
that is an IV, and another one is not cast to an IV.
-/
def SafeInDoubles
    (operate : ℚ → ℚ → ℚ) (exact first second argument : Int) : Prop :=
  if IsIv exact then RoundsThrough operate first second exact
  else Representable argument

/-- When an operation keeps a shared integer exact. -/
def IntegerOp.Safe
    (op : IntegerOp) (held first second argument : Int) : Prop :=
  match op with
  | .inc => held ≠ ivMax
  | .dec => held ≠ ivMin
  | .add => SafeInDoubles (· + ·) (first + second) first second argument
  | .sub => SafeInDoubles (· - ·) (first - second) first second argument
  | .mul => SafeInDoubles (· * ·) (first * second) first second argument
  | .mod => ¬ (first = ivMin ∧ second = -1)

/-- A stored integer is read back as the same number. -/
def ReadsBack
    (node : NodeId) (value : PerlInteger) (state : ImportState Addr) :
    Prop :=
  ∃ after read,
    sharedImportScalar node (.integer value) state = .returned () after ∧
      sharedCopyScalar node after.world =
        .returned (.integer read : Scalar Addr) after.world ∧
      read.value = value.value

section Steps

variable {conversions : Conversions Addr}
variable {world : World}
variable {node : NodeId}
variable {held : Int64}
variable {first second : Int}

theorem isIv_toInt (value : Int64) : IsIv value.toInt := by
  have lower := value.le_toInt
  have upper := value.toInt_lt
  unfold IsIv ivMin ivMax
  omega

theorem keepsInteger_step_iff {op : IntegerOp} {stepped : Int}
    (means : ∀ result,
      op.Means held.toInt first second result ↔ result = stepped) :
    KeepsInteger op node held.toInt first second
        (sharedStepIv node stepped world) ↔
      IsIv stepped := by
  unfold sharedStepIv
  by_cases fits : ivMin ≤ stepped ∧ stepped ≤ ivMax
  · rw [if_pos fits]
    refine iff_of_true (.inl ⟨stepped, (means _).mpr rfl, ?_⟩) fits
    have stored :
        ((world.setBody node (.iv (Int64.ofInt stepped))).nodes node).body =
          .iv (Int64.ofInt stepped) :=
      World.setBody_body_self _ _ _
    rw [stored, SharedBody.number?, int64_ofInt_toInt fits.1 fits.2]
  · rw [if_neg fits]
    exact iff_of_false id fits

theorem sharedApply_step (isIv : (world.nodes node).body = .iv held)
    {arg : Scalar Addr} {reverse : Bool} :
    sharedApply conversions node "inc" arg reverse world =
        sharedStepIv node (held.toInt + 1) world ∧
      sharedApply conversions node "dec" arg reverse world =
        sharedStepIv node (held.toInt - 1) world := by
  have read := sharedBody_eq isIv
  constructor
  · refine (Croak.bind_of_returned read _).trans ?_
    exact Croak.bind_of_returned read _
  · refine (Croak.bind_of_returned read _).trans ?_
    exact Croak.bind_of_returned read _

end Steps

section Doubles

variable {conversions : Conversions Addr}
variable {world : World}
variable {node : NodeId}
variable {held argument : Int64}
variable {reverse : Bool}
variable {first second : Int}

theorem setNode_body_self (contents : SharedNode) :
    ((world.setNode node contents).nodes node).body = contents.body := by
  rw [World.setNode_nodes_self]

theorem keepsInteger_iv_iff {op : IntegerOp} {exact whole : Int}
    (means : ∀ result,
      op.Means held.toInt first second result ↔ result = exact)
    (fits : IsIv whole) :
    KeepsInteger op node held.toInt first second
        (sharedStoreIv node (Int64.ofInt whole) world) ↔
      whole = exact := by
  have number :
      (SharedBody.iv (Int64.ofInt whole)).number? =
        some (.finite whole) := by
    rw [SharedBody.number?, int64_ofInt_toInt fits.1 fits.2]
  constructor
  · rintro (⟨result, isResult, holds⟩ | ⟨⟨double, holds⟩, -⟩)
    · rw [setNode_body_self, number] at holds
      have same := Double.finite.inj (Option.some.inj holds)
      rw [(means result).mp isResult] at same
      exact_mod_cast same
    · rw [setNode_body_self] at holds
      cases holds
  · rintro rfl
    refine .inl ⟨whole, (means whole).mpr rfl, ?_⟩
    rw [setNode_body_self, number]

theorem keepsInteger_nv_iff {op : IntegerOp} {exact whole : Int}
    (means : ∀ result,
      op.Means held.toInt first second result ↔ result = exact) :
    KeepsInteger op node held.toInt first second
        (sharedStoreNv node (.finite whole) world) ↔
      (IsIv exact → whole = exact) := by
  constructor
  · rintro (⟨result, isResult, holds⟩ | ⟨-, noneFits⟩) fits
    · rw [setNode_body_self] at holds
      have same := Double.finite.inj (Option.some.inj holds)
      rw [(means result).mp isResult] at same
      exact_mod_cast same
    · exact absurd fits (noneFits exact ((means exact).mpr rfl))
  · intro safe
    by_cases fits : IsIv exact
    · refine .inl ⟨whole, (means whole).mpr (safe fits), ?_⟩
      rw [setNode_body_self]
      rfl
    · refine .inr ⟨⟨_, setNode_body_self _⟩, fun result isResult => ?_⟩
      rwa [(means result).mp isResult]

theorem keepsInteger_of_computed (isIv : (world.nodes node).body = .iv held)
    {operator : Arithmetic}
    (notMod : operator ≠ .mod) (notDiv : operator.op ≠ "div") {whole : Int}
    (computed :
      sharedArithmetic operator.op
          (operands reverse (integerNv held.toInt)
            (integerNv argument.toInt)).1
          (operands reverse (integerNv held.toInt)
            (integerNv argument.toInt)).2 world =
        .returned (.finite whole) world)
    {op : IntegerOp} {exact : Int}
    (means : ∀ result,
      op.Means held.toInt first second result ↔ result = exact) :
    KeepsInteger op node held.toInt first second
        (sharedApply conversions node operator.op
          (.integer (.ofIv argument)) reverse world) ↔
      if IsIv exact then whole = exact
      else Representable argument.toInt := by
  have applied :=
    @sharedApply_iv _ conversions world node (.integer (.ofIv argument))
      reverse held isIv operator notMod _ computed
  by_cases inexact :
      isInexactInteger (.integer (.ofIv argument) : Scalar Addr) = true
  · have notRepresentable :=
      (isInexactInteger_iff (.ofIv argument)).mp inexact
    rw [if_pos ⟨notDiv, inexact⟩] at applied
    have cast := truncateIv_integer whole world
    by_cases fits : ivMin ≤ whole ∧ whole ≤ ivMax
    · rw [if_pos fits] at cast
      rw [applied.trans (Croak.bind_of_returned cast _),
        keepsInteger_iv_iff means fits]
      constructor
      · rintro rfl
        exact (if_pos fits).mpr rfl
      · intro safe
        split at safe
        · exact safe
        · exact absurd safe notRepresentable
    · rw [if_neg fits] at cast
      rw [applied.trans (Croak.bind_of_undefined cast _)]
      refine iff_of_false id fun safe => ?_
      split at safe
      · next exactFits => exact fits (safe ▸ exactFits)
      · exact notRepresentable safe
  · have representable : Representable argument.toInt := by
      rw [isInexactInteger_iff] at inexact
      exact not_not.mp inexact
    rw [if_neg fun both => inexact both.2] at applied
    rw [applied, keepsInteger_nv_iff means]
    split
    · next fits => exact ⟨fun safe => safe fits, fun same _ => same⟩
    · next outside =>
        exact iff_of_true (fun fits => absurd fits outside)
          representable

theorem operands_toInt
    (ordered :
      operands reverse held.toInt argument.toInt = (first, second)) :
    operands reverse (integerNv held.toInt) (integerNv argument.toInt) =
        (integerNv first, integerNv second) ∧
      IsIv first ∧ IsIv second := by
  rw [operands_map integerNv, ordered]
  refine ⟨rfl, ?_⟩
  cases reverse with
  | false =>
    obtain ⟨rfl, rfl⟩ := Prod.mk.inj ordered
    exact ⟨isIv_toInt _, isIv_toInt _⟩
  | true =>
    obtain ⟨rfl, rfl⟩ := Prod.mk.inj ordered
    exact ⟨isIv_toInt _, isIv_toInt _⟩

theorem keepsInteger_double_iff (isIv : (world.nodes node).body = .iv held)
    (ordered :
      operands reverse held.toInt argument.toInt = (first, second))
    {operator : Arithmetic}
    (notMod : operator ≠ .mod) (notDiv : operator.op ≠ "div")
    {op : IntegerOp} {exact : Int}
    (means : ∀ result,
      op.Means held.toInt first second result ↔ result = exact)
    {operate : ℚ → ℚ → ℚ}
    (integral : ∃ whole : Int,
      operate (roundToUlp first) (roundToUlp second) = whole)
    (computed :
      sharedArithmetic operator.op (integerNv first) (integerNv second)
          world =
        .returned
          (.finite
            (roundToUlp (operate (roundToUlp first) (roundToUlp second))))
          world) :
    KeepsInteger op node held.toInt first second
        (sharedApply conversions node operator.op
          (.integer (.ofIv argument)) reverse world) ↔
      SafeInDoubles operate exact first second argument.toInt := by
  obtain ⟨unrounded, isUnrounded⟩ := integral
  obtain ⟨whole, isWhole⟩ := roundToUlp_integer unrounded
  rw [isUnrounded, isWhole] at computed
  obtain ⟨doubles, -, -⟩ := operands_toInt ordered
  have keeps :=
    @keepsInteger_of_computed _ conversions world node held argument
      reverse first second isIv operator notMod notDiv whole
      (by rw [doubles]; exact computed) op exact means
  rw [keeps]
  unfold SafeInDoubles
  split
  · rw [roundsThrough_iff, isUnrounded, isWhole]
    constructor
    · rintro rfl
      rfl
    · intro same
      exact_mod_cast same.symm
  · rfl

end Doubles

section Operations

variable {conversions : Conversions Addr}
variable {world : World}
variable {node : NodeId}
variable {held argument : Int64}
variable {reverse : Bool}
variable {first second : Int}

theorem exists_roundedOperands (first second : Int) :
    ∃ firstNv secondNv : Int,
      roundToUlp (first : ℚ) = firstNv ∧
        roundToUlp (second : ℚ) = secondNv := by
  obtain ⟨firstNv, isFirst⟩ := roundToUlp_integer first
  obtain ⟨secondNv, isSecond⟩ := roundToUlp_integer second
  exact ⟨firstNv, secondNv, isFirst, isSecond⟩

theorem keepsInteger_mod_iff (isIv : (world.nodes node).body = .iv held)
    (ordered :
      operands reverse held.toInt argument.toInt = (first, second)) :
    KeepsInteger .mod node held.toInt first second
        (sharedApply conversions node "mod" (.integer (.ofIv argument))
          reverse world) ↔
      ¬ (first = ivMin ∧ second = -1) := by
  have applied :=
    @sharedApply_iv_mod _ conversions world node
      (.integer (.ofIv argument)) reverse held isIv
  have kept :
      svIv conversions (.integer (.ofIv argument) : Scalar Addr) =
        argument :=
    Int64.ofInt_toInt argument
  rw [kept] at applied
  obtain ⟨firstIv, secondIv⟩ :
      (operands reverse held argument).1.toInt = first ∧
        (operands reverse held argument).2.toInt = second := by
    rw [operands_map Int64.toInt] at ordered
    exact Prod.mk.inj ordered
  by_cases zero : second = 0
  · have divisor : (operands reverse held argument).2 = 0 := by
      rw [← Int64.toInt_inj, secondIv, zero]
      rfl
    rw [applied, if_pos divisor]
    refine iff_of_true ⟨rfl, zero⟩ ?_
    rintro ⟨-, minusOne⟩
    omega
  · have divisor : (operands reverse held argument).2 ≠ 0 := by
      intro vanishes
      rw [vanishes] at secondIv
      exact zero secondIv.symm
    rw [applied, if_neg divisor]
    unfold remainderIv
    rw [firstIv, secondIv]
    by_cases overflows : first = ivMin ∧ second = -1
    · rw [if_pos overflows]
      exact iff_of_false id fun safe => safe overflows
    · rw [if_neg overflows]
      have below : |first.tmod second| < |second| := by
        rw [Int.abs_eq_natAbs, Int.abs_eq_natAbs, Int.natAbs_tmod]
        exact_mod_cast Nat.mod_lt _ (Int.natAbs_pos.mpr zero)
      have secondBounds := isIv_toInt (operands reverse held argument).2
      rw [secondIv] at secondBounds
      unfold IsIv ivMin ivMax at secondBounds
      have bounds := abs_lt.mp below
      have sign := abs_cases second
      refine iff_of_true (.inl ⟨first.tmod second, ?_, ?_⟩) overflows
      · exact ⟨Int.dvd_self_sub_tmod, below⟩
      · have stored :=
          @setNode_body_self world node
            ⟨none, .iv (Int64.ofInt (first.tmod second))⟩
        refine (congrArg SharedBody.number? stored).trans ?_
        rw [SharedBody.number?, int64_ofInt_toInt]
        · unfold ivMin
          omega
        · unfold ivMax
          omega

theorem keepsInteger_iff (isIv : (world.nodes node).body = .iv held)
    (ordered :
      operands reverse held.toInt argument.toInt = (first, second))
    (op : IntegerOp) :
    KeepsInteger op node held.toInt first second
        (sharedApply conversions node op.op (.integer (.ofIv argument))
          reverse world) ↔
      op.Safe held.toInt first second argument.toInt := by
  obtain ⟨-, firstIv, secondIv⟩ := operands_toInt ordered
  obtain ⟨firstNv, secondNv, isFirst, isSecond⟩ :=
    exists_roundedOperands first second
  have heldIv := isIv_toInt held
  unfold IsIv ivMin ivMax at firstIv secondIv heldIv
  cases op with
  | inc =>
    rw [IntegerOp.op, (sharedApply_step isIv).1,
      keepsInteger_step_iff fun _ => Iff.rfl]
    unfold IsIv IntegerOp.Safe ivMin ivMax
    omega
  | dec =>
    rw [IntegerOp.op, (sharedApply_step isIv).2,
      keepsInteger_step_iff fun _ => Iff.rfl]
    unfold IsIv IntegerOp.Safe ivMin ivMax
    omega
  | add =>
    have notMod : Arithmetic.add ≠ .mod := by decide
    refine keepsInteger_double_iff isIv ordered notMod (by decide)
      (fun _ => Iff.rfl) ⟨firstNv + secondNv, ?_⟩ ?_
    · rw [isFirst, isSecond, Int.cast_add]
    · rw [← add_integerNv (by omega) (by omega) (by omega) (by omega)]
      rfl
  | sub =>
    have notMod : Arithmetic.sub ≠ .mod := by decide
    refine keepsInteger_double_iff isIv ordered notMod (by decide)
      (fun _ => Iff.rfl) ⟨firstNv - secondNv, ?_⟩ ?_
    · rw [isFirst, isSecond, Int.cast_sub]
    · rw [← sub_integerNv (by omega) (by omega) (by omega) (by omega)]
      rfl
  | mul =>
    have notMod : Arithmetic.mul ≠ .mod := by decide
    refine keepsInteger_double_iff isIv ordered notMod (by decide)
      (fun _ => Iff.rfl) ⟨firstNv * secondNv, ?_⟩ ?_
    · rw [isFirst, isSecond, Int.cast_mul]
    · rw [← mul_integerNv (by omega) (by omega) (by omega) (by omega)]
      rfl
  | mod => exact keepsInteger_mod_iff isIv ordered

theorem readsBack_iff (value : PerlInteger) (state : ImportState Addr) :
    ReadsBack node value state ↔ value.value ≤ ivMax := by
  let stored : SharedNode := ⟨none, .iv (Int64.ofInt value.value)⟩
  let after : ImportState Addr :=
    { state with world := state.world.setNode node stored }
  have imported :
      sharedImportScalar node (.integer value) state =
        .returned () after :=
    rfl
  have body : (after.world.nodes node).body = stored.body :=
    setNode_body_self stored
  have copied :
      sharedCopyScalar node after.world =
        .returned
          (.integer (.ofIv (Int64.ofInt value.value)) : Scalar Addr)
          after.world := by
    have isScalar : (after.world.nodes node).body.isReference = false := by
      rw [body]
      rfl
    rw [sharedCopyScalar_of_scalar isScalar, body]
    rfl
  have inRange := isIv_toInt (Int64.ofInt value.value)
  constructor
  · rintro ⟨final, read, isImported, isCopied, same⟩
    rw [imported] at isImported
    cases isImported
    rw [copied] at isCopied
    cases isCopied
    have unchanged : (Int64.ofInt value.value).toInt = value.value := same
    rw [unchanged] at inRange
    exact inRange.2
  · intro fits
    exact ⟨after, _, imported, copied, int64_ofInt_toInt value.lower fits⟩

/--
A shared integer is kept exact by an operation if and only if the operation is
safe on the operands, and an integer is read back as it was stored if and only
if it is an IV.
-/
theorem integersKept_iff (isIv : (world.nodes node).body = .iv held)
    (op : IntegerOp) (argument : Int64) (reverse : Bool)
    (value : PerlInteger) (state : ImportState Addr) :
    (KeepsInteger op node held.toInt
        (operands reverse held.toInt argument.toInt).1
        (operands reverse held.toInt argument.toInt).2
        (sharedApply conversions node op.op (.integer (.ofIv argument))
          reverse world) ↔
      op.Safe held.toInt
        (operands reverse held.toInt argument.toInt).1
        (operands reverse held.toInt argument.toInt).2
        argument.toInt) ∧
      (ReadsBack node value state ↔ value.value ≤ ivMax) :=
  ⟨keepsInteger_iff isIv rfl op, readsBack_iff value state⟩

theorem integersKept_iff_sum :
    (KeepsInteger .add 0 5 5 7
        (sharedApply Conversions.none 0 "add" (.integer (.ofIv 7)) false
          (World.ofIv 5)) ↔
      IntegerOp.add.Safe 5 5 7 7) ∧
      (ReadsBack 0 (.ofIv 5)
          (⟨World.ofIv 5, []⟩ : ImportState Empty) ↔
        (PerlInteger.ofIv 5).value ≤ ivMax) :=
  @integersKept_iff Empty Conversions.none (World.ofIv 5) 0 5 rfl .add 7
    false (.ofIv 5) ⟨World.ofIv 5, []⟩

/-- One more than the largest IV is undefined. -/
theorem increment_overflows :
    ¬ ∀ (world : World) (node : NodeId) (held argument : Int64),
      (world.nodes node).body = .iv held →
        KeepsInteger .inc node held.toInt held.toInt argument.toInt
          (sharedApply Conversions.none node "inc"
            (.integer (.ofIv argument)) false world) := by
  intro always
  have kept := always (World.ofIv 9223372036854775807) 0
    9223372036854775807 1 rfl
  rw [(sharedApply_step rfl).1,
    keepsInteger_step_iff fun _ => Iff.rfl] at kept
  exact absurd kept (by decide)

end Operations

end DeveloperDashboard.GoRoutine
