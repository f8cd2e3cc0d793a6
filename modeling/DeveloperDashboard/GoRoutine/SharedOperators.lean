import DeveloperDashboard.GoRoutine.SharedScalar

namespace DeveloperDashboard.GoRoutine

open Library

/-!
# Pending operations on a shared scalar

An operator on a shared value makes a `SharedOp`.  Assigned to a shared scalar
it is applied in place by `_shared_scalar_apply`; used as a value it is
evaluated by the operators of Perl, which work on integers as long as they
can.  The two agree on integers exactly under the condition of `AgreesOn`.
-/

variable {Addr : Type}

inductive Arithmetic where
  | add
  | sub
  | mul
  | div
  | mod
  deriving DecidableEq, Repr

/-- The word by which a pending operation names its operator. -/
def Arithmetic.op : Arithmetic → String
  | .add => "add"
  | .sub => "sub"
  | .mul => "mul"
  | .div => "div"
  | .mod => "mod"

/-- `SharedOp`. -/
structure SharedOp (Addr : Type) where
  ptr : NodeId
  op : String
  arg : Scalar Addr
  reverse : Bool

/-- The operators of Perl on operands that are not both integers. -/
structure OtherOperators (Addr : Type) where
  arithmetic :
    Arithmetic → Scalar Addr → Scalar Addr → Except String (Scalar Addr)
  concat : Scalar Addr → Scalar Addr → Scalar Addr

/-- An exact result as an IV or a UV, or else a double. -/
def integerOrNv (exact : Int) (otherwise : Double) : Scalar Addr :=
  if fits : ivMin ≤ exact ∧ exact ≤ uvMax then
    .integer ⟨exact, fits.1, fits.2⟩
  else
    .number otherwise

/--
The result of an addition: exact, or the negated double of a magnitude that
fits a UV, or the sum of the doubles.
-/
def perlSum (first second : Int) : Scalar Addr :=
  integerOrNv (first + second)
    (if -uvMax ≤ first + second ∧ first + second < ivMin then
      integerNv (first + second)
    else
      (integerNv first).add (integerNv second))

def perlDifference (first second : Int) : Scalar Addr :=
  integerOrNv (first - second)
    (if -uvMax ≤ first - second ∧ first - second < ivMin then
      integerNv (first - second)
    else
      (integerNv first).sub (integerNv second))

/-- The result of a multiplication: exact, or the product of the doubles. -/
def perlProduct (first second : Int) : Scalar Addr :=
  integerOrNv (first * second)
    ((integerNv first).mul (integerNv second))

/-- Whether a division is tried on the integers, and comes out even. -/
def DividesExactly (first second : Int) : Prop :=
  2 ^ 53 < first.natAbs ∧ second.natAbs ≤ first.natAbs ∧
    second ∣ first

instance (first second : Int) : Decidable (DividesExactly first second) :=
  inferInstanceAs (Decidable (_ ∧ _ ∧ _))

def perlQuotient (first second : Int) :
    Except String (Scalar Addr) :=
  if second = 0 then
    .error "Illegal division by zero"
  else if DividesExactly first second then
    .ok (integerOrNv (first / second) (integerNv (first / second)))
  else
    .ok (.number ((integerNv first).div (integerNv second)))

/-- The result of a modulus, which has the sign of the second operand. -/
def perlRemainder (first second : Int) :
    Except String (Scalar Addr) :=
  if second = 0 then
    .error "Illegal modulus zero"
  else
    .ok (integerOrNv (first.fmod second) (integerNv (first.fmod second)))

def perlOperate (other : OtherOperators Addr) (op : Arithmetic) :
    Scalar Addr → Scalar Addr → Except String (Scalar Addr)
  | .integer first, .integer second =>
    match op with
    | .add => .ok (perlSum first.value second.value)
    | .sub => .ok (perlDifference first.value second.value)
    | .mul => .ok (perlProduct first.value second.value)
    | .div => perlQuotient first.value second.value
    | .mod => perlRemainder first.value second.value
  | first, second => other.arithmetic op first second

/-- The result of an operator, or `die`. -/
def orDie (result : Except String (Scalar Addr)) : SharedM (Scalar Addr) :=
  match result with
  | .ok value => pure value
  | .error error => Croak.croak error

/-- `SharedOp::_evaluate`. -/
def sharedOpEvaluate (other : OtherOperators Addr)
    (pending : SharedOp Addr) :
    SharedM (Scalar Addr) := do
  let left ← sharedScalarGet (some pending.ptr)
  let (first, second) := operands pending.reverse left pending.arg
  if pending.op = "add" then orDie (perlOperate other .add first second)
  else if pending.op = "sub" then orDie (perlOperate other .sub first second)
  else if pending.op = "mul" then orDie (perlOperate other .mul first second)
  else if pending.op = "div" then orDie (perlOperate other .div first second)
  else if pending.op = "mod" then orDie (perlOperate other .mod first second)
  else if pending.op = "concat" then pure (other.concat first second)
  else
    Croak.croak ("unknown shared operation '" ++ pending.op ++ "'")

def sharedOpAssign (conversions : Conversions Addr)
    (pending : SharedOp Addr) :
    SharedM (Scalar Addr) := do
  sharedScalarApply conversions (some pending.ptr) pending.op pending.arg
    pending.reverse
  sharedScalarGet (some pending.ptr)

def Scalar.exact : Scalar Addr → Option Double
  | .integer value => some (.finite value.value)
  | .number value => some value
  | _ => none

/-- Two runs give the same number, or both fail. -/
def Agree :
    Outcome String World (Scalar Addr) →
    Outcome String World (Scalar Addr) → Prop
  | .returned first _, .returned second _ => first.exact = second.exact
  | .croaked _ _, .croaked _ _ => True
  | _, _ => False

@[simp] theorem agree_returned (first second : Scalar Addr)
    (world after : World) :
    Agree (.returned first world) (.returned second after) ↔
      first.exact = second.exact :=
  Iff.rfl

@[simp] theorem Scalar.exact_integer (value : PerlInteger) :
    (Scalar.integer value : Scalar Addr).exact =
      some (.finite value.value) :=
  rfl

@[simp] theorem Scalar.exact_number (value : Double) :
    (Scalar.number value : Scalar Addr).exact = some value :=
  rfl

def RoundsThrough (operate : ℚ → ℚ → ℚ) (first second : Int)
    (result : ℚ) : Prop :=
  ∃ firstNv secondNv : ℚ,
    Nearest first firstNv ∧ Nearest second secondNv ∧
      Nearest (operate firstNv secondNv) result

/--
When an addition or a subtraction in place is right: rounding does not change
the exact result, and one that is no IV is not cast to it because `SvNV` found
the argument to be a double; below the integers, where Perl rounds as well,
rounding the operands first makes no difference.
-/
def SumAgrees (operate : ℚ → ℚ → ℚ)
    (exact first second argument : Int) : Prop :=
  if ivMin ≤ exact then
    RoundsThrough operate first second exact ∧
      (exact ≤ ivMax ∨ Representable argument)
  else
    ∃ result : ℚ,
      Nearest exact result ∧ RoundsThrough operate first second result ∧
        (ivMin ≤ result ∨ Representable argument)

/--
When a multiplication in place is right: as for a sum where the exact result
is an IV or a UV, and elsewhere unless the cast to an IV is out of range.
-/
def ProductAgrees (first second argument : Int) : Prop :=
  if ivMin ≤ first * second ∧ first * second ≤ uvMax then
    RoundsThrough (· * ·) first second (first * second : Int) ∧
      (first * second ≤ ivMax ∨ Representable argument)
  else
    Representable argument ∨
      ∃ result : ℚ,
        RoundsThrough (· * ·) first second result ∧
          ivMin ≤ result ∧ result ≤ ivMax

/-- When the in-place operation on these operands agrees with Perl. -/
def AgreesOn (first second argument : Int) : Arithmetic → Prop
  | .add => SumAgrees (· + ·) (first + second) first second argument
  | .sub => SumAgrees (· - ·) (first - second) first second argument
  | .mul => ProductAgrees first second argument
  | .div =>
    second = 0 ∨ ¬ DividesExactly first second ∨
      RoundsThrough (· / ·) first second (first / second : Int)
  | .mod =>
    second = 0 ∨
      (second ∣ first ∨ (0 < first ↔ 0 < second)) ∧
        ¬ (first = ivMin ∧ second = -1)

theorem integerNv_eq {value : Int} (lower : -2 ^ 64 ≤ value)
    (upper : value ≤ 2 ^ 64) :
    integerNv value = .finite (roundToUlp value) := by
  apply Double.round_of_abs_le
  have bound : |value| ≤ 2 ^ 64 := abs_le.mpr ⟨lower, upper⟩
  have boundRational : |(value : ℚ)| ≤ 2 ^ 64 := by
    exact_mod_cast bound
  exact boundRational.trans
    (pow_le_pow_right₀ (by norm_num) (by norm_num))

theorem isInexactInteger_iff (value : PerlInteger) :
    isInexactInteger (.integer value : Scalar Addr) = true ↔
      ¬ Representable value.value := by
  have lower := value.lower
  have upper := value.upper
  unfold ivMin at lower
  unfold uvMax at upper
  unfold isInexactInteger
  rw [decide_eq_true_iff,
    integerNv_eq (by omega) (by omega), representable_iff]
  simp

theorem roundsThrough_iff (operate : ℚ → ℚ → ℚ) (first second : Int)
    (result : ℚ) :
    RoundsThrough operate first second result ↔
      result =
        roundToUlp (operate (roundToUlp first) (roundToUlp second)) := by
  simp [RoundsThrough, nearest_iff]

section Numbers

variable {first second : Int}

theorem abs_roundToUlp_integer_le {value : Int} (lower : -2 ^ 64 ≤ value)
    (upper : value ≤ 2 ^ 64) :
    |roundToUlp value| ≤ 2 ^ 65 := by
  have bound : |value| ≤ 2 ^ 64 := abs_le.mpr ⟨lower, upper⟩
  have boundRational : |(value : ℚ)| ≤ 2 ^ 64 := by
    exact_mod_cast bound
  have doubled := abs_roundToUlp_le (value : ℚ)
  linarith

theorem add_integerNv
    (firstLower : -2 ^ 64 ≤ first) (firstUpper : first ≤ 2 ^ 64)
    (secondLower : -2 ^ 64 ≤ second) (secondUpper : second ≤ 2 ^ 64) :
    (integerNv first).add (integerNv second) =
      .finite (roundToUlp (roundToUlp first + roundToUlp second)) := by
  rw [integerNv_eq firstLower firstUpper,
    integerNv_eq secondLower secondUpper]
  apply Double.round_of_abs_le
  have firstBound := abs_roundToUlp_integer_le firstLower firstUpper
  have secondBound := abs_roundToUlp_integer_le secondLower secondUpper
  calc |roundToUlp (first : ℚ) + roundToUlp second|
      ≤ |roundToUlp (first : ℚ)| + |roundToUlp (second : ℚ)| :=
        abs_add_le _ _
    _ ≤ 2 ^ 66 := by linarith
    _ ≤ 2 ^ 1000 := pow_le_pow_right₀ (by norm_num) (by norm_num)

theorem sub_integerNv
    (firstLower : -2 ^ 64 ≤ first) (firstUpper : first ≤ 2 ^ 64)
    (secondLower : -2 ^ 64 ≤ second) (secondUpper : second ≤ 2 ^ 64) :
    (integerNv first).sub (integerNv second) =
      .finite (roundToUlp (roundToUlp first - roundToUlp second)) := by
  rw [integerNv_eq firstLower firstUpper,
    integerNv_eq secondLower secondUpper, sub_eq_add_neg]
  apply Double.round_of_abs_le
  have firstBound := abs_roundToUlp_integer_le firstLower firstUpper
  have secondBound := abs_roundToUlp_integer_le secondLower secondUpper
  rw [← sub_eq_add_neg]
  calc |roundToUlp (first : ℚ) - roundToUlp second|
      ≤ |roundToUlp (first : ℚ)| + |roundToUlp (second : ℚ)| :=
        abs_sub _ _
    _ ≤ 2 ^ 66 := by linarith
    _ ≤ 2 ^ 1000 := pow_le_pow_right₀ (by norm_num) (by norm_num)

theorem mul_integerNv
    (firstLower : -2 ^ 64 ≤ first) (firstUpper : first ≤ 2 ^ 64)
    (secondLower : -2 ^ 64 ≤ second) (secondUpper : second ≤ 2 ^ 64) :
    (integerNv first).mul (integerNv second) =
      .finite (roundToUlp (roundToUlp first * roundToUlp second)) := by
  rw [integerNv_eq firstLower firstUpper,
    integerNv_eq secondLower secondUpper]
  apply Double.round_of_abs_le
  have firstBound := abs_roundToUlp_integer_le firstLower firstUpper
  have secondBound := abs_roundToUlp_integer_le secondLower secondUpper
  calc |roundToUlp (first : ℚ) * roundToUlp second|
      = |roundToUlp (first : ℚ)| * |roundToUlp (second : ℚ)| :=
        abs_mul _ _
    _ ≤ 2 ^ 65 * 2 ^ 65 := by gcongr
    _ = 2 ^ 130 := by rw [← pow_add]
    _ ≤ 2 ^ 1000 := pow_le_pow_right₀ (by norm_num) (by norm_num)

theorem div_integerNv
    (firstLower : -2 ^ 64 ≤ first) (firstUpper : first ≤ 2 ^ 64)
    (secondLower : -2 ^ 64 ≤ second) (secondUpper : second ≤ 2 ^ 64)
    (nonzero : second ≠ 0) :
    (integerNv first).div (integerNv second) =
      .finite (roundToUlp (roundToUlp first / roundToUlp second)) := by
  have nonzeroNv := roundToUlp_integer_ne_zero nonzero
  have atLeastOne : 1 ≤ |roundToUlp (second : ℚ)| := by
    obtain ⟨rounded, isRounded⟩ := roundToUlp_integer second
    rw [isRounded] at nonzeroNv ⊢
    have apart : 1 ≤ |rounded| :=
      Int.one_le_abs (by exact_mod_cast nonzeroNv)
    exact_mod_cast apart
  rw [integerNv_eq firstLower firstUpper,
    integerNv_eq secondLower secondUpper, Double.div_finite _ nonzeroNv]
  apply Double.round_of_abs_le
  have firstBound := abs_roundToUlp_integer_le firstLower firstUpper
  calc |roundToUlp (first : ℚ) / roundToUlp second|
      = |roundToUlp (first : ℚ)| / |roundToUlp (second : ℚ)| :=
        abs_div _ _
    _ ≤ |roundToUlp (first : ℚ)| :=
        div_le_self (abs_nonneg _) atLeastOne
    _ ≤ 2 ^ 65 := firstBound
    _ ≤ 2 ^ 1000 := pow_le_pow_right₀ (by norm_num) (by norm_num)

end Numbers

section Runs

variable {conversions : Conversions Addr}
variable {world after : World}
variable {node : NodeId}
variable {op : String}
variable {arg : Scalar Addr}
variable {reverse : Bool}
variable {held : Int64}

section

variable (isIv : (world.nodes node).body = .iv held)

include isIv

theorem sharedScalarGet_iv :
    sharedScalarGet (some node) world =
      .returned (.integer (.ofIv held) : Scalar Addr) world := by
  have copied :
      sharedCopyScalar node world.locked =
        .returned (.integer (.ofIv held) : Scalar Addr) world.locked := by
    have read : sharedBody node world.locked =
        .returned (.iv held) world.locked := by
      rw [← isIv]
      rfl
    exact Croak.bind_of_returned read _
  exact Croak.bind_of_returned copied _

omit isIv in
theorem sharedScalarGet_nv {number : Double}
    (isNv : (world.nodes node).body = .nv number) :
    sharedScalarGet (some node) world =
      .returned (.number number : Scalar Addr) world := by
  have copied :
      sharedCopyScalar node world.locked =
        .returned (.number number : Scalar Addr) world.locked := by
    have read : sharedBody node world.locked =
        .returned (.nv number) world.locked := by
      rw [← isNv]
      rfl
    exact Croak.bind_of_returned read _
  exact Croak.bind_of_returned copied _

theorem sharedAsNv_iv :
    sharedAsNv conversions node world =
      .returned (integerNv held.toInt) world := by
  have copied :
      sharedCopyScalar node world =
        .returned (.integer (.ofIv held) : Scalar Addr) world := by
    have read : sharedBody node world = .returned (.iv held) world := by
      rw [← isIv]
      rfl
    exact Croak.bind_of_returned read _
  exact Croak.bind_of_returned copied _

theorem sharedAsIv_iv :
    sharedAsIv conversions node world = .returned held world := by
  have copied :
      sharedCopyScalar node world =
        .returned (.integer (.ofIv held) : Scalar Addr) world := by
    have read : sharedBody node world = .returned (.iv held) world := by
      rw [← isIv]
      rfl
    exact Croak.bind_of_returned read _
  have value : svIv conversions (.integer (.ofIv held)) = held :=
    Int64.ofInt_toInt held
  rw [← value]
  exact Croak.bind_of_returned copied _

theorem sharedOpEvaluate_iv
    (other : OtherOperators Addr) (operator : Arithmetic) :
    sharedOpEvaluate other ⟨node, operator.op, arg, reverse⟩ world =
      orDie
        (perlOperate other operator
          (operands reverse (.integer (.ofIv held)) arg).1
          (operands reverse (.integer (.ofIv held)) arg).2)
        world := by
  refine (Croak.bind_of_returned (sharedScalarGet_iv isIv) _).trans ?_
  cases operator <;> rfl

omit isIv in
theorem sharedOpAssign_of_stored {contents : SharedNode}
    (stored :
      sharedApply conversions node op arg reverse world.locked =
        sharedSetNode node contents world.locked) :
    sharedOpAssign conversions ⟨node, op, arg, reverse⟩ world =
      sharedScalarGet (some node) (world.setNode node contents) := by
  have applied :
      sharedScalarApply conversions (some node) op arg reverse world =
        .returned () (world.setNode node contents) :=
    Croak.bind_of_returned stored _
  exact Croak.bind_of_returned applied _

omit isIv in
theorem sharedOpAssign_of_storedIv {value : Int64}
    (stored :
      sharedApply conversions node op arg reverse world.locked =
        sharedStoreIv node value world.locked) :
    sharedOpAssign conversions ⟨node, op, arg, reverse⟩ world =
      .returned (.integer (.ofIv value))
        (world.setNode node ⟨none, .iv value⟩) := by
  rw [sharedOpAssign_of_stored stored]
  apply sharedScalarGet_iv
  rw [World.setNode_nodes_self]

omit isIv in
theorem sharedOpAssign_of_storedNv {value : Double}
    (stored :
      sharedApply conversions node op arg reverse world.locked =
        sharedStoreNv node value world.locked) :
    sharedOpAssign conversions ⟨node, op, arg, reverse⟩ world =
      .returned (.number value)
        (world.setNode node ⟨none, .nv value⟩) := by
  rw [sharedOpAssign_of_stored stored]
  apply sharedScalarGet_nv
  rw [World.setNode_nodes_self]

omit isIv in
theorem sharedOpAssign_of_croaked {error : String}
    (croaked :
      sharedApply conversions node op arg reverse world.locked =
        .croaked error after) :
    sharedOpAssign conversions ⟨node, op, arg, reverse⟩ world =
      .croaked error after := by
  have applied :
      sharedScalarApply conversions (some node) op arg reverse world =
        .croaked error after :=
    Croak.bind_of_croaked croaked _
  exact Croak.bind_of_croaked applied _

omit isIv in
theorem sharedOpAssign_of_undefined
    (isUndefined :
      sharedApply conversions node op arg reverse world.locked =
        .undefined) :
    sharedOpAssign conversions ⟨node, op, arg, reverse⟩ world =
      .undefined := by
  have applied :
      sharedScalarApply conversions (some node) op arg reverse world =
        .undefined :=
    Croak.bind_of_undefined isUndefined _
  exact Croak.bind_of_undefined applied _

theorem sharedApply_iv_croaked
    {operator : Arithmetic} (notMod : operator ≠ .mod) {error : String}
    (croaked :
      sharedArithmetic operator.op
          (operands reverse (integerNv held.toInt)
            (svNv conversions arg)).1
          (operands reverse (integerNv held.toInt)
            (svNv conversions arg)).2 world =
        .croaked error world) :
    sharedApply conversions node operator.op arg reverse world =
      .croaked error world := by
  have read : sharedBody node world = .returned (.iv held) world := by
    rw [← isIv]
    rfl
  refine (Croak.bind_of_returned read _).trans ?_
  have branch :
      sharedNumeric conversions node operator.op arg reverse world =
        .croaked error world := by
    refine (Croak.bind_of_returned (sharedAsNv_iv isIv) _).trans ?_
    exact Croak.bind_of_croaked croaked _
  rw [← branch]
  cases operator with
  | add => rfl
  | sub => rfl
  | mul => rfl
  | div => rfl
  | mod => exact (notMod rfl).elim

theorem sharedApply_iv_mod :
    sharedApply conversions node "mod" arg reverse world =
      (if (operands reverse held (svIv conversions arg)).2 = 0 then
        Croak.croak "Illegal modulus zero"
      else do
        let remainder ← remainderIv
          (operands reverse held (svIv conversions arg)).1
          (operands reverse held (svIv conversions arg)).2
        sharedStoreIv node remainder) world := by
  have read : sharedBody node world = .returned (.iv held) world := by
    rw [← isIv]
    rfl
  refine (Croak.bind_of_returned read _).trans ?_
  exact Croak.bind_of_returned (sharedAsIv_iv isIv) _

/-- On an integer every operator but the modulus works on doubles. -/
theorem sharedApply_iv
    {operator : Arithmetic} (notMod : operator ≠ .mod) {out : Double}
    (computed :
      sharedArithmetic operator.op
          (operands reverse (integerNv held.toInt)
            (svNv conversions arg)).1
          (operands reverse (integerNv held.toInt)
            (svNv conversions arg)).2 world =
        .returned out world) :
    sharedApply conversions node operator.op arg reverse world =
      (if operator.op ≠ "div" ∧ isInexactInteger arg = true then do
        let value ← truncateIv out
        sharedStoreIv node value
      else
        sharedStoreNv node out) world := by
  have read : sharedBody node world = .returned (.iv held) world := by
    rw [← isIv]
    rfl
  refine (Croak.bind_of_returned read _).trans ?_
  have branch :
      sharedNumeric conversions node operator.op arg reverse world =
        (if operator.op ≠ "div" ∧ isInexactInteger arg = true then do
          let value ← truncateIv out
          sharedStoreIv node value
        else
          sharedStoreNv node out) world := by
    refine (Croak.bind_of_returned (sharedAsNv_iv isIv) _).trans ?_
    refine (Croak.bind_of_returned computed _).trans ?_
    exact Croak.bind_of_returned read _
  rw [← branch]
  cases operator with
  | add => rfl
  | sub => rfl
  | mul => rfl
  | div => rfl
  | mod => exact (notMod rfl).elim

omit isIv in
theorem truncateIv_integer (whole : Int) (world : World) :
    truncateIv (.finite whole) world =
      if ivMin ≤ whole ∧ whole ≤ ivMax then
        .returned (Int64.ofInt whole) world
      else
        .undefined := by
  have floor : (whole : ℚ).floor = whole := Rat.floor_intCast whole
  have ceil : (whole : ℚ).ceil = whole := Rat.ceil_intCast whole
  unfold truncateIv
  simp only [floor, ceil, ite_self]
  split <;> rfl

theorem agree_of_computed
    {operator : Arithmetic} (notMod : operator ≠ .mod)
    (notDiv : operator.op ≠ "div") {argument : PerlInteger} {whole : Int}
    (computed :
      sharedArithmetic operator.op
          (operands reverse (integerNv held.toInt)
            (integerNv argument.value)).1
          (operands reverse (integerNv held.toInt)
            (integerNv argument.value)).2 world.locked =
        .returned (.finite whole) world.locked)
    {evaluated : Scalar Addr} {exact : ℚ}
    (number : evaluated.exact = some (.finite exact)) :
    Agree
        (sharedOpAssign conversions
          ⟨node, operator.op, .integer argument, reverse⟩ world)
        (.returned evaluated after) ↔
      whole = exact ∧
        (ivMin ≤ whole ∧ whole ≤ ivMax ∨
          Representable argument.value) := by
  have applied :=
    @sharedApply_iv _ conversions world.locked node
      (.integer argument) reverse held isIv operator notMod _ computed
  by_cases inexact :
      isInexactInteger (.integer argument : Scalar Addr) = true
  · have notRepresentable := (isInexactInteger_iff argument).mp inexact
    rw [if_pos ⟨notDiv, inexact⟩] at applied
    by_cases fits : ivMin ≤ whole ∧ whole ≤ ivMax
    · have cast := truncateIv_integer whole world.locked
      rw [if_pos fits] at cast
      rw [sharedOpAssign_of_storedIv
        (applied.trans (Croak.bind_of_returned cast _))]
      have same : (PerlInteger.ofIv (Int64.ofInt whole)).value = whole :=
        int64_ofInt_toInt fits.1 fits.2
      simp [number, same, fits]
    · have cast := truncateIv_integer whole world.locked
      rw [if_neg fits] at cast
      rw [sharedOpAssign_of_undefined
        (applied.trans (Croak.bind_of_undefined cast _))]
      simp [Agree, fits, notRepresentable]
  · have representable : Representable argument.value := by
      rw [isInexactInteger_iff] at inexact
      exact not_not.mp inexact
    rw [if_neg fun both => inexact both.2] at applied
    rw [sharedOpAssign_of_storedNv applied]
    simp [number, representable]

end

end Runs

section Agreement

variable {first second argument : Int}

/-- The number that an addition or a subtraction of Perl gives. -/
theorem sumAgrees_iff (operate : ℚ → ℚ → ℚ) (exact : Int) :
    SumAgrees operate exact first second argument ↔
      roundToUlp (operate (roundToUlp first) (roundToUlp second)) =
          (if ivMin ≤ exact then (exact : ℚ) else roundToUlp exact) ∧
        ((ivMin : ℚ) ≤
              roundToUlp (operate (roundToUlp first) (roundToUlp second)) ∧
            roundToUlp (operate (roundToUlp first) (roundToUlp second)) ≤
              ivMax ∨
          Representable argument) := by
  generalize computed :
    roundToUlp (operate (roundToUlp first) (roundToUlp second)) = result
  unfold SumAgrees
  simp only [roundsThrough_iff, nearest_iff, computed]
  split
  · next inRange =>
      constructor
      · rintro ⟨rfl, fits | representable⟩
        · refine ⟨rfl, Or.inl ⟨?_, ?_⟩⟩
          · exact_mod_cast inRange
          · exact_mod_cast fits
        · exact ⟨rfl, Or.inr representable⟩
      · rintro ⟨rfl, ⟨_, fits⟩ | representable⟩
        · exact ⟨rfl, Or.inl (by exact_mod_cast fits)⟩
        · exact ⟨rfl, Or.inr representable⟩
  · next below =>
      have nonpositive : roundToUlp (exact : ℚ) ≤ 0 := by
        apply roundToUlp_nonpos
        have negative : exact ≤ 0 := by
          unfold ivMin at below
          omega
        exact_mod_cast negative
      have fits : roundToUlp (exact : ℚ) ≤ ivMax :=
        nonpositive.trans (by norm_num [ivMax])
      constructor
      · rintro ⟨_, rfl, rounds, large | representable⟩
        · exact ⟨rounds.symm, Or.inl (rounds ▸ ⟨large, fits⟩)⟩
        · exact ⟨rounds.symm, Or.inr representable⟩
      · rintro ⟨rfl, ⟨large, _⟩ | representable⟩
        · exact ⟨_, rfl, rfl, Or.inl large⟩
        · exact ⟨_, rfl, rfl, Or.inr representable⟩

/-- The number that a multiplication of Perl gives. -/
theorem productAgrees_iff :
    ProductAgrees first second argument ↔
      roundToUlp (roundToUlp first * roundToUlp second) =
          (if ivMin ≤ first * second ∧ first * second ≤ uvMax then
            ((first * second : Int) : ℚ)
          else
            roundToUlp (roundToUlp first * roundToUlp second)) ∧
        ((ivMin : ℚ) ≤
              roundToUlp (roundToUlp first * roundToUlp second) ∧
            roundToUlp (roundToUlp first * roundToUlp second) ≤ ivMax ∨
          Representable argument) := by
  unfold ProductAgrees
  simp only [roundsThrough_iff]
  generalize roundToUlp (roundToUlp first * roundToUlp second) = result
  split
  · next inRange =>
      constructor
      · rintro ⟨rfl, fits | representable⟩
        · refine ⟨rfl, Or.inl ⟨?_, ?_⟩⟩
          · exact_mod_cast inRange.1
          · exact_mod_cast fits
        · exact ⟨rfl, Or.inr representable⟩
      · rintro ⟨rfl, ⟨_, fits⟩ | representable⟩
        · exact ⟨rfl, Or.inl (by exact_mod_cast fits)⟩
        · exact ⟨rfl, Or.inr representable⟩
  · constructor
    · rintro (representable | ⟨_, rfl, fits⟩)
      · exact ⟨rfl, Or.inr representable⟩
      · exact ⟨rfl, Or.inl fits⟩
    · rintro ⟨_, fits | representable⟩
      · exact Or.inr ⟨_, rfl, fits⟩
      · exact Or.inl representable

def IsIv (value : Int) : Prop :=
  ivMin ≤ value ∧ value ≤ ivMax

theorem exact_integerOrNv {exact : Int} (lower : ivMin ≤ exact)
    (upper : exact ≤ uvMax) (otherwise : Double) :
    (integerOrNv exact otherwise : Scalar Addr).exact =
      some (.finite exact) := by
  unfold integerOrNv
  rw [dif_pos ⟨lower, upper⟩]
  rfl

theorem exact_integerOrNv_of_not {exact : Int}
    (outside : ¬ (ivMin ≤ exact ∧ exact ≤ uvMax)) (otherwise : Double) :
    (integerOrNv exact otherwise : Scalar Addr).exact =
      some otherwise := by
  unfold integerOrNv
  rw [dif_neg outside]
  rfl

theorem roundToUlp_ivMin : roundToUlp (ivMin : ℚ) = ivMin := by
  apply (representable_iff _).mp
  refine ⟨-1, 63, by norm_num, by norm_num, ?_⟩
  norm_num [ivMin]

theorem exact_perlSum (firstIv : IsIv first) (secondIv : IsIv second) :
    (perlSum first second : Scalar Addr).exact =
      some (.finite
        (if ivMin ≤ first + second then ((first + second : Int) : ℚ)
        else roundToUlp ((first + second : Int) : ℚ))) := by
  unfold IsIv ivMin ivMax at firstIv secondIv
  unfold perlSum
  by_cases inRange : ivMin ≤ first + second
  · rw [if_pos inRange, exact_integerOrNv inRange]
    unfold uvMax
    omega
  · rw [if_neg inRange, exact_integerOrNv_of_not fun fits => inRange fits.1]
    by_cases small : -uvMax ≤ first + second ∧ first + second < ivMin
    · rw [if_pos small]
      rw [integerNv_eq (by omega) (by omega)]
    · obtain ⟨rfl, rfl⟩ : first = ivMin ∧ second = ivMin := by
        unfold ivMin uvMax at *
        omega
      rw [if_neg small,
        add_integerNv (by decide) (by decide) (by decide) (by decide),
        roundToUlp_ivMin]
      push_cast
      rfl

theorem exact_perlDifference (firstIv : IsIv first)
    (secondIv : IsIv second) :
    (perlDifference first second : Scalar Addr).exact =
      some (.finite
        (if ivMin ≤ first - second then ((first - second : Int) : ℚ)
        else roundToUlp ((first - second : Int) : ℚ))) := by
  unfold IsIv ivMin ivMax at firstIv secondIv
  unfold perlDifference
  by_cases inRange : ivMin ≤ first - second
  · rw [if_pos inRange, exact_integerOrNv inRange]
    unfold uvMax
    omega
  · have small : -uvMax ≤ first - second ∧ first - second < ivMin := by
      unfold ivMin uvMax at *
      omega
    rw [if_neg inRange,
      exact_integerOrNv_of_not fun fits => inRange fits.1, if_pos small,
      integerNv_eq (by omega) (by omega)]

theorem exact_perlProduct (firstIv : IsIv first) (secondIv : IsIv second) :
    (perlProduct first second : Scalar Addr).exact =
      some (.finite
        (if ivMin ≤ first * second ∧ first * second ≤ uvMax then
          ((first * second : Int) : ℚ)
        else
          roundToUlp (roundToUlp first * roundToUlp second))) := by
  unfold IsIv ivMin ivMax at firstIv secondIv
  unfold perlProduct
  by_cases inRange : ivMin ≤ first * second ∧ first * second ≤ uvMax
  · rw [if_pos inRange, exact_integerOrNv inRange.1 inRange.2]
  · rw [if_neg inRange, exact_integerOrNv_of_not inRange,
      mul_integerNv (by omega) (by omega) (by omega) (by omega)]

theorem remainder_bounds (nonzero : second ≠ 0) :
    (-|second| ≤ first.tmod second ∧ first.tmod second < |second|) ∧
      -|second| ≤ first.fmod second ∧ first.fmod second < |second| := by
  have lower := Int.emod_nonneg first nonzero
  have upper := Int.emod_lt_abs first nonzero
  have truncated := @Int.tmod_eq_emod first second
  have floored := @Int.fmod_eq_emod first second
  have sign := abs_cases second
  split at truncated <;> split at floored <;> omega

theorem tmod_eq_fmod_iff (nonzero : second ≠ 0) :
    first.tmod second = first.fmod second ↔
      second ∣ first ∨ (0 < first ↔ 0 < second) := by
  have truncated := @Int.tmod_eq_emod first second
  have floored := @Int.fmod_eq_emod first second
  by_cases divides : second ∣ first
  · rw [if_pos (Or.inr divides)] at truncated floored
    simp only [divides, true_or, iff_true]
    omega
  · have firstNonzero : first ≠ 0 := by
      rintro rfl
      exact divides (dvd_zero second)
    simp only [divides, or_false, false_or] at truncated floored ⊢
    split at truncated <;> split at floored <;> omega

theorem exact_perlRemainder (nonzero : second ≠ 0) (secondIv : IsIv second) :
    ∃ result : Scalar Addr,
      perlRemainder first second = .ok result ∧
        result.exact = some (.finite (first.fmod second)) := by
  have bounds := (@remainder_bounds first second nonzero).2
  have sign := abs_cases second
  unfold IsIv ivMin ivMax at secondIv
  unfold perlRemainder
  rw [if_neg nonzero]
  refine ⟨_, rfl, exact_integerOrNv ?_ ?_ _⟩
  · unfold ivMin
    omega
  · unfold uvMax
    omega

/-- A division of two IVs that comes out even. -/
theorem exact_perlQuotient (nonzero : second ≠ 0) (firstIv : IsIv first)
    (secondIv : IsIv second) :
    ∃ result : Scalar Addr,
      perlQuotient first second = .ok result ∧
        result.exact =
          some (.finite
            (if DividesExactly first second then
              ((first / second : Int) : ℚ)
            else
              roundToUlp (roundToUlp first / roundToUlp second))) := by
  unfold IsIv ivMin ivMax at firstIv secondIv
  unfold perlQuotient
  rw [if_neg nonzero]
  by_cases exactly : DividesExactly first second
  · rw [if_pos exactly, if_pos exactly]
    have bound := Int.natAbs_ediv_le_natAbs first second
    refine ⟨_, rfl, exact_integerOrNv ?_ ?_ _⟩
    · unfold ivMin
      omega
    · unfold uvMax
      omega
  · rw [if_neg exactly, if_neg exactly]
    refine ⟨_, rfl, ?_⟩
    rw [Scalar.exact_number,
      div_integerNv (by omega) (by omega) (by omega) (by omega) nonzero]

end Agreement

theorem operands_map {Operand Converted : Type}
    (convert : Operand → Converted) (reverse : Bool) (left right : Operand) :
    operands reverse (convert left) (convert right) =
      (convert (operands reverse left right).1,
        convert (operands reverse left right).2) := by
  cases reverse <;> rfl

section Pending

variable {conversions : Conversions Addr}
variable {other : OtherOperators Addr}
variable {world : World}
variable {node : NodeId}
variable {reverse : Bool}
variable {held : Int64}
variable {argument first second : PerlInteger}

theorem isIv_of_operands (fits : argument.value ≤ ivMax)
    (ordered :
      operands reverse (PerlInteger.ofIv held) argument = (first, second)) :
    IsIv first.value ∧ IsIv second.value := by
  have heldIv : IsIv (PerlInteger.ofIv held).value := by
    have upper := held.toInt_lt
    refine ⟨(PerlInteger.ofIv held).lower, ?_⟩
    unfold ivMax PerlInteger.ofIv
    dsimp only
    omega
  have argumentIv : IsIv argument.value :=
    ⟨argument.lower, fits⟩
  cases reverse with
  | false =>
    obtain ⟨rfl, rfl⟩ := Prod.mk.inj ordered
    exact ⟨heldIv, argumentIv⟩
  | true =>
    obtain ⟨rfl, rfl⟩ := Prod.mk.inj ordered
    exact ⟨argumentIv, heldIv⟩

theorem sharedOpEvaluate_operands (isIv : (world.nodes node).body = .iv held)
    (ordered :
      operands reverse (PerlInteger.ofIv held) argument = (first, second))
    (operator : Arithmetic) :
    sharedOpEvaluate other
        ⟨node, operator.op, .integer argument, reverse⟩ world =
      orDie (perlOperate other operator (.integer first) (.integer second))
        world := by
  rw [sharedOpEvaluate_iv isIv, operands_map Scalar.integer, ordered]

theorem operands_integerNv
    (ordered :
      operands reverse (PerlInteger.ofIv held) argument =
        (first, second)) :
    operands reverse (integerNv held.toInt) (integerNv argument.value) =
      (integerNv first.value, integerNv second.value) := by
  have mapped :=
    operands_map (fun operand : PerlInteger => integerNv operand.value)
      reverse (PerlInteger.ofIv held) argument
  rw [ordered] at mapped
  exact mapped

theorem agree_of_results (isIv : (world.nodes node).body = .iv held)
    (ordered :
      operands reverse (PerlInteger.ofIv held) argument = (first, second))
    {operator : Arithmetic} (notMod : operator ≠ .mod)
    (notDiv : operator.op ≠ "div") {computed exact : ℚ}
    (integral : ∃ whole : Int, computed = whole)
    (inPlace :
      sharedArithmetic operator.op (integerNv first.value)
          (integerNv second.value) world.locked =
        .returned (.finite computed) world.locked)
    {result : Scalar Addr}
    (evaluated :
      perlOperate other operator (.integer first) (.integer second) =
        .ok result)
    (number : result.exact = some (.finite exact)) :
    Agree
        (sharedOpAssign conversions
          ⟨node, operator.op, .integer argument, reverse⟩ world)
        (sharedOpEvaluate other
          ⟨node, operator.op, .integer argument, reverse⟩ world) ↔
      computed = exact ∧
        ((ivMin : ℚ) ≤ computed ∧ computed ≤ ivMax ∨
          Representable argument.value) := by
  obtain ⟨whole, rfl⟩ := integral
  rw [sharedOpEvaluate_operands isIv ordered, evaluated]
  have agree :=
    @agree_of_computed _ conversions world world node reverse held isIv
      operator notMod notDiv argument whole
      (by rw [operands_integerNv ordered]; exact inPlace)
      result exact number
  refine agree.trans ?_
  norm_cast

theorem operands_ofInt
    (ordered :
      operands reverse (PerlInteger.ofIv held) argument =
        (first, second)) :
    operands reverse held (svIv conversions (.integer argument)) =
      (Int64.ofInt first.value, Int64.ofInt second.value) := by
  have mapped :=
    operands_map (fun operand : PerlInteger => Int64.ofInt operand.value)
      reverse (PerlInteger.ofIv held) argument
  rw [ordered] at mapped
  have kept : Int64.ofInt (PerlInteger.ofIv held).value = held :=
    Int64.ofInt_toInt held
  rw [kept] at mapped
  exact mapped

section Agreements

variable (isIv : (world.nodes node).body = .iv held)
  (fits : argument.value ≤ ivMax)
  (ordered :
    operands reverse (PerlInteger.ofIv held) argument = (first, second))

include isIv fits ordered

theorem agree_add_iff :
    Agree
        (sharedOpAssign conversions
          ⟨node, "add", .integer argument, reverse⟩ world)
        (sharedOpEvaluate other
          ⟨node, "add", .integer argument, reverse⟩ world) ↔
      AgreesOn first.value second.value argument.value .add := by
  obtain ⟨firstIv, secondIv⟩ := isIv_of_operands fits ordered
  have sum := @add_integerNv first.value second.value
  unfold IsIv ivMin ivMax at firstIv secondIv
  specialize sum (by omega) (by omega) (by omega) (by omega)
  refine Iff.trans ?_ (sumAgrees_iff _ _).symm
  have notMod : Arithmetic.add ≠ .mod := by
    decide
  refine agree_of_results isIv ordered notMod (by decide) ?_ ?_ rfl
    (exact_perlSum firstIv secondIv)
  · obtain ⟨firstNv, isFirst⟩ := roundToUlp_integer first.value
    obtain ⟨secondNv, isSecond⟩ := roundToUlp_integer second.value
    rw [isFirst, isSecond, ← Int.cast_add]
    exact roundToUlp_integer _
  · rw [← sum]
    rfl

theorem agree_sub_iff :
    Agree
        (sharedOpAssign conversions
          ⟨node, "sub", .integer argument, reverse⟩ world)
        (sharedOpEvaluate other
          ⟨node, "sub", .integer argument, reverse⟩ world) ↔
      AgreesOn first.value second.value argument.value .sub := by
  obtain ⟨firstIv, secondIv⟩ := isIv_of_operands fits ordered
  have difference := @sub_integerNv first.value second.value
  unfold IsIv ivMin ivMax at firstIv secondIv
  specialize difference (by omega) (by omega) (by omega) (by omega)
  refine Iff.trans ?_ (sumAgrees_iff _ _).symm
  have notMod : Arithmetic.sub ≠ .mod := by
    decide
  refine agree_of_results isIv ordered notMod (by decide) ?_ ?_ rfl
    (exact_perlDifference firstIv secondIv)
  · obtain ⟨firstNv, isFirst⟩ := roundToUlp_integer first.value
    obtain ⟨secondNv, isSecond⟩ := roundToUlp_integer second.value
    rw [isFirst, isSecond, ← Int.cast_sub]
    exact roundToUlp_integer _
  · rw [← difference]
    rfl

theorem agree_mul_iff :
    Agree
        (sharedOpAssign conversions
          ⟨node, "mul", .integer argument, reverse⟩ world)
        (sharedOpEvaluate other
          ⟨node, "mul", .integer argument, reverse⟩ world) ↔
      AgreesOn first.value second.value argument.value .mul := by
  obtain ⟨firstIv, secondIv⟩ := isIv_of_operands fits ordered
  have product := @mul_integerNv first.value second.value
  unfold IsIv ivMin ivMax at firstIv secondIv
  specialize product (by omega) (by omega) (by omega) (by omega)
  refine Iff.trans ?_ productAgrees_iff.symm
  have notMod : Arithmetic.mul ≠ .mod := by
    decide
  refine agree_of_results isIv ordered notMod (by decide) ?_ ?_ rfl
    (exact_perlProduct firstIv secondIv)
  · obtain ⟨firstNv, isFirst⟩ := roundToUlp_integer first.value
    obtain ⟨secondNv, isSecond⟩ := roundToUlp_integer second.value
    rw [isFirst, isSecond, ← Int.cast_mul]
    exact roundToUlp_integer _
  · rw [← product]
    rfl

theorem agree_div_iff :
    Agree
        (sharedOpAssign conversions
          ⟨node, "div", .integer argument, reverse⟩ world)
        (sharedOpEvaluate other
          ⟨node, "div", .integer argument, reverse⟩ world) ↔
      AgreesOn first.value second.value argument.value .div := by
  obtain ⟨firstIv, secondIv⟩ := isIv_of_operands fits ordered
  have evaluated :=
    @sharedOpEvaluate_operands _ other world node reverse held argument
      first second isIv ordered .div
  have doubles := @operands_integerNv reverse held argument first second
    ordered
  have notMod : Arithmetic.div ≠ .mod := by
    decide
  unfold AgreesOn
  by_cases zero : second.value = 0
  · have divisor : integerNv second.value = .finite 0 := by
      rw [zero]
      decide +kernel
    have croaked :
        sharedArithmetic Arithmetic.div.op
            (operands reverse (integerNv held.toInt)
              (svNv conversions (.integer argument))).1
            (operands reverse (integerNv held.toInt)
              (svNv conversions (.integer argument))).2 world.locked =
          .croaked "Illegal division by zero" world.locked := by
      unfold svNv
      rw [doubles, divisor]
      rfl
    have applied :=
      @sharedApply_iv_croaked _ conversions world.locked node
        (.integer argument) reverse held isIv .div notMod _ croaked
    have died :
        perlOperate other .div (.integer first) (.integer second) =
          .error "Illegal division by zero" :=
      if_pos zero
    rw [died] at evaluated
    have assigned := sharedOpAssign_of_croaked applied
    unfold Arithmetic.op at assigned evaluated
    rw [assigned, evaluated]
    simp [zero, Agree, orDie, Croak.croak]
  · have computed :
        sharedArithmetic Arithmetic.div.op
            (operands reverse (integerNv held.toInt)
              (svNv conversions (.integer argument))).1
            (operands reverse (integerNv held.toInt)
              (svNv conversions (.integer argument))).2 world.locked =
          .returned
            (.finite (roundToUlp
              (roundToUlp first.value / roundToUlp second.value)))
            world.locked := by
      have nonzeroNv : integerNv second.value ≠ .finite 0 := by
        have bounds := secondIv
        unfold IsIv ivMin ivMax at bounds
        rw [integerNv_eq (by omega) (by omega)]
        simpa using roundToUlp_integer_ne_zero zero
      unfold IsIv ivMin ivMax at firstIv secondIv
      unfold svNv
      rw [doubles, ← div_integerNv (by omega) (by omega) (by omega)
        (by omega) zero]
      exact congrFun (if_neg nonzeroNv) world.locked
    have applied :=
      @sharedApply_iv _ conversions world.locked node
        (.integer argument) reverse held isIv .div notMod _ computed
    rw [if_neg fun both => both.1 rfl] at applied
    obtain ⟨result, quotient, number⟩ :=
      @exact_perlQuotient Addr _ _ zero firstIv secondIv
    have operated :
        perlOperate other .div (.integer first) (.integer second) =
          .ok result :=
      quotient
    rw [operated] at evaluated
    have assigned := sharedOpAssign_of_storedNv applied
    unfold Arithmetic.op at assigned evaluated
    rw [assigned, evaluated]
    by_cases exactly : DividesExactly first.value second.value
    · rw [if_pos exactly] at number
      simp [orDie, number, zero, exactly, roundsThrough_iff, eq_comm]
    · rw [if_neg exactly] at number
      simp [orDie, number, exactly]

theorem agree_mod_iff :
    Agree
        (sharedOpAssign conversions
          ⟨node, "mod", .integer argument, reverse⟩ world)
        (sharedOpEvaluate other
          ⟨node, "mod", .integer argument, reverse⟩ world) ↔
      AgreesOn first.value second.value argument.value .mod := by
  obtain ⟨firstIv, secondIv⟩ := isIv_of_operands fits ordered
  have evaluated :=
    @sharedOpEvaluate_operands _ other world node reverse held argument
      first second isIv ordered .mod
  have applied :=
    @sharedApply_iv_mod _ conversions world.locked node
      (.integer argument) reverse held isIv
  rw [operands_ofInt ordered] at applied
  have firstKept := int64_ofInt_toInt firstIv.1 firstIv.2
  have secondKept := int64_ofInt_toInt secondIv.1 secondIv.2
  unfold AgreesOn
  by_cases zero : second.value = 0
  · have divisor : Int64.ofInt second.value = 0 := by
      rw [zero]
      rfl
    rw [if_pos divisor] at applied
    have died :
        perlOperate other .mod (.integer first) (.integer second) =
          .error "Illegal modulus zero" :=
      if_pos zero
    rw [died] at evaluated
    have assigned := sharedOpAssign_of_croaked applied
    unfold Arithmetic.op at evaluated
    rw [assigned, evaluated]
    simp [zero, Agree, orDie, Croak.croak]
  · have divisor : Int64.ofInt second.value ≠ 0 := by
      intro vanishes
      rw [vanishes] at secondKept
      exact zero secondKept.symm
    rw [if_neg divisor] at applied
    obtain ⟨result, remainder, number⟩ :=
      @exact_perlRemainder Addr first.value _ zero secondIv
    have operated :
        perlOperate other .mod (.integer first) (.integer second) =
          .ok result :=
      remainder
    rw [operated] at evaluated
    unfold Arithmetic.op at evaluated
    rw [evaluated]
    by_cases overflows : first.value = ivMin ∧ second.value = -1
    · have cut :
          remainderIv (Int64.ofInt first.value) (Int64.ofInt second.value)
              world.locked =
            .undefined := by
        unfold remainderIv
        rw [firstKept, secondKept, if_pos overflows]
        rfl
      rw [sharedOpAssign_of_undefined
        (applied.trans (Croak.bind_of_undefined cut _))]
      simp [overflows, Agree]
    · have computed :
          remainderIv (Int64.ofInt first.value) (Int64.ofInt second.value)
              world.locked =
            .returned (Int64.ofInt (first.value.tmod second.value))
              world.locked := by
        unfold remainderIv
        rw [firstKept, secondKept, if_neg overflows]
        rfl
      rw [sharedOpAssign_of_storedIv
        (applied.trans (Croak.bind_of_returned computed _))]
      have bounds := (@remainder_bounds first.value _ zero).1
      have sign := abs_cases second.value
      have secondBounds := secondIv
      unfold IsIv ivMin ivMax at secondBounds
      have kept :
          (PerlInteger.ofIv
              (Int64.ofInt (first.value.tmod second.value))).value =
            first.value.tmod second.value := by
        apply int64_ofInt_toInt
        · unfold ivMin
          omega
        · unfold ivMax
          omega
      have same := @tmod_eq_fmod_iff first.value _ zero
      simp [orDie, number, kept, zero, overflows, same]

end Agreements

end Pending

/--
Assigning a pending operation to a shared scalar that holds an integer, and
evaluating it before, give the same number or both fail exactly where the
condition holds of the operands in their order and of the argument.
-/
theorem sharedOp_agree_iff (conversions : Conversions Addr)
    (other : OtherOperators Addr) (world : World) (node : NodeId)
    (held : Int64) (isIv : (world.nodes node).body = .iv held)
    (argument : PerlInteger) (fits : argument.value ≤ ivMax)
    (operator : Arithmetic) (reverse : Bool) :
    Agree
        (sharedOpAssign conversions
          ⟨node, operator.op, .integer argument, reverse⟩ world)
        (sharedOpEvaluate other
          ⟨node, operator.op, .integer argument, reverse⟩ world) ↔
      AgreesOn (operands reverse held.toInt argument.value).1
        (operands reverse held.toInt argument.value).2 argument.value
        operator := by
  have values :=
    operands_map PerlInteger.value reverse (.ofIv held) argument
  have heldValue : (PerlInteger.ofIv held).value = held.toInt := rfl
  rw [heldValue] at values
  rw [values]
  cases operator with
  | add => exact agree_add_iff isIv fits rfl
  | sub => exact agree_sub_iff isIv fits rfl
  | mul => exact agree_mul_iff isIv fits rfl
  | div => exact agree_div_iff isIv fits rfl
  | mod => exact agree_mod_iff isIv fits rfl

/-- The operators of an interpreter that holds integers only. -/
def OtherOperators.none : OtherOperators Empty where
  arithmetic _ _ _ := .error "not an integer"
  concat _ _ := .undefValue

def World.ofIv (value : Int64) : World :=
  .single (.iv value)

theorem sharedOp_agree_iff_positive :
    Agree
      (sharedOpAssign .none ⟨0, "mod", .integer (.small 3 (by decide)), false⟩
        (.ofIv 7))
      (sharedOpEvaluate .none
        ⟨0, "mod", .integer (.small 3 (by decide)), false⟩ (.ofIv 7)) :=
  (sharedOp_agree_iff .none .none (.ofIv 7) 0 7 rfl
    (.small 3 (by decide)) (by decide) .mod false).mpr
    (Or.inr ⟨Or.inr (by decide), by decide⟩)

/-- Minus seven modulo three is -1 in place and 2 in Perl. -/
theorem sharedOp_mod_negative :
    (∃ after, sharedOpAssign .none
          ⟨0, "mod", .integer (.small 3 (by decide)), false⟩ (.ofIv (-7)) =
        .returned (.integer (.ofIv (-1))) after) ∧
    sharedOpEvaluate .none
        ⟨0, "mod", .integer (.small 3 (by decide)), false⟩ (.ofIv (-7)) =
      .returned (.integer (.small 2 (by decide))) (.ofIv (-7)) ∧
    ¬ Agree
      (sharedOpAssign .none
        ⟨0, "mod", .integer (.small 3 (by decide)), false⟩ (.ofIv (-7)))
      (sharedOpEvaluate .none
        ⟨0, "mod", .integer (.small 3 (by decide)), false⟩
        (.ofIv (-7))) := by
  refine ⟨⟨_, rfl⟩, rfl, ?_⟩
  intro agree
  cases agree

end DeveloperDashboard.GoRoutine
