import Mathlib.Algebra.Order.Field.Power
import Mathlib.Data.Int.Log
import Mathlib.Data.Rat.Floor
import Mathlib.Tactic.Positivity

namespace Library

/-!
# IEEE doubles

The values of the 64-bit binary format, without the sign of zero, as exact
rationals, with the rounding and the four operations.  The rounding works on
units in the last place; `Nearest` says what it finds without them, and
`Double.round_eq_finite_iff` that the two agree.
-/

/-- The integer nearest to a rational, the even one of two. -/
def roundHalfEven (value : ℚ) : ℤ :=
  let low := ⌊value⌋
  let rest := value - low
  if rest < 1 / 2 then low
  else if 1 / 2 < rest then low + 1
  else if low % 2 = 0 then low
  else low + 1

/-- An integer is within one half, and even where another one is as near. -/
def NearestInteger (value : ℚ) (near : ℤ) : Prop :=
  |value - near| ≤ 1 / 2 ∧ (|value - near| = 1 / 2 → Even near)

theorem nearestInteger_roundHalfEven (value : ℚ) :
    NearestInteger value (roundHalfEven value) := by
  have lower : (⌊value⌋ : ℚ) ≤ value := Int.floor_le value
  have upper : value < ⌊value⌋ + 1 := Int.lt_floor_add_one value
  unfold roundHalfEven NearestInteger
  dsimp only
  split
  · next below =>
      rw [abs_of_nonneg (by linarith)]
      constructor
      · linarith
      · intro half
        linarith
  · split
    · next notBelow above =>
        push_cast
        rw [abs_of_nonpos (by linarith)]
        constructor
        · linarith
        · intro half
          linarith
    · next notBelow notAbove =>
        have half : value - ⌊value⌋ = 1 / 2 :=
          le_antisymm (not_lt.mp notAbove) (not_lt.mp notBelow)
        split
        · next even =>
            rw [half]
            exact ⟨by norm_num, fun _ => Int.even_iff.mpr even⟩
        · next odd =>
            push_cast
            rw [abs_of_nonpos (by linarith)]
            refine ⟨by linarith, fun _ => ?_⟩
            rw [Int.even_iff]
            omega

theorem one_le_abs_sub_of_ne {first second : ℤ}
    (different : first ≠ second) :
    (1 : ℚ) ≤ |(first : ℚ) - second| := by
  have apart : 1 ≤ |first - second| :=
    Int.one_le_abs (sub_ne_zero.mpr different)
  exact_mod_cast apart

theorem NearestInteger.unique {value : ℚ} {first second : ℤ}
    (firstNear : NearestInteger value first)
    (secondNear : NearestInteger value second) :
    first = second := by
  by_contra different
  have apart := one_le_abs_sub_of_ne different
  have triangle :
      |(first : ℚ) - second| ≤ |value - first| + |value - second| := by
    rw [abs_sub_comm value first]
    exact abs_sub_le _ _ _
  have firstHalf : |value - first| = 1 / 2 := by
    linarith [firstNear.1, secondNear.1]
  have secondHalf : |value - second| = 1 / 2 := by
    linarith [firstNear.1, secondNear.1]
  have firstEven := firstNear.2 firstHalf
  have secondEven := secondNear.2 secondHalf
  have near : |(first : ℚ) - second| ≤ 1 := by
    linarith
  have nearInteger : |first - second| ≤ 1 := by
    exact_mod_cast near
  obtain ⟨below, above⟩ := abs_le.mp nearInteger
  rw [Int.even_iff] at firstEven secondEven
  omega

theorem NearestInteger.abs_le {value : ℚ} {near : ℤ}
    (isNear : NearestInteger value near) (other : ℤ) :
    |value - near| ≤ |value - other| := by
  by_cases same : near = other
  · rw [same]
  · have apart := one_le_abs_sub_of_ne same
    have triangle :
        |(near : ℚ) - other| ≤ |value - near| + |value - other| := by
      rw [abs_sub_comm value near]
      exact abs_sub_le _ _ _
    linarith [isNear.1]

/-- A number of the format, were its exponent unbounded above. -/
def Representable (value : ℚ) : Prop :=
  ∃ significand exponent : ℤ,
    |significand| < 2 ^ 53 ∧ -1074 ≤ exponent ∧
      value = significand * 2 ^ exponent

/-- A number of the format whose last significand bit is zero. -/
def EvenSignificand (value : ℚ) : Prop :=
  ∃ half exponent : ℤ,
    |half| < 2 ^ 52 ∧ -1074 ≤ exponent ∧
      value = 2 * half * 2 ^ exponent

/-- The number of the format nearest to a rational, ties to even. -/
def Nearest (exact rounded : ℚ) : Prop :=
  Representable rounded ∧
    ∀ other, Representable other →
      |exact - rounded| ≤ |exact - other| ∧
        (|exact - other| = |exact - rounded| →
          other = rounded ∨ EvenSignificand rounded)

def ulpExponent (value : ℚ) : ℤ :=
  if value = 0 then -1074 else max (Int.log 2 |value|) (-1022) - 52

/-- A rational rounded to a multiple of the unit in its last place. -/
def roundToUlp (value : ℚ) : ℚ :=
  roundHalfEven (value / 2 ^ ulpExponent value) * 2 ^ ulpExponent value

/-- Where the unit in the last place lies. -/
structure IsUlp (value : ℚ) (exponent : ℤ) : Prop where
  least : -1074 ≤ exponent
  below : |value / 2 ^ exponent| < 2 ^ 53
  normal : exponent = -1074 ∨ 2 ^ 52 ≤ |value / 2 ^ exponent|

/-- The exponent found by the logarithm is that of the last place. -/
theorem isUlp_ulpExponent (value : ℚ) : IsUlp value (ulpExponent value) := by
  unfold ulpExponent
  split
  · next zero =>
      subst zero
      exact ⟨le_refl _, by norm_num, Or.inl rfl⟩
  · next nonzero =>
      have positive : 0 < |value| := abs_pos.mpr nonzero
      have lower : (2 : ℚ) ^ Int.log 2 |value| ≤ |value| :=
        Int.zpow_log_le_self (by norm_num) positive
      have upper : |value| < (2 : ℚ) ^ (Int.log 2 |value| + 1) :=
        Int.lt_zpow_succ_log_self (by norm_num) _
      have quotient :
          ∀ exponent : ℤ,
            |value / 2 ^ exponent| = |value| / 2 ^ exponent := by
        intro exponent
        have unit : (0 : ℚ) < 2 ^ exponent := by
          positivity
        rw [abs_div, abs_of_pos unit]
      refine ⟨?_, ?_, ?_⟩
      · have := le_max_right (Int.log 2 |value|) (-1022)
        omega
      · rw [quotient, div_lt_iff₀ (by positivity)]
        have raised :
            (2 : ℚ) ^ (Int.log 2 |value| + 1) ≤
              2 ^ (max (Int.log 2 |value|) (-1022) + 1) := by
          apply zpow_le_zpow_right₀ (by norm_num)
          have := le_max_left (Int.log 2 |value|) (-1022)
          omega
        have split :
            (2 : ℚ) ^ (max (Int.log 2 |value|) (-1022) + 1) =
              2 ^ 53 * 2 ^ (max (Int.log 2 |value|) (-1022) - 52) := by
          rw [← zpow_natCast, ← zpow_add₀ (by norm_num)]
          congr 1
          push_cast
          ring
        linarith
      · by_cases small : Int.log 2 |value| ≤ -1022
        · left
          rw [max_eq_right small]
          rfl
        · right
          rw [quotient, max_eq_left (by omega), le_div_iff₀ (by positivity)]
          have split :
              (2 : ℚ) ^ Int.log 2 |value| =
                2 ^ 52 * 2 ^ (Int.log 2 |value| - 52) := by
            rw [← zpow_natCast, ← zpow_add₀ (by norm_num)]
            congr 1
            push_cast
            ring
          linarith

variable {units : ℤ}

theorem representable_units {exponent : ℤ} (least : -1074 ≤ exponent)
    (few : |units| ≤ 2 ^ 53) :
    Representable (units * 2 ^ exponent) := by
  rcases few.lt_or_eq with fewer | most
  · exact ⟨units, exponent, fewer, least, rfl⟩
  · rcases abs_eq (by norm_num) |>.mp most with same | same
    · refine ⟨2 ^ 52, exponent + 1, by norm_num, by omega, ?_⟩
      rw [same, zpow_add₀ (by norm_num)]
      push_cast
      ring
    · refine ⟨-2 ^ 52, exponent + 1, by norm_num, by omega, ?_⟩
      rw [same, zpow_add₀ (by norm_num)]
      push_cast
      ring

theorem evenSignificand_units {exponent : ℤ} (least : -1074 ≤ exponent)
    (few : |units| ≤ 2 ^ 53) (even : Even units) :
    EvenSignificand (units * 2 ^ exponent) := by
  obtain ⟨half, rfl⟩ := even
  have halfFew : |half| ≤ 2 ^ 52 := by
    obtain ⟨below, above⟩ := abs_le.mp few
    exact abs_le.mpr ⟨by omega, by omega⟩
  rcases halfFew.lt_or_eq with fewer | most
  · refine ⟨half, exponent, fewer, least, ?_⟩
    push_cast
    ring
  · rcases abs_eq (by norm_num) |>.mp most with same | same
    · refine ⟨2 ^ 51, exponent + 1, by norm_num, by omega, ?_⟩
      rw [same, zpow_add₀ (by norm_num)]
      push_cast
      ring
    · refine ⟨-2 ^ 51, exponent + 1, by norm_num, by omega, ?_⟩
      rw [same, zpow_add₀ (by norm_num)]
      push_cast
      ring

namespace IsUlp

variable {value : ℚ} {exponent : ℤ}

section

variable (isUlp : IsUlp value exponent)

include isUlp

/-- A multiple of a power of two is a number of units, or well below. -/
theorem units_or_lower {significand own : ℤ}
    {bound : ℚ} (few : |(significand : ℚ)| < bound) (least : -1074 ≤ own) :
    (∃ units : ℤ, (significand * 2 ^ own : ℚ) = units * 2 ^ exponent) ∨
      2 ^ 52 ≤ |value / 2 ^ exponent| ∧
        2 * |(significand * 2 ^ own / 2 ^ exponent : ℚ)| < bound := by
  by_cases above : exponent ≤ own
  · left
    refine ⟨significand * 2 ^ (own - exponent).toNat, ?_⟩
    have exact : (own : ℤ) = ((own - exponent).toNat : ℤ) + exponent := by
      omega
    push_cast
    rw [mul_assoc, ← zpow_natCast, ← zpow_add₀ (by norm_num), ← exact]
  · right
    refine ⟨isUlp.normal.resolve_left (by omega), ?_⟩
    have lowered : (2 : ℚ) ^ (own + 1) ≤ 2 ^ exponent :=
      zpow_le_zpow_right₀ (by norm_num) (by omega)
    rw [zpow_add₀ (by norm_num), zpow_one] at lowered
    have positive : (0 : ℚ) < 2 ^ own := by
      positivity
    rw [abs_div, abs_mul, abs_of_pos positive,
      abs_of_pos (by positivity : (0 : ℚ) < 2 ^ exponent),
      ← mul_div_assoc, div_lt_iff₀ (by positivity)]
    have nonnegative : 0 ≤ |(significand : ℚ)| := abs_nonneg _
    calc 2 * (|(significand : ℚ)| * 2 ^ own)
        = |(significand : ℚ)| * (2 ^ own * 2) := by ring
      _ ≤ |(significand : ℚ)| * 2 ^ exponent := by gcongr
      _ < bound * 2 ^ exponent := by gcongr

theorem units_or_small {number : ℚ}
    (representable : Representable number) :
    (∃ units : ℤ, number = units * 2 ^ exponent) ∨
      2 ^ 52 ≤ |value / 2 ^ exponent| ∧
        |number / 2 ^ exponent| < 2 ^ 52 := by
  obtain ⟨significand, own, few, least, rfl⟩ := representable
  have fewRational : |(significand : ℚ)| < 2 ^ 53 := by
    exact_mod_cast few
  rcases isUlp.units_or_lower fewRational least with
    units | ⟨normal, lower⟩
  · exact Or.inl units
  · exact Or.inr ⟨normal, by linarith⟩

theorem even_of_evenSignificand
    (normal : 2 ^ 52 ≤ |value / 2 ^ exponent| → 2 ^ 52 ≤ |units|)
    (even : EvenSignificand (units * 2 ^ exponent)) :
    Even units := by
  have positive : (0 : ℚ) < 2 ^ exponent := by
    positivity
  obtain ⟨half, own, few, least, equal⟩ := even
  have fewRational : |(half : ℚ)| < 2 ^ 52 := by
    exact_mod_cast few
  rw [mul_assoc] at equal
  rcases isUlp.units_or_lower fewRational least with
    ⟨halfUnits, same⟩ | ⟨isNormal, lower⟩
  · rw [same, ← mul_assoc] at equal
    have twice : (units : ℚ) = 2 * halfUnits :=
      mul_right_cancel₀ positive.ne' equal
    have twiceInteger : units = 2 * halfUnits := by
      exact_mod_cast twice
    exact ⟨halfUnits, by omega⟩
  · have many : (2 : ℚ) ^ 52 ≤ |(units : ℚ)| := by
      exact_mod_cast normal isNormal
    have quotient :
        (units : ℚ) = 2 * (half * 2 ^ own / 2 ^ exponent) := by
      rw [← mul_div_assoc, ← equal, mul_div_cancel_right₀ _ positive.ne']
    rw [quotient, abs_mul, abs_two] at many
    linarith

theorem nearest_few
    (isNear : NearestInteger (value / 2 ^ exponent) units) :
    |units| ≤ 2 ^ 53 := by
  have triangle :
      |(units : ℚ)| ≤
        |value / 2 ^ exponent - units| + |value / 2 ^ exponent| := by
    rw [abs_sub_comm]
    simpa using abs_sub_le (units : ℚ) (value / 2 ^ exponent) 0
  have close : |(units : ℚ)| < 2 ^ 53 + 1 := by
    linarith [isNear.1, isUlp.below]
  have closeInteger : |units| < 2 ^ 53 + 1 := by
    exact_mod_cast close
  omega

omit isUlp in
theorem abs_sub_units (value : ℚ) (exponent : ℤ) (other : ℚ) :
    |value - other| =
      |value / 2 ^ exponent - other / 2 ^ exponent| * 2 ^ exponent := by
  have positive : (0 : ℚ) < 2 ^ exponent := by
    positivity
  rw [← sub_div, abs_div, abs_of_pos positive,
    div_mul_cancel₀ _ positive.ne']

omit isUlp in
theorem far_of_small {quotient small : ℚ} (normal : 2 ^ 52 ≤ |quotient|)
    (isSmall : |small| < 2 ^ 52) (isNear : NearestInteger quotient units) :
    |quotient - units| < |quotient - small| := by
  have bounds := abs_lt.mp isSmall
  rcases le_abs.mp normal with above | below
  · have closest := isNear.abs_le (2 ^ 52)
    rw [Int.cast_pow, Int.cast_ofNat,
      abs_of_nonneg (by linarith : 0 ≤ quotient - 2 ^ 52)] at closest
    have := le_abs_self (quotient - small)
    linarith
  · have closest := isNear.abs_le (-2 ^ 52)
    rw [Int.cast_neg, Int.cast_pow, Int.cast_ofNat,
      abs_of_nonpos (by linarith : quotient - -2 ^ 52 ≤ 0)] at closest
    have := neg_le_abs (quotient - small)
    linarith

theorem nearest_units
    (isNear : NearestInteger (value / 2 ^ exponent) units) :
    Nearest value (units * 2 ^ exponent) := by
  have positive : (0 : ℚ) < 2 ^ exponent := by
    positivity
  have few := isUlp.nearest_few isNear
  refine ⟨representable_units isUlp.least few, ?_⟩
  intro other otherRepresentable
  rw [abs_sub_units value exponent (units * 2 ^ exponent),
    abs_sub_units value exponent other,
    mul_div_cancel_right₀ _ positive.ne',
    mul_le_mul_iff_of_pos_right positive,
    mul_left_inj' positive.ne']
  rcases isUlp.units_or_small otherRepresentable with
    ⟨otherUnits, rfl⟩ | ⟨normal, small⟩
  · rw [mul_div_cancel_right₀ _ positive.ne']
    refine ⟨isNear.abs_le otherUnits, ?_⟩
    intro equal
    by_cases same : otherUnits = units
    · left
      rw [same]
    · right
      apply evenSignificand_units isUlp.least few
      apply isNear.2
      have apart := one_le_abs_sub_of_ne same
      have triangle :
          |(otherUnits : ℚ) - units| ≤
            |value / 2 ^ exponent - otherUnits| +
              |value / 2 ^ exponent - units| := by
        rw [abs_sub_comm _ (otherUnits : ℚ)]
        exact abs_sub_le _ _ _
      linarith [isNear.1]
  · have far := far_of_small normal small isNear
    exact ⟨far.le, fun equal => (far.ne' equal).elim⟩

theorem eq_of_nearest
    (isNear : NearestInteger (value / 2 ^ exponent) units) {rounded : ℚ}
    (nearest : Nearest value rounded) :
    rounded = units * 2 ^ exponent := by
  have positive : (0 : ℚ) < 2 ^ exponent := by
    positivity
  have unitsNearest := isUlp.nearest_units isNear
  by_contra different
  have closer := nearest.2 _ unitsNearest.1
  have closest := unitsNearest.2 _ nearest.1
  have equal :
      |value - units * 2 ^ exponent| = |value - rounded| :=
    le_antisymm closest.1 closer.1
  have even : EvenSignificand rounded :=
    (closer.2 equal).resolve_left fun same => different same.symm
  rw [abs_sub_units value exponent (units * 2 ^ exponent),
    abs_sub_units value exponent rounded,
    mul_div_cancel_right₀ _ positive.ne',
    mul_left_inj' positive.ne'] at equal
  rcases isUlp.units_or_small nearest.1 with
    ⟨otherUnits, rfl⟩ | ⟨normal, small⟩
  · rw [mul_div_cancel_right₀ _ positive.ne'] at equal
    have otherNear :
        NearestInteger (value / 2 ^ exponent) otherUnits := by
      refine ⟨equal ▸ isNear.1, fun half => ?_⟩
      refine isUlp.even_of_evenSignificand ?_ even
      intro normal
      have triangle :
          |value / 2 ^ exponent| ≤
            |value / 2 ^ exponent - otherUnits| + |(otherUnits : ℚ)| := by
        simpa using
          abs_sub_le (value / 2 ^ exponent) (otherUnits : ℚ) 0
      have many : (2 : ℚ) ^ 52 - 1 < |(otherUnits : ℚ)| := by
        linarith
      have manyInteger : (2 : ℤ) ^ 52 - 1 < |otherUnits| := by
        exact_mod_cast many
      omega
    rw [isNear.unique otherNear] at different
    exact different rfl
  · have far := far_of_small normal small isNear
    exact far.ne equal

end

end IsUlp

theorem nearest_iff (exact rounded : ℚ) :
    Nearest exact rounded ↔ rounded = roundToUlp exact := by
  have isUlp := isUlp_ulpExponent exact
  have isNear :=
    nearestInteger_roundHalfEven (exact / 2 ^ ulpExponent exact)
  constructor
  · intro nearest
    exact isUlp.eq_of_nearest isNear nearest
  · rintro rfl
    exact isUlp.nearest_units isNear

theorem Representable.nearest_iff {exact : ℚ}
    (representable : Representable exact) (rounded : ℚ) :
    Nearest exact rounded ↔ rounded = exact := by
  have own : Nearest exact exact := by
    refine ⟨representable, fun other _ => ?_⟩
    rw [sub_self, abs_zero]
    refine ⟨abs_nonneg _, fun zero => ?_⟩
    exact Or.inl (sub_eq_zero.mp (abs_eq_zero.mp zero)).symm
  rw [Library.nearest_iff] at own ⊢
  rw [← own]

theorem representable_iff (value : ℚ) :
    Representable value ↔ roundToUlp value = value := by
  constructor
  · intro representable
    have nearest := (nearest_iff value (roundToUlp value)).mpr rfl
    exact (representable.nearest_iff _).mp nearest
  · intro same
    have nearest := (nearest_iff value (roundToUlp value)).mpr rfl
    rw [same] at nearest
    exact nearest.1

theorem roundToUlp_integer (value : ℤ) :
    ∃ rounded : ℤ, roundToUlp value = rounded := by
  have isUlp := isUlp_ulpExponent value
  by_cases whole : 0 ≤ ulpExponent value
  · refine ⟨roundHalfEven (value / 2 ^ ulpExponent value) *
      2 ^ (ulpExponent value).toNat, ?_⟩
    have exact :
        ((ulpExponent value).toNat : ℤ) = ulpExponent value :=
      Int.toNat_of_nonneg whole
    unfold roundToUlp
    push_cast
    rw [← zpow_natCast (2 : ℚ), exact]
  · refine ⟨value, ?_⟩
    apply (representable_iff _).mp
    refine ⟨value, 0, ?_, by norm_num, by simp⟩
    have small := isUlp.below
    have divisor : (2 : ℚ) ^ ulpExponent value ≤ 1 :=
      zpow_le_one_of_nonpos₀ (by norm_num) (by omega)
    rw [abs_div, abs_of_pos (by positivity : (0 : ℚ) < 2 ^ ulpExponent value),
      div_lt_iff₀ (by positivity)] at small
    have below : |(value : ℚ)| < 2 ^ 53 := by
      linarith
    exact_mod_cast below

theorem abs_roundToUlp_le (value : ℚ) :
    |roundToUlp value| ≤ 2 * |value| := by
  have nearest := (nearest_iff value (roundToUlp value)).mpr rfl
  have zero : Representable 0 :=
    ⟨0, 0, by norm_num, by norm_num, by norm_num⟩
  have closer := (nearest.2 0 zero).1
  have triangle :
      |roundToUlp value| ≤ |value - roundToUlp value| + |value| := by
    rw [abs_sub_comm]
    simpa using abs_sub_le (roundToUlp value) value 0
  rw [sub_zero] at closer
  linarith

theorem roundToUlp_nonpos {value : ℚ} (nonpositive : value ≤ 0) :
    roundToUlp value ≤ 0 := by
  have nearest := (nearest_iff value (roundToUlp value)).mpr rfl
  have zero : Representable 0 :=
    ⟨0, 0, by norm_num, by norm_num, by norm_num⟩
  have closer := (nearest.2 0 zero).1
  rw [sub_zero, abs_of_nonpos nonpositive] at closer
  linarith [neg_le_abs (value - roundToUlp value)]

theorem roundToUlp_integer_ne_zero {value : ℤ} (nonzero : value ≠ 0) :
    roundToUlp value ≠ 0 := by
  intro vanishes
  have nearest := (nearest_iff value (roundToUlp value)).mpr rfl
  rcases lt_or_gt_of_ne nonzero with negative | positive
  · have minusOne : Representable (-1) :=
      ⟨-1, 0, by norm_num, by norm_num, by norm_num⟩
    have closer := (nearest.2 _ minusOne).1
    have bound : (value : ℚ) ≤ -1 := by
      exact_mod_cast Int.le_sub_one_of_lt negative
    rw [vanishes, sub_zero, abs_of_nonpos (by linarith),
      abs_of_nonpos (by linarith)] at closer
    linarith
  · have one : Representable 1 :=
      ⟨1, 0, by norm_num, by norm_num, by norm_num⟩
    have closer := (nearest.2 _ one).1
    have bound : (1 : ℚ) ≤ value := by
      exact_mod_cast positive
    rw [vanishes, sub_zero, abs_of_nonneg (by linarith),
      abs_of_nonneg (by linarith)] at closer
    linarith

/-- A double: an exact value, an infinity, or not a number. -/
inductive Double where
  | finite (value : ℚ)
  | infinite (negative : Bool)
  | nan
  deriving DecidableEq, Repr

namespace Double

/-- `0 < x`, false for what is not a number. -/
def isPositive : Double → Bool
  | .finite value => decide (0 < value)
  | .infinite negative => !negative
  | .nan => false

/-- `x <= 0`, false for what is not a number. -/
def isNonPositive : Double → Bool
  | .finite value => decide (value ≤ 0)
  | .infinite negative => negative
  | .nan => false

/-- An exact result as a double: rounded, and infinite out of range. -/
def round (exact : ℚ) : Double :=
  if |roundToUlp exact| < 2 ^ 1024 then
    .finite (roundToUlp exact)
  else
    .infinite (decide (exact < 0))

def neg : Double → Double
  | .finite value => .finite (-value)
  | .infinite negative => .infinite (!negative)
  | .nan => .nan

def add : Double → Double → Double
  | .finite left, .finite right => round (left + right)
  | .infinite left, .infinite right =>
    if left = right then .infinite left else .nan
  | .infinite left, .finite _ => .infinite left
  | .finite _, .infinite right => .infinite right
  | _, _ => .nan

def sub (left right : Double) : Double :=
  add left (neg right)

def mul : Double → Double → Double
  | .finite left, .finite right => round (left * right)
  | .infinite left, .infinite right => .infinite (left != right)
  | .infinite left, .finite right =>
    if right = 0 then .nan
    else .infinite (left != decide (right < 0))
  | .finite left, .infinite right =>
    if left = 0 then .nan
    else .infinite (decide (left < 0) != right)
  | _, _ => .nan

/-- The quotient; a divisor that is zero counts as positive. -/
def div : Double → Double → Double
  | .finite left, .finite right =>
    if right = 0 then
      if left = 0 then .nan else .infinite (decide (left < 0))
    else
      round (left / right)
  | .infinite left, .finite right =>
    .infinite (left != decide (right < 0))
  | .finite _, .infinite _ => .finite 0
  | _, _ => .nan

theorem div_finite (left : ℚ) {right : ℚ} (nonzero : right ≠ 0) :
    (Double.finite left).div (.finite right) = round (left / right) :=
  if_neg nonzero

theorem round_of_abs_le {exact : ℚ} (moderate : |exact| ≤ 2 ^ 1000) :
    round exact = .finite (roundToUlp exact) := by
  have inRange : |roundToUlp exact| < 2 ^ 1024 := by
    calc |roundToUlp exact| ≤ 2 * |exact| := abs_roundToUlp_le exact
      _ ≤ 2 * 2 ^ 1000 := by gcongr
      _ = 2 ^ 1001 := by rw [← pow_succ']
      _ < 2 ^ 1024 := pow_lt_pow_right₀ (by norm_num) (by norm_num)
  unfold round
  rw [if_pos inRange]

end Double

end Library
