import Mathlib.Tactic.Ring
import Mathlib.Data.List.Basic

namespace Library

/-!
# Doubling a word until it covers a need

The loop `while (capacity < need) capacity *= 2` on unsigned words: a doubling
that does not fit the word drops the highest bit.
-/

def doubleWord (bits : Nat) : Nat → Nat → Nat → Option Nat
  | 0, _, _ => none
  | fuel + 1, capacity, need =>
    if capacity < need then
      doubleWord bits fuel (capacity * 2 % 2 ^ bits) need
    else some capacity

/-- The loop ends at the first doubling that covers the need. -/
theorem doubleWord_eq_some_iff {bits fuel capacity need result : Nat}
    (isWord : capacity < 2 ^ bits) :
    doubleWord bits fuel capacity need = some result ↔
      ∃ turns < fuel, result = capacity * 2 ^ turns % 2 ^ bits ∧
        need ≤ result ∧
        ∀ earlier < turns, capacity * 2 ^ earlier % 2 ^ bits < need := by
  induction fuel generalizing capacity with
  | zero => simp [doubleWord]
  | succ fuel ih =>
    have next : capacity * 2 % 2 ^ bits < 2 ^ bits :=
      Nat.mod_lt _ (Nat.two_pow_pos bits)
    have shifted (turns : Nat) :
        capacity * 2 % 2 ^ bits * 2 ^ turns % 2 ^ bits =
          capacity * 2 ^ (turns + 1) % 2 ^ bits := by
      rw [Nat.mod_mul_mod, pow_succ]
      congr 1
      ring
    have first : capacity * 2 ^ 0 % 2 ^ bits = capacity := by
      rw [pow_zero, Nat.mul_one, Nat.mod_eq_of_lt isWord]
    unfold doubleWord
    split
    · next short =>
        rw [ih next]
        constructor
        · rintro ⟨turns, inFuel, rfl, covered, before⟩
          refine ⟨turns + 1, by omega, shifted turns, covered, ?_⟩
          intro earlier less
          cases earlier with
          | zero => rw [first]; exact short
          | succ earlier =>
            rw [← shifted]
            exact before earlier (by omega)
        · rintro ⟨turns, inFuel, rfl, covered, before⟩
          cases turns with
          | zero =>
            rw [first] at covered
            omega
          | succ turns =>
            refine ⟨turns, by omega, (shifted turns).symm, covered, ?_⟩
            intro earlier less
            rw [shifted]
            exact before (earlier + 1) (by omega)
    · next covers =>
        constructor
        · intro same
          obtain rfl := Option.some.inj same
          refine ⟨0, by omega, first.symm, by omega, ?_⟩
          intro earlier less
          omega
        · rintro ⟨turns, inFuel, rfl, covered, before⟩
          cases turns with
          | zero => rw [first]
          | succ turns =>
            have short := before 0 (by omega)
            rw [first] at short
            exact absurd short covers

theorem doubleWord_of_ends {bits fuel capacity need result : Nat}
    (isWord : capacity < 2 ^ bits)
    (ends : doubleWord bits fuel capacity need = some result) :
    doubleWord bits (bits + 1) capacity need = some result := by
  rw [doubleWord_eq_some_iff isWord] at ends ⊢
  obtain ⟨turns, inFuel, rfl, covered, before⟩ := ends
  refine ⟨turns, ?_, rfl, covered, before⟩
  by_contra tooMany
  -- After as many doublings as there are bits the word is zero.
  have zero : capacity * 2 ^ turns % 2 ^ bits = 0 := by
    refine Nat.mod_eq_zero_of_dvd (Dvd.dvd.mul_left ?_ capacity)
    exact pow_dvd_pow 2 (by omega)
  rw [zero] at covered
  have short := before 0 (by omega)
  omega

theorem doubleWord_of_fits {bits capacity need turns : Nat}
    (covered : need ≤ capacity * 2 ^ turns)
    (fits : capacity * 2 ^ turns < 2 ^ bits) :
    ∃ fewer ≤ turns,
      doubleWord bits (bits + 1) capacity need =
        some (capacity * 2 ^ fewer) ∧
      need ≤ capacity * 2 ^ fewer := by
  classical
  have isWord : capacity < 2 ^ bits :=
    Nat.lt_of_le_of_lt (Nat.le_mul_of_pos_right _ (Nat.two_pow_pos _)) fits
  have some : ∃ turns, need ≤ capacity * 2 ^ turns := ⟨turns, covered⟩
  have least : Nat.find some ≤ turns := Nat.find_min' some covered
  have small (fewer : Nat) (le : fewer ≤ turns) :
      capacity * 2 ^ fewer % 2 ^ bits = capacity * 2 ^ fewer := by
    refine Nat.mod_eq_of_lt (Nat.lt_of_le_of_lt ?_ fits)
    exact Nat.mul_le_mul_left _ (Nat.pow_le_pow_right (by decide) le)
  refine ⟨Nat.find some, least, ?_, Nat.find_spec some⟩
  refine doubleWord_of_ends isWord ((doubleWord_eq_some_iff isWord).mpr
    ⟨Nat.find some, Nat.lt_succ_self _, (small _ least).symm,
      Nat.find_spec some, ?_⟩)
  intro earlier less
  rw [small earlier (by omega)]
  exact Nat.lt_of_not_le (Nat.find_min some less)

theorem exists_of_doubleWord {bits fuel capacity need result : Nat}
    (isWord : capacity < 2 ^ bits)
    (ends : doubleWord bits fuel capacity need = some result)
    (lower : result * 2 ≤ 2 ^ bits) :
    ∃ turns, result = capacity * 2 ^ turns ∧ need ≤ result := by
  obtain ⟨turns, -, rfl, covered, before⟩ :=
    (doubleWord_eq_some_iff isWord).mp ends
  refine ⟨turns, ?_, covered⟩
  clear ends
  have exact' (steps : Nat) (within : steps ≤ turns) :
      capacity * 2 ^ steps % 2 ^ bits = capacity * 2 ^ steps := by
    induction steps with
    | zero => rw [pow_zero, Nat.mul_one, Nat.mod_eq_of_lt isWord]
    | succ steps ih =>
      have same := ih (by omega)
      have short := before steps (by omega)
      rw [same] at short
      refine Nat.mod_eq_of_lt ?_
      rw [pow_succ, ← Nat.mul_assoc]
      omega
  exact exact' turns (Nat.le_refl _)

end Library
