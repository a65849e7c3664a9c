import Mathlib.Algebra.Order.Field.Basic
import Mathlib.Algebra.Order.Field.Power
import Mathlib.Algebra.Order.Ring.Rat
import Mathlib.Data.Rat.Lemmas
import Mathlib.Tactic.Linarith
import Mathlib.Tactic.NormNum
import Mathlib.Tactic.Positivity
import Mathlib.Tactic.Ring
import PromptBlocks.Number.Binary64

/-!
Contract: what rounding to 64 bits keeps of a fraction.

Owns:
- the exact value of a number;
- the error of rounding, which is at most half a unit of the last place;
- the order of fractions up to one with small denominators, which rounding keeps.

Does not own: numbers above one, and the decimal text of a number.
-/

namespace PromptBlocks.Binary64

/-- The exact value of a number. -/
def toRat (number : Binary64) : Rat :=
  let magnitude := number.significand * (2 : Rat) ^ number.exponent
  if number.isNegative then -magnitude else magnitude

/-! ### The error of one rounding -/

section Quotients

variable {numerator denominator : Nat}

/-- Twice the nearest whole number is at most one unit away from twice the quotient. -/
theorem two_mul_roundQuotient (numerator : Nat) (positive : 0 < denominator) :
    2 * (roundQuotient numerator denominator * denominator) ≤ 2 * numerator + denominator ∧
      2 * numerator ≤ 2 * (roundQuotient numerator denominator * denominator) + denominator := by
  have parts := Nat.div_add_mod numerator denominator
  have small := Nat.mod_lt numerator positive
  rw [Nat.mul_comm] at parts
  unfold roundQuotient
  dsimp only
  split
  · omega
  · split
    · rw [Nat.add_mul]
      omega
    · split
      · omega
      · rw [Nat.add_mul]
        omega

theorem abs_roundQuotient_sub_le (numerator : Nat) (positive : 0 < denominator) :
    |(roundQuotient numerator denominator : Rat) - numerator / denominator| ≤ 1 / 2 := by
  have unit : (0 : Rat) < denominator := Nat.cast_pos.mpr positive
  obtain ⟨above, below⟩ := two_mul_roundQuotient numerator positive
  have aboveCast : 2 * ((roundQuotient numerator denominator : Rat) * denominator) ≤
      2 * numerator + denominator := by exact_mod_cast above
  have belowCast : (2 : Rat) * numerator ≤
      2 * (roundQuotient numerator denominator * denominator) + denominator := by
    exact_mod_cast below
  have exact : (numerator : Rat) / denominator * denominator = numerator :=
    div_mul_cancel₀ _ unit.ne'
  rw [abs_le]
  constructor <;> nlinarith

/-- Dividing a quotient by a power of two leaves a quotient. -/
theorem shiftDown_spec (numerator : Nat) (positive : 0 < denominator) (exponent : Int) :
    0 < (shiftDown numerator denominator exponent).2 ∧
      ((shiftDown numerator denominator exponent).1 : Rat) /
          (shiftDown numerator denominator exponent).2 =
        numerator / denominator / (2 : Rat) ^ exponent := by
  unfold shiftDown
  split
  · next nonneg =>
    obtain ⟨power, rfl⟩ := Int.eq_ofNat_of_zero_le nonneg
    refine ⟨Nat.mul_pos positive (Nat.two_pow_pos power), ?_⟩
    simp [div_div]
  · next negative =>
    obtain ⟨power, rfl⟩ : ∃ power : Nat, exponent = -power := ⟨(-exponent).toNat, by omega⟩
    refine ⟨positive, ?_⟩
    simp [div_mul_eq_mul_div]

theorem two_zpow_log2_sub_le (someNumerator : 0 < numerator) (positive : 0 < denominator) :
    (2 : Rat) ^ ((numerator.log2 : Int) - (denominator.log2 : Int) - 1) ≤
      numerator / denominator := by
  have least : (2 : Rat) ^ numerator.log2 ≤ numerator := by
    exact_mod_cast Nat.log2_self_le someNumerator.ne'
  have greatest : (denominator : Rat) ≤ 2 ^ (denominator.log2 + 1) := by
    exact_mod_cast Nat.lt_log2_self.le
  have split : (2 : Rat) ^ ((numerator.log2 : Int) - (denominator.log2 : Int) - 1) =
      2 ^ numerator.log2 / 2 ^ (denominator.log2 + 1) := by
    rw [sub_sub, zpow_sub₀ two_ne_zero, zpow_natCast]
    norm_cast
  rw [split]
  exact div_le_div₀ (Nat.cast_nonneg _) least (Nat.cast_pos.mpr positive) greatest

/-- Above the least exponent, the quotient has a significand of 53 bits. -/
theorem two_zpow_exponentOf_le (someNumerator : 0 < numerator) (positive : 0 < denominator)
    (normal : leastExponent < exponentOf numerator denominator) :
    (2 : Rat) ^ (exponentOf numerator denominator + 52) ≤ numerator / denominator := by
  unfold exponentOf at normal ⊢
  dsimp only at normal ⊢
  generalize guessed : (numerator.log2 : Int) - (denominator.log2 : Int) - 52 = guess at normal ⊢
  obtain ⟨unit, shifted⟩ := shiftDown_spec numerator positive guess
  rw [max_eq_right (lt_max_iff.mp normal |>.resolve_left (lt_irrefl _)).le]
  split
  · have low := two_zpow_log2_sub_le someNumerator positive
    have same : guess - 1 + 52 = (numerator.log2 : Int) - (denominator.log2 : Int) - 1 := by omega
    rwa [same]
  · next notBelow =>
    have enough := (Nat.le_div_iff_mul_le unit).mp (not_lt.mp notBelow)
    have cast : (2 : Rat) ^ 52 * (shiftDown numerator denominator guess).2 ≤
        (shiftDown numerator denominator guess).1 := by exact_mod_cast enough
    rw [← le_div_iff₀ (Nat.cast_pos.mpr unit), shifted, le_div_iff₀ (by positivity)] at cast
    rw [zpow_add₀ two_ne_zero, mul_comm]
    exact_mod_cast cast

/-- Rounding a quotient in range errs by half a unit of the last place at most. -/
theorem exists_ofQuotient? (someNumerator : 0 < numerator) (positive : 0 < denominator)
    (inRange : exponentOf numerator denominator < greatestExponent) :
    ∃ number, ofQuotient? false numerator denominator = some number ∧
      |number.toRat - numerator / denominator| ≤
        (2 : Rat) ^ exponentOf numerator denominator / 2 := by
  have counted : ¬ (numerator == 0) = true := by simp [someNumerator.ne']
  unfold ofQuotient?
  rw [if_neg counted]
  dsimp only
  generalize exponentOf numerator denominator = exponent at inRange ⊢
  obtain ⟨unit, shifted⟩ := shiftDown_spec numerator positive exponent
  have near := abs_roundQuotient_sub_le (shiftDown numerator denominator exponent).1 unit
  rw [shifted] at near
  generalize roundQuotient (shiftDown numerator denominator exponent).1
    (shiftDown numerator denominator exponent).2 = rounded at near ⊢
  have scale : (0 : Rat) < 2 ^ exponent := by positivity
  have error : |(rounded : Rat) * 2 ^ exponent - numerator / denominator| ≤ 2 ^ exponent / 2 := by
    have scaled : (rounded : Rat) * 2 ^ exponent - numerator / denominator =
        (rounded - numerator / denominator / 2 ^ exponent) * 2 ^ exponent := by
      rw [sub_mul, div_mul_cancel₀ _ scale.ne']
    rw [scaled, abs_mul, abs_of_pos scale]
    linarith [mul_le_mul_of_nonneg_right near scale.le]
  cases carried : rounded == Nat.pow 2 53 with
  | true =>
    -- A significand of 54 bits moves to the next exponent, and the value stays.
    obtain rfl : rounded = 2 ^ 53 := beq_iff_eq.mp carried
    have same : toRat ⟨false, 2 ^ 52, exponent + 1⟩ = ((2 ^ 53 : Nat) : Rat) * 2 ^ exponent := by
      simp only [toRat, Bool.false_eq_true, if_false]
      rw [zpow_add_one₀ two_ne_zero]
      push_cast
      ring
    exact ⟨_, if_pos (Int.add_one_le_of_lt inRange), same ▸ error⟩
  | false => exact ⟨⟨false, rounded, exponent⟩, if_pos inRange.le, error⟩

end Quotients

/-! ### Fractions up to one -/

/-- Below a power of two, rounding errs by less the smaller the power is. -/
theorem abs_toRat_ofRat_sub_le {value : Rat} (top : Int) (positive : 0 < value)
    (below : value < 2 ^ top) (notTiny : -1000 ≤ top) (notHuge : top ≤ 0) :
    |(ofRat value).toRat - value| ≤ 2 ^ (top - 54) := by
  have numerator : 0 < value.num.natAbs := Int.natAbs_pos.mpr (Rat.num_pos.mpr positive).ne'
  have quotient : (value.num.natAbs : Rat) / value.den = value := by
    rw [Nat.cast_natAbs, abs_of_pos (Rat.num_pos.mpr positive), Rat.num_div_den]
  have unit : exponentOf value.num.natAbs value.den ≤ top - 53 := by
    by_cases normal : leastExponent < exponentOf value.num.natAbs value.den
    · have large := two_zpow_exponentOf_le numerator value.den_pos normal
      rw [quotient] at large
      have less := (zpow_lt_zpow_iff_right₀ one_lt_two).mp (large.trans_lt below)
      omega
    · have least : leastExponent = -1074 := rfl
      omega
  have inRange : exponentOf value.num.natAbs value.den < greatestExponent := by
    have greatest : greatestExponent = 971 := rfl
    omega
  obtain ⟨number, rounded, error⟩ := exists_ofQuotient? numerator value.den_pos inRange
  rw [quotient] at error
  have made : ofRat value = number := by
    rw [ofRat, decide_eq_false (not_lt.mpr (Rat.num_pos.mpr positive).le), rounded, Option.getD_some]
  rw [made]
  calc |number.toRat - value| ≤ 2 ^ exponentOf value.num.natAbs value.den / 2 := error
    _ = 2 ^ (exponentOf value.num.natAbs value.den - 1) := by rw [zpow_sub_one₀ two_ne_zero]; rfl
    _ ≤ 2 ^ (top - 54) := zpow_le_zpow_right₀ one_le_two (by omega)

theorem toRat_ofRat_zero : (ofRat 0).toRat = 0 := by
  have rounded : ofRat 0 = zero false := by rfl
  simp [rounded, toRat, zero]

theorem toRat_ofRat_one : (ofRat 1).toRat = 1 := by
  have rounded : ofRat 1 = ⟨false, 2 ^ 52, -52⟩ := by rfl
  rw [rounded]
  norm_num [toRat]

theorem toRat_ofRat_half : (ofRat (1 / 2)).toRat = 1 / 2 := by
  have rounded : ofRat (1 / 2) = ⟨false, 2 ^ 52, -53⟩ := by decide +kernel
  rw [rounded]
  norm_num [toRat]

/-- A fraction from zero to one with a denominator below 2^26, or from zero to one half with a denominator
below 2^27. -/
structure IsCoarse (limit value : Rat) : Prop where
  limit_eq : limit = 1 ∨ limit = 1 / 2
  nonneg : 0 ≤ value
  le_limit : value ≤ limit
  den_lt : value.den * limit < 2 ^ 26

section Coarse

variable {limit otherLimit value other : Rat}

theorem IsCoarse.abs_sub_le (coarse : IsCoarse limit value) :
    |(ofRat value).toRat - value| ≤ limit / 2 ^ 54 := by
  rcases coarse.nonneg.eq_or_lt with rfl | positive
  · rw [toRat_ofRat_zero, sub_zero, abs_zero]
    rcases coarse.limit_eq with rfl | rfl <;> norm_num
  rcases coarse.le_limit.eq_or_lt with rfl | below
  · -- The limits are numbers of 64 bits themselves.
    rcases coarse.limit_eq with rfl | rfl
    · norm_num [toRat_ofRat_one]
    · norm_num [toRat_ofRat_half]
  · rcases coarse.limit_eq with rfl | rfl
    · have error := abs_toRat_ofRat_sub_le 0 positive (by simpa using below) (by decide) le_rfl
      norm_num at error ⊢
      exact error
    · have error := abs_toRat_ofRat_sub_le (-1) positive (by norm_num; linarith) (by decide)
        (by decide)
      norm_num at error ⊢
      exact error

theorem den_div_le {denominator : Nat} (positive : 0 < denominator) (numerator : Nat) :
    (numerator / denominator : Rat).den ≤ denominator := by
  have divides := Rat.den_dvd numerator denominator
  rw [← Rat.natCast_div_eq_divInt] at divides
  exact Nat.le_of_dvd positive (Int.natCast_dvd_natCast.mp divides)

/-- Two different fractions are at least one part of the product of their denominators apart. -/
theorem one_div_den_mul_den_le (less : value < other) :
    1 / ((value.den : Rat) * other.den) ≤ other - value := by
  have crossed : (value.num : Rat) * other.den + 1 ≤ other.num * value.den := by
    exact_mod_cast (Rat.lt_iff value other).mp less
  have positive : (0 : Rat) < value.den := Nat.cast_pos.mpr value.den_pos
  have otherPositive : (0 : Rat) < other.den := Nat.cast_pos.mpr other.den_pos
  rw [div_le_iff₀ (mul_pos positive otherPositive)]
  have scaled : value * value.den = value.num := Rat.mul_den_eq_num value
  have otherScaled : other * other.den = other.num := Rat.mul_den_eq_num other
  calc (1 : Rat) ≤ other.num * value.den - value.num * other.den := by linarith
    _ = (other - value) * (value.den * other.den) := by rw [← scaled, ← otherScaled]; ring

/-- Coarse fractions lie too far apart to be rounded together. -/
theorem IsCoarse.toRat_ofRat_lt (coarse : IsCoarse limit value) (otherCoarse : IsCoarse otherLimit other)
    (less : value < other) : (ofRat value).toRat < (ofRat other).toRat := by
  have apart := one_div_den_mul_den_le less
  have error := abs_le.mp coarse.abs_sub_le
  have otherError := abs_le.mp otherCoarse.abs_sub_le
  have positive : (0 : Rat) < value.den * other.den :=
    mul_pos (Nat.cast_pos.mpr value.den_pos) (Nat.cast_pos.mpr other.den_pos)
  have limits : 0 < limit ∧ 0 < otherLimit ∧ limit + otherLimit ≤ 4 * (limit * otherLimit) := by
    rcases coarse.limit_eq with rfl | rfl <;> rcases otherCoarse.limit_eq with rfl | rfl <;> norm_num
  obtain ⟨limitPositive, otherLimitPositive, sums⟩ := limits
  have products : (value.den * limit) * (other.den * otherLimit) < 2 ^ 26 * 2 ^ 26 :=
    mul_lt_mul'' coarse.den_lt otherCoarse.den_lt (by positivity) (by positivity)
  have gap : limit * otherLimit / 2 ^ 52 < 1 / ((value.den : Rat) * other.den) := by
    rw [div_lt_div_iff₀ (by norm_num) positive]
    calc limit * otherLimit * (value.den * other.den)
        = (value.den * limit) * (other.den * otherLimit) := by ring
      _ < 1 * 2 ^ 52 := products.trans_eq (by norm_num)
  linarith

theorem IsCoarse.toRat_ofRat_lt_iff (coarse : IsCoarse limit value)
    (otherCoarse : IsCoarse otherLimit other) :
    (ofRat value).toRat < (ofRat other).toRat ↔ value < other := by
  refine ⟨fun rounded => ?_, coarse.toRat_ofRat_lt otherCoarse⟩
  rcases lt_trichotomy value other with less | rfl | greater
  · exact less
  · exact absurd rounded (lt_irrefl _)
  · exact absurd rounded (otherCoarse.toRat_ofRat_lt coarse greater).not_gt

end Coarse

end PromptBlocks.Binary64
