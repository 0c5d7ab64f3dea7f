import Mathlib.Algebra.Order.Field.Power
import Mathlib.Data.Rat.Cast.Order
import Mathlib.Tactic.Linarith
import Mathlib.Tactic.Positivity
import ScalarCell.Proofs.Numeral.Run

/-!
# The magnitude of a scaled number

The leading exponent brackets the magnitude between two powers of ten (`pow_le_magnitude`,
`magnitude_lt_pow`).
-/

namespace ScalarCell.Numeral

theorem length_digits_pos (n : ℕ) : 0 < (digits n).length := Nat.length_toDigits_pos

theorem lt_pow_length_digits (n : ℕ) : n < 10 ^ (digits n).length :=
  (Nat.length_toDigits_le_iff (by decide) (length_digits_pos n)).mp le_rfl

theorem pow_length_digits_le {n : ℕ} (hn : n ≠ 0) : 10 ^ ((digits n).length - 1) ≤ n := by
  by_contra hLess
  have hPos := length_digits_pos n
  rcases Nat.eq_zero_or_pos ((digits n).length - 1) with hOne | hMore
  · rw [hOne, pow_zero] at hLess
    omega
  · have hShort := (Nat.length_toDigits_le_iff (by decide) hMore).mpr (not_le.mp hLess)
    have hSame : (Nat.toDigits 10 n).length = (digits n).length := rfl
    omega

namespace Scaled

variable (c : Scaled)

theorem magnitude_nonneg : 0 ≤ c.magnitude := by
  unfold magnitude
  positivity

theorem magnitude_lt_pow : c.magnitude < 10 ^ (c.leadingExponent + 1) := by
  have hDigits : (c.coefficient : ℚ) < 10 ^ ((digits c.coefficient).length : ℤ) := by
    exact_mod_cast lt_pow_length_digits c.coefficient
  have hPlace : (0 : ℚ) < 10 ^ c.exponent := by positivity
  have hSum : c.leadingExponent + 1 = (digits c.coefficient).length + c.exponent := by
    unfold leadingExponent
    omega
  rw [hSum, zpow_add₀ (by norm_num), magnitude]
  exact mul_lt_mul_of_pos_right hDigits hPlace

theorem pow_le_magnitude (h : c.coefficient ≠ 0) : 10 ^ c.leadingExponent ≤ c.magnitude := by
  have hPos := length_digits_pos c.coefficient
  have hDigits : (10 : ℚ) ^ (((digits c.coefficient).length - 1 : ℕ) : ℤ) ≤ c.coefficient := by
    exact_mod_cast pow_length_digits_le h
  have hPlace : (0 : ℚ) < 10 ^ c.exponent := by positivity
  have hSum : c.leadingExponent = ((digits c.coefficient).length - 1 : ℕ) + c.exponent := by
    unfold leadingExponent
    omega
  rw [hSum, zpow_add₀ (by norm_num), magnitude]
  exact mul_le_mul_of_nonneg_right hDigits hPlace.le

end Scaled

end ScalarCell.Numeral
