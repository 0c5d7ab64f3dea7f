import Mathlib.Algebra.Order.Ring.Pow
import Mathlib.Tactic.FieldSimp
import ScalarCell.Proofs.Binary.Interval

/-!
# Roundings apart

One rounding takes away at most one part in `F.mantissaBound` of a magnitude, or adds as much. Two
magnitudes are `k` roundings apart if neither is smaller than the other by more than `k` such losses
(`Format.Apart`). Products, quotients and sums keep count of them, and they amount to a relative error
(`Apart.abs_sub_le`). What a format has a full mantissa for, it rounds to something one rounding apart
(`Finite.Covers.apart`).
-/

namespace ScalarCell.Binary

namespace Format

variable (F : Format)

/-- The part of a magnitude that one rounding may take away. -/
def lost : ℚ := 1 / F.mantissaBound

/-- What one rounding leaves. -/
def kept : ℚ := 1 - F.lost

/-- At most `k` roundings apart. -/
structure Apart (k : ℕ) (x y : ℚ) : Prop where
  le_right : x * F.kept ^ k ≤ y
  le_left : y * F.kept ^ k ≤ x

theorem mantissaBound_pos : (0 : ℚ) < F.mantissaBound := by
  exact_mod_cast Nat.pow_pos (n := F.precision) (by decide : 0 < 2)

theorem lost_nonneg : 0 ≤ F.lost := one_div_nonneg.mpr F.mantissaBound_pos.le

theorem kept_le_one : F.kept ≤ 1 := sub_le_self 1 F.lost_nonneg

variable {F} in
/-- One part more makes up for what the two errors have in common. -/
theorem one_le_mul_parts {k : ℕ} (hk : k * (k + 1) ≤ F.mantissaBound) :
    1 ≤ (1 + (k + 1 : ℕ) * F.lost) * (1 - k * F.lost) := by
  have hBound : (k * (k + 1) : ℚ) ≤ F.mantissaBound := by exact_mod_cast hk
  have hSquare : (k * (k + 1) : ℚ) * F.lost ≤ 1 := by
    rwa [lost, mul_one_div, div_le_one F.mantissaBound_pos]
  have hLost := F.lost_nonneg
  push_cast
  nlinarith

namespace Apart

variable {F} {k : ℕ} {x y u v : ℚ}

theorem refl (x : ℚ) : F.Apart 0 x x := by
  constructor <;> rw [pow_zero, mul_one]

theorem symm (h : F.Apart k x y) : F.Apart k y x := ⟨h.le_left, h.le_right⟩

theorem inv (h : F.Apart k x y) (hx : 0 < x) (hy : 0 < y) : F.Apart k x⁻¹ y⁻¹ := by
  constructor
  · rw [inv_mul_le_iff₀ hx, ← div_eq_mul_inv, le_div_iff₀ hy, mul_comm]
    exact h.le_left
  · rw [inv_mul_le_iff₀ hy, ← div_eq_mul_inv, le_div_iff₀ hx, mul_comm]
    exact h.le_right

theorem add (h : F.Apart k x y) (h' : F.Apart k u v) : F.Apart k (x + u) (y + v) := by
  constructor
  · rw [add_mul]
    exact add_le_add h.le_right h'.le_right
  · rw [add_mul]
    exact add_le_add h.le_left h'.le_left

end Apart

variable [F.Proper]

theorem kept_pos : 0 < F.kept := by
  have hTwo : (1 : ℚ) < F.mantissaBound := by
    rw [F.cast_mantissaBound]
    linarith [F.one_le_fullMantissa]
  exact sub_pos.mpr ((div_lt_one F.mantissaBound_pos).mpr hTwo)

theorem kept_nonneg : 0 ≤ F.kept := F.kept_pos.le

theorem kept_pow_nonneg (k : ℕ) : 0 ≤ F.kept ^ k := pow_nonneg F.kept_nonneg k

namespace Apart

variable {F} {j k : ℕ} {x y z u v : ℚ}

theorem pos (h : F.Apart k x y) (hx : 0 < x) : 0 < y :=
  (mul_pos hx (pow_pos F.kept_pos k)).trans_le h.le_right

theorem nonneg (h : F.Apart k x y) (hx : 0 ≤ x) : 0 ≤ y :=
  (mul_nonneg hx (F.kept_pow_nonneg k)).trans h.le_right

theorem eq_zero (h : F.Apart k 0 y) : y = 0 :=
  le_antisymm (nonpos_of_mul_nonpos_left h.le_left (pow_pos F.kept_pos k)) (h.nonneg le_rfl)

theorem trans (h : F.Apart j x y) (h' : F.Apart k y z) : F.Apart (j + k) x z := by
  constructor
  · calc x * F.kept ^ (j + k) = x * F.kept ^ j * F.kept ^ k := by rw [pow_add, mul_assoc]
      _ ≤ y * F.kept ^ k := mul_le_mul_of_nonneg_right h.le_right (F.kept_pow_nonneg k)
      _ ≤ z := h'.le_right
  · calc z * F.kept ^ (j + k) = z * F.kept ^ k * F.kept ^ j := by rw [add_comm, pow_add, mul_assoc]
      _ ≤ y * F.kept ^ j := mul_le_mul_of_nonneg_right h'.le_left (F.kept_pow_nonneg j)
      _ ≤ x := h.le_left

theorem mono (h : F.Apart j x y) (hjk : j ≤ k) (hx : 0 ≤ x) : F.Apart k x y := by
  have hPower := pow_le_pow_of_le_one F.kept_nonneg F.kept_le_one hjk
  exact ⟨(mul_le_mul_of_nonneg_left hPower hx).trans h.le_right,
    (mul_le_mul_of_nonneg_left hPower (h.nonneg hx)).trans h.le_left⟩

theorem mul (h : F.Apart j x y) (h' : F.Apart k u v) (hx : 0 ≤ x) (hu : 0 ≤ u) :
    F.Apart (j + k) (x * u) (y * v) := by
  constructor
  · rw [pow_add, mul_mul_mul_comm]
    exact mul_le_mul h.le_right h'.le_right (mul_nonneg hu (F.kept_pow_nonneg k)) (h.nonneg hx)
  · rw [pow_add, mul_mul_mul_comm]
    exact mul_le_mul h.le_left h'.le_left (mul_nonneg (h'.nonneg hu) (F.kept_pow_nonneg k)) hx

theorem div (h : F.Apart j x y) (h' : F.Apart k u v) (hx : 0 ≤ x) (hu : 0 < u) :
    F.Apart (j + k) (x / u) (y / v) := by
  rw [div_eq_mul_inv, div_eq_mul_inv]
  exact h.mul (h'.inv hu (h'.pos hu)) hx (inv_pos.mpr hu).le

end Apart

/-! ## Relative errors -/

theorem kept_pow_mul_le (k : ℕ) : F.kept ^ k * (1 + k * F.lost) ≤ 1 := by
  have hLost := F.lost_nonneg
  have hProduct : F.kept * (1 + F.lost) ≤ 1 := by
    rw [kept, sub_mul, one_mul]
    nlinarith
  calc F.kept ^ k * (1 + k * F.lost)
      ≤ F.kept ^ k * (1 + F.lost) ^ k :=
        mul_le_mul_of_nonneg_left (one_add_mul_le_pow (by linarith) k) (F.kept_pow_nonneg k)
    _ = (F.kept * (1 + F.lost)) ^ k := (mul_pow _ _ k).symm
    _ ≤ 1 := pow_le_one₀ (mul_nonneg F.kept_nonneg (by linarith)) hProduct

theorem le_kept_pow (k : ℕ) : 1 - k * F.lost ≤ F.kept ^ k := by
  have hPart : F.lost ≤ 1 := sub_nonneg.mp F.kept_nonneg
  have hBernoulli := one_add_mul_le_pow (a := -F.lost) (by linarith) k
  rwa [mul_neg, ← sub_eq_add_neg, ← sub_eq_add_neg] at hBernoulli

variable {F} in
theorem kept_pow_succ_le {k : ℕ} (hk : k * (k + 1) ≤ F.mantissaBound) :
    F.kept ^ (k + 1) ≤ 1 - k * F.lost := by
  have hParts := one_le_mul_parts hk
  have hKept := F.kept_pow_mul_le (k + 1)
  have hNonneg := F.kept_pow_nonneg (k + 1)
  have hLost := F.lost_nonneg
  generalize F.lost = lost at *
  have hMore : 0 < 1 + (k + 1 : ℕ) * lost := by positivity
  have hRest : 0 ≤ 1 - k * lost :=
    ((pos_iff_pos_of_mul_pos (one_pos.trans_le hParts)).mp hMore).le
  calc F.kept ^ (k + 1)
      ≤ F.kept ^ (k + 1) * ((1 + (k + 1 : ℕ) * lost) * (1 - k * lost)) :=
        le_mul_of_one_le_right hNonneg hParts
    _ = F.kept ^ (k + 1) * (1 + (k + 1 : ℕ) * lost) * (1 - k * lost) := (mul_assoc _ _ _).symm
    _ ≤ 1 - k * lost := mul_le_of_le_one_left hRest hKept

namespace Apart

variable {F} {k : ℕ} {x y : ℚ}

theorem abs_sub_le (h : F.Apart k x y) (hx : 0 ≤ x) (hk : k * (k + 1) ≤ F.mantissaBound) :
    |y - x| ≤ x * ((k + 1 : ℕ) * F.lost) := by
  have hy := h.nonneg hx
  have hParts := one_le_mul_parts hk
  have hKept := F.le_kept_pow k
  have hLost := F.lost_nonneg
  generalize F.lost = lost at *
  have hMore : 0 ≤ 1 + (k + 1 : ℕ) * lost := by positivity
  have hBelow : x * (1 - k * lost) ≤ y := (mul_le_mul_of_nonneg_left hKept hx).trans h.le_right
  have hAbove : y * (1 - k * lost) ≤ x := (mul_le_mul_of_nonneg_left hKept hy).trans h.le_left
  have hHigh : y ≤ x * (1 + (k + 1 : ℕ) * lost) :=
    calc y ≤ y * ((1 + (k + 1 : ℕ) * lost) * (1 - k * lost)) := le_mul_of_one_le_right hy hParts
      _ = y * (1 - k * lost) * (1 + (k + 1 : ℕ) * lost) := by ring
      _ ≤ x * (1 + (k + 1 : ℕ) * lost) := mul_le_mul_of_nonneg_right hAbove hMore
  push_cast at hHigh ⊢
  rw [abs_le]
  constructor <;> nlinarith [mul_nonneg hx hLost]

theorem of_abs_sub_le (h : |y - x| ≤ x * (k * F.lost)) (hx : 0 ≤ x)
    (hk : k * (k + 1) ≤ F.mantissaBound) : F.Apart (k + 1) x y := by
  have hKept := F.kept_pow_mul_le (k + 1)
  have hLess := kept_pow_succ_le hk
  have hNonneg := F.kept_pow_nonneg (k + 1)
  have hLost := mul_nonneg hx F.lost_nonneg
  obtain ⟨hBelow, hAbove⟩ := abs_le.mp h
  constructor
  · calc x * F.kept ^ (k + 1) ≤ x * (1 - k * F.lost) :=
          mul_le_mul_of_nonneg_left hLess hx
      _ ≤ y := by linarith
  · have hHigh : y ≤ x * (1 + (k + 1 : ℕ) * F.lost) := by
      push_cast
      linarith
    calc y * F.kept ^ (k + 1)
        ≤ x * (1 + (k + 1 : ℕ) * F.lost) * F.kept ^ (k + 1) :=
          mul_le_mul_of_nonneg_right hHigh hNonneg
      _ = x * (F.kept ^ (k + 1) * (1 + (k + 1 : ℕ) * F.lost)) := by ring
      _ ≤ x := mul_le_of_le_one_right hx hKept

end Apart

end Format

/-! ## One rounding -/

theorem Finite.Covers.apart {F : Format} [F.Proper] {x : Finite F} {y : ℚ} (h : x.Covers y)
    (hFull : F.fullMantissa * 2 ^ F.minExponent ≤ y) : F.Apart 1 y x.magnitude := by
  obtain ⟨hLow, hHigh, -⟩ := h
  have hStep : (0 : ℚ) < 2 ^ x.exponent := by positivity
  have hMantissa : F.fullMantissa ≤ x.mantissa := by
    rcases x.full_or_least with hFilled | hLeast
    · exact hFilled
    · by_contra hLess
      have hRoom : (x.mantissa : ℚ) + 1 ≤ F.fullMantissa := by exact_mod_cast not_le.mp hLess
      rw [← hLeast] at hFull
      unfold high at hHigh
      nlinarith
  have hHalf : (1 : ℚ) / 2 ≤ x.mantissa * F.lost := by
    have hMantissaRat : (F.fullMantissa : ℚ) ≤ x.mantissa := by exact_mod_cast hMantissa
    rw [Format.lost, mul_one_div, F.cast_mantissaBound, div_le_div_iff₀ two_pos
      (mul_pos two_pos (one_pos.trans_le F.one_le_fullMantissa))]
    linarith
  have hPart : 1 / 2 * 2 ^ x.exponent ≤ x.magnitude * F.lost := by
    rw [magnitude, mul_right_comm]
    exact mul_le_mul_of_nonneg_right hHalf hStep.le
  have hBelow : x.magnitude * F.kept ≤ y := by
    refine le_trans ?_ hLow
    rw [Format.kept, mul_one_sub]
    unfold low
    unfold magnitude at *
    split <;> linarith
  have hAbove : y ≤ x.magnitude * (1 + F.lost) := by
    refine hHigh.trans ?_
    rw [high, mul_one_add, add_mul]
    exact add_le_add_right hPart _
  have hKept := F.kept_pow_mul_le 1
  rw [pow_one, Nat.cast_one, one_mul] at hKept
  constructor
  · calc y * F.kept ^ 1 ≤ x.magnitude * (1 + F.lost) * F.kept := by
          rw [pow_one]
          exact mul_le_mul_of_nonneg_right hAbove F.kept_nonneg
      _ = x.magnitude * (F.kept * (1 + F.lost)) := by ring
      _ ≤ x.magnitude := mul_le_of_le_one_right x.magnitude_nonneg hKept
  · rw [pow_one]
    exact hBelow

end ScalarCell.Binary
