import Mathlib.Algebra.Order.Floor.Ring
import Mathlib.Data.Rat.Floor
import Mathlib.Tactic.FieldSimp
import ScalarCell.Proofs.Decimal.Rounding
import ScalarCell.Proofs.Numeral.Magnitude

/-!
# Rounding to places of the fraction

`roundedTo k r` is the number nearest to `r` with `k` digits behind the point, and of two equally
near ones the one further from zero. The sign plays no part in it (`roundedTo_signed`), and a number
that has no more than `k` digits there is left alone (`roundedTo_eq_self`), so a decimal is left alone
at the places that a scale allows (`roundedTo_toRat`). A number that fits a decimal as it stands is
read as what it is (`exists_readPlain?_of_fits`).
-/

namespace ScalarCell.Decimal

open Numeral

/-- To `k` digits behind the point, a half away from zero. -/
def roundedTo (k : ℕ) (r : ℚ) : ℚ :=
  let units : ℕ := ⌊|r| * 10 ^ k + 1 / 2⌋₊
  if r < 0 then -(units / 10 ^ k) else units / 10 ^ k

theorem roundedTo_signed (k : ℕ) (negative : Bool) {y : ℚ} (hy : 0 ≤ y) :
    roundedTo k (if negative then -y else y) =
      if negative then -(⌊y * 10 ^ k + 1 / 2⌋₊ / 10 ^ k : ℚ) else ⌊y * 10 ^ k + 1 / 2⌋₊ / 10 ^ k := by
  cases negative with
  | false =>
    simp only [roundedTo, Bool.false_eq_true, if_false, abs_of_nonneg hy, not_lt.mpr hy]
  | true =>
    rcases hy.eq_or_lt with rfl | hPos
    · have hNone : ⌊(1 : ℚ) / 2⌋₊ = 0 := Nat.floor_eq_zero.mpr (by norm_num)
      simp only [roundedTo, if_true, neg_zero, abs_zero, lt_self_iff_false, if_false, zero_mul,
        zero_add, hNone, Nat.cast_zero, zero_div]
    · simp only [roundedTo, if_true, abs_neg, abs_of_nonneg hy, neg_lt_zero.mpr hPos]

/-- What has at most `k` digits behind the point is left alone. -/
theorem roundedTo_eq_self {k : ℕ} {r : ℚ} {n : ℤ} (h : r = n / 10 ^ k) : roundedTo k r = r := by
  have hUnit : (0 : ℚ) < 10 ^ k := by positivity
  have hUnits : |r| * 10 ^ k = n.natAbs := by
    rw [h, abs_div, abs_of_pos hUnit, div_mul_cancel₀ _ hUnit.ne', Nat.cast_natAbs, Int.cast_abs]
  have hFloor : ⌊(n.natAbs : ℚ) + 1 / 2⌋₊ = n.natAbs := by
    rw [Nat.floor_eq_iff (by positivity)]
    constructor <;> linarith
  have hMagnitude : (n.natAbs : ℚ) / 10 ^ k = |r| := by
    rw [← hUnits, mul_div_cancel_right₀ _ hUnit.ne']
  unfold roundedTo
  dsimp only
  rw [hUnits, hFloor, hMagnitude]
  split
  · next hNegative => rw [abs_of_neg hNegative, neg_neg]
  · next hNonneg => exact abs_of_nonneg (not_lt.mp hNonneg)

theorem roundedTo_places (negative : Bool) (m : ℕ) {j k : ℕ} (h : j ≤ k) :
    roundedTo k (if negative then -(m / 10 ^ j : ℚ) else m / 10 ^ j) =
      if negative then -(m / 10 ^ j : ℚ) else m / 10 ^ j := by
  obtain ⟨n, rfl⟩ := Nat.exists_eq_add_of_le h
  have hPlaces : (m : ℚ) / 10 ^ j = (m * 10 ^ n : ℕ) / 10 ^ (j + n) := by
    rw [pow_add]
    push_cast
    field_simp
  rw [hPlaces]
  cases negative with
  | false =>
    apply roundedTo_eq_self (n := (m * 10 ^ n : ℕ))
    rw [if_neg Bool.false_ne_true, Int.cast_natCast]
  | true =>
    apply roundedTo_eq_self (n := -(m * 10 ^ n : ℕ))
    rw [if_pos rfl, Int.cast_neg, Int.cast_natCast, neg_div]

/-! ## Decimals -/

variable (d : Decimal)

theorem magnitude_scaled : d.scaled.magnitude = d.mantissa / 10 ^ d.scale := by
  rw [Scaled.magnitude, scaled, zpow_neg, zpow_natCast, div_eq_mul_inv]

theorem toRat_eq : d.toRat =
    if d.negative then -(d.mantissa / 10 ^ d.scale : ℚ) else d.mantissa / 10 ^ d.scale := by
  rw [toRat, magnitude_scaled]

theorem abs_toRat : |d.toRat| = d.scaled.magnitude := by
  rw [toRat]
  split
  · rw [abs_neg, abs_of_nonneg d.scaled.magnitude_nonneg]
  · exact abs_of_nonneg d.scaled.magnitude_nonneg

/-- The sign of a zero makes no difference. -/
theorem toRat_of_unsignedZero {d : Decimal} {negative : Bool}
    (h : d.negative = (negative && d.mantissa != 0)) : d.toRat =
      if negative then -(d.mantissa / 10 ^ d.scale : ℚ) else d.mantissa / 10 ^ d.scale := by
  rw [toRat_eq, h]
  by_cases hZero : d.mantissa = 0
  · simp only [hZero, Nat.cast_zero, zero_div, neg_zero, ite_self]
  · rw [bne_iff_ne.mpr hZero, Bool.and_true]

theorem exists_ofParts? (negative : Bool) {m k : ℕ} (hMantissa : m < mantissaBound)
    (hScale : k ≤ maxScale) : ∃ d, ofParts? negative m k = some d ∧
      d.toRat = if negative then -(m / 10 ^ k : ℚ) else m / 10 ^ k :=
  ⟨⟨negative, m, k, hMantissa, hScale⟩, dif_pos ⟨hMantissa, hScale⟩, toRat_eq _⟩

theorem roundedTo_toRat : roundedTo maxScale d.toRat = d.toRat := by
  rw [toRat_eq, roundedTo_places _ _ d.scale_le]

/-! ## Numbers that fit as they stand -/

theorem exists_readPlain?_of_fits {x : Positional} (hFits : value x.run < mantissaBound)
    (hScale : x.fraction.length ≤ maxScale) :
    ∃ d, readPlain? x.text = some d ∧ d.mantissa = value x.run ∧ d.scale = x.fraction.length ∧
      d.toRat = x.toRat := by
  obtain ⟨d, hRead, hMantissa, hPlaces, hSign⟩ :=
    exists_readPlain?_of_rounded? (Positional.rounded?_of_fits hFits hScale)
  refine ⟨d, hRead, hMantissa, hPlaces, ?_⟩
  rw [toRat_of_unsignedZero (hMantissa ▸ hSign), hMantissa, hPlaces]
  rfl

end ScalarCell.Decimal
