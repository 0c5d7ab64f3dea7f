import ScalarCell.Decimal.Double
import ScalarCell.Proofs.Binary.Error

/-!
# Rationals stored as doubles

A rational that is `Moderate` is far from the largest double, and far from those that lose digits, so
to store it is one rounding (`Moderate.apart_stored`). A few roundings stay within such a range
(`Moderate.of_apart`), and with it every step of a computation on decimals. Natural numbers below
`2 ^ 53` and the powers of ten up to the twenty-second are stored as they are.
-/

namespace ScalarCell.Decimal

open Binary

/-! ## One rounding -/

/-- Zero, or at most `n` powers of ten away from one. -/
def Moderate (n : ℕ) (x : ℚ) : Prop := x = 0 ∨ (10 : ℚ) ^ (-n : ℤ) ≤ x ∧ x ≤ 10 ^ n

section

variable {n : ℕ} {x : ℚ}

theorem Moderate.nonneg (h : Moderate n x) : 0 ≤ x := by
  rcases h with rfl | ⟨hLow, -⟩
  · exact le_rfl
  · have hLeast : (0 : ℚ) < 10 ^ (-n : ℤ) := by positivity
    exact (hLeast.trans_le hLow).le

theorem Moderate.le (h : Moderate n x) : x ≤ 10 ^ n := by
  rcases h with rfl | ⟨-, hHigh⟩
  · positivity
  · exact hHigh

/-- So far from the largest double, and from those that lose digits, storing is one rounding. -/
theorem Moderate.exists_nearest (h : Moderate 30 x) (negative : Bool) :
    ∃ y : Finite .double, y.negative = negative ∧ nearest .double negative x = .finite y ∧
      Format.double.Apart 1 x y.magnitude := by
  have hOverflow : x < Format.double.overflow := by
    have hPower : (2 : ℚ) ^ (100 : ℤ) ≤ 2 ^ Format.double.maxExponent :=
      zpow_le_zpow_right₀ one_le_two (by decide)
    have hTen : (10 : ℚ) ^ 30 < 2 ^ (100 : ℤ) := by norm_num
    have hOne : (1 : ℚ) ≤ Format.double.mantissaBound - 1 / 2 := by
      norm_num [Format.double, Format.mantissaBound]
    calc x ≤ 10 ^ 30 := h.le
      _ < 2 ^ Format.double.maxExponent := hTen.trans_le hPower
      _ ≤ Format.double.overflow := le_mul_of_one_le_left (by positivity) hOne
  rcases nearest_finite_or_infinity (F := .double) negative x with ⟨y, hSign, hFinite⟩ | hInfinity
  · have hCovers := ((nearest_eq_finite_iff h.nonneg).mp hFinite).2
    refine ⟨y, hSign, hFinite, ?_⟩
    rcases h with rfl | ⟨hLow, -⟩
    · have hZero : y.magnitude = 0 := by
        rw [Finite.magnitude, Finite.covers_zero_iff.mp hCovers, Nat.cast_zero, zero_mul]
      rw [hZero]
      exact (Format.Apart.refl 0).mono (Nat.zero_le 1) le_rfl
    · have hPower : (2 : ℚ) ^ (52 + -1074 : ℤ) ≤ 2 ^ (-100 : ℤ) :=
        zpow_le_zpow_right₀ one_le_two (by decide)
      have hTen : (2 : ℚ) ^ (-100 : ℤ) ≤ 10 ^ (-30 : ℤ) := by norm_num
      refine hCovers.apart ?_
      rw [Format.fullMantissa_zpow, ← zpow_add₀ two_ne_zero]
      exact hPower.trans (hTen.trans hLow)
  · exact absurd ((nearest_eq_infinity_iff h.nonneg).mp hInfinity).2 (not_le.mpr hOverflow)

theorem stored_eq_magnitude {y : Finite .double} (h : nearest .double false x = .finite y) :
    stored x = y.magnitude := by
  rw [stored, h]

theorem Moderate.apart_stored (h : Moderate 30 x) : Format.double.Apart 1 x (stored x) := by
  obtain ⟨y, -, hFinite, hApart⟩ := h.exists_nearest false
  rwa [stored_eq_magnitude hFinite]

/-- Storing a number before rounding it makes no difference. -/
theorem Moderate.nearest_stored (h : Moderate 30 x) (negative : Bool) :
    nearest .double negative (stored x) = nearest .double negative x := by
  obtain ⟨y, -, hFinite, -⟩ := h.exists_nearest false
  let z : Finite .double := { y with negative := negative }
  have hCovers : z.Covers x := ((nearest_eq_finite_iff h.nonneg).mp hFinite).2
  rw [stored_eq_magnitude hFinite, (nearest_eq_finite_iff (x := z) h.nonneg).mpr ⟨rfl, hCovers⟩]
  exact nearest_magnitude z

theorem stored_of_magnitude (h : ∃ y : Finite .double, y.negative = false ∧ y.magnitude = x) :
    stored x = x := by
  obtain ⟨y, hSign, rfl⟩ := h
  exact stored_eq_magnitude (hSign ▸ nearest_magnitude y)

theorem stored_natCast {m : ℕ} (h : m < 2 ^ 53) : stored m = m := by
  obtain ⟨y, hSign, hMagnitude⟩ := exists_magnitude_eq (F := .double) false (q := 0) h
    (by decide) (by decide)
  rw [zpow_zero, mul_one] at hMagnitude
  exact stored_of_magnitude ⟨y, hSign, hMagnitude⟩

/-- The powers of ten up to the twenty-second are doubles. -/
theorem stored_pow {s : ℕ} (h : s ≤ 22) : stored (10 ^ s : ℕ) = (10 ^ s : ℕ) := by
  have hFive : 5 ^ s < Format.double.mantissaBound :=
    (Nat.pow_le_pow_right (by decide) h).trans_lt (by decide)
  have hMax : (s : ℤ) ≤ Format.double.maxExponent := by
    change (s : ℤ) ≤ 971
    omega
  obtain ⟨y, hSign, hMagnitude⟩ := exists_magnitude_eq (F := .double) false (q := s) hFive
    (le_trans (by decide) (Int.natCast_nonneg s)) hMax
  refine stored_of_magnitude ⟨y, hSign, hMagnitude.trans ?_⟩
  rw [zpow_natCast, Nat.cast_pow, Nat.cast_pow, ← mul_pow]
  norm_num

theorem scalePower_eq_stored : ∀ s ≤ 28, scalePower s = stored (10 ^ s : ℕ) := by decide +kernel

end

/-! ## A few of them -/

theorem lost_double : Format.double.lost = 1 / 2 ^ 53 := by
  norm_num [Format.lost, Format.double, Format.mantissaBound]

/-- A few roundings do not leave the range. -/
theorem Moderate.of_apart {k : ℕ} {x y : ℚ} (hx : Moderate 29 x) (hk : k ≤ 20)
    (h : Format.double.Apart k x y) : Moderate 30 y := by
  have hKept : (1 : ℚ) / 10 ≤ Format.double.kept ^ k := by
    have hCount : (k : ℚ) ≤ 20 := by exact_mod_cast hk
    have hLeast := Format.double.le_kept_pow k
    rw [lost_double] at hLeast
    norm_num at hLeast
    linarith
  rcases hx with rfl | ⟨hLow, hHigh⟩
  · exact Or.inl h.eq_zero
  · have hStep : (10 : ℚ) ^ (-29 : ℤ) = 10 ^ (-30 : ℤ) * 10 := by norm_num
    have hPos : (0 : ℚ) < 10 ^ (-29 : ℤ) := by positivity
    have hx := hPos.le.trans hLow
    have hBelow := (mul_le_mul_of_nonneg_left hKept hx).trans h.le_right
    have hAbove := (mul_le_mul_of_nonneg_left hKept (h.nonneg hx)).trans h.le_left
    exact Or.inr ⟨by push_cast at hLow ⊢; linarith, by linarith⟩

theorem moderate_div {m n : ℕ} (hm : m ≤ 10 ^ 29) (hPos : 0 < n) (hn : n ≤ 10 ^ 29) :
    Moderate 29 (m / n : ℚ) := by
  rcases m.eq_zero_or_pos with rfl | hSome
  · exact Or.inl (by rw [Nat.cast_zero, zero_div])
  · have hOne : (1 : ℚ) ≤ m := by exact_mod_cast hSome
    have hUnit : (1 : ℚ) ≤ n := by exact_mod_cast hPos
    have hFine : (n : ℚ) ≤ 10 ^ 29 := by exact_mod_cast hn
    have hLarge : (m : ℚ) ≤ 10 ^ 29 := by exact_mod_cast hm
    refine Or.inr ⟨?_, (div_le_self (Nat.cast_nonneg m) hUnit).trans hLarge⟩
    rw [le_div_iff₀ (one_pos.trans_le hUnit), zpow_neg, zpow_natCast, inv_mul_le_iff₀ (by positivity)]
    exact hFine.trans (le_mul_of_one_le_right (by positivity) hOne)

theorem moderate_natCast {m : ℕ} (h : m ≤ 10 ^ 29) : Moderate 29 (m : ℚ) := by
  have hUnits := moderate_div h one_pos (Nat.one_le_pow 29 10 (by decide))
  rwa [Nat.cast_one, div_one] at hUnits

theorem Moderate.apart_stored_of_apart {k : ℕ} {x y : ℚ} (hx : Moderate 29 x)
    (h : Format.double.Apart k x y) (hk : k ≤ 20) : Format.double.Apart (k + 1) x (stored y) :=
  h.trans (hx.of_apart hk h).apart_stored

theorem apart_stored_natCast {m : ℕ} (h : m ≤ 10 ^ 29) :
    Format.double.Apart 1 m (stored m) :=
  (moderate_natCast h).apart_stored_of_apart (Format.Apart.refl _) (Nat.zero_le _)

end ScalarCell.Decimal
