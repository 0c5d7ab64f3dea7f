import ScalarCell.Binary.Shortest
import ScalarCell.Proofs.Binary.Interval
import ScalarCell.Proofs.Numeral.Magnitude

/-!
# The shortest decimal that reads back

The search for the shortest decimal of a number ends on the coarsest grid that has a decimal in the
number's interval (`searchGrids_spec`). So what it finds reads back as the number
(`nearest_shortest`), and nothing with fewer digits does (`length_shortest_le`). One digit more than the
mantissas have is always enough (`coefficient_shortest_lt`).
-/

namespace ScalarCell.Binary.Finite

open Numeral

/-! ## Grids -/

section

variable {F : Format} (x : Finite F)

theorem gridFloor_spec (g : ℤ) :
    x.gridFloor g * (10 : ℚ) ^ g ≤ x.magnitude ∧
      x.magnitude < (x.gridFloor g + 1) * (10 : ℚ) ^ g := by
  have hGrid : (0 : ℚ) < 10 ^ g := by positivity
  have hFloor : x.gridFloor g = ⌊x.magnitude / 10 ^ g⌋₊ := rfl
  rw [hFloor, ← le_div_iff₀ hGrid, ← div_lt_iff₀ hGrid]
  exact ⟨Nat.floor_le (div_nonneg x.magnitude_nonneg hGrid.le), Nat.lt_floor_add_one _⟩

/-! ## The first and the last grid -/

theorem gridFloor_of_multiple {g : ℤ} {n : ℕ} (h : x.magnitude = n * 10 ^ g) :
    x.gridFloor g * (10 : ℚ) ^ g = x.magnitude := by
  have hGrid : (10 : ℚ) ^ g ≠ 0 := by positivity
  have hFloor : x.gridFloor g = ⌊x.magnitude / 10 ^ g⌋₊ := rfl
  rw [hFloor, h, mul_div_cancel_right₀ _ hGrid, Nat.floor_natCast]

theorem gridFloor_finestGrid :
    x.gridFloor x.finestGrid * (10 : ℚ) ^ x.finestGrid = x.magnitude := by
  rcases le_total 0 x.exponent with hWhole | hFraction
  · obtain ⟨k, hk⟩ := Int.eq_ofNat_of_zero_le hWhole
    have hUnits : x.finestGrid = 0 := min_eq_right hWhole
    apply gridFloor_of_multiple x (n := x.mantissa * 2 ^ k)
    rw [hUnits, magnitude, hk, zpow_natCast, zpow_zero, mul_one, Nat.cast_mul, Nat.cast_pow]
    rfl
  · obtain ⟨k, hk⟩ := Int.eq_ofNat_of_zero_le (neg_nonneg.mpr hFraction)
    have hExponent : x.exponent = -k := by omega
    have hFinest : x.finestGrid = -k := (min_eq_left hFraction).trans hExponent
    apply gridFloor_of_multiple x (n := x.mantissa * 5 ^ k)
    have hTen : (10 : ℚ) ^ k = 2 ^ k * 5 ^ k := by
      rw [← mul_pow]
      norm_num
    rw [hFinest, magnitude, hExponent, zpow_neg, zpow_neg, zpow_natCast, zpow_natCast, hTen]
    push_cast
    field_simp

theorem magnitude_lt_coarsestGrid : x.magnitude < 10 ^ x.coarsestGrid := by
  have hDen : (0 : ℚ) < x.magnitude.den := by exact_mod_cast x.magnitude.den_pos
  have hNonneg := Rat.num_nonneg.mpr x.magnitude_nonneg
  have hNumAbs : ((x.magnitude.num.natAbs : ℤ) : ℚ) = x.magnitude.num := by
    rw [Int.natAbs_of_nonneg hNonneg]
  have hProduct : x.magnitude * x.magnitude.den <
      10 ^ ((digits x.magnitude.num.natAbs).length : ℤ) := by
    rw [Rat.mul_den_eq_num, ← hNumAbs]
    exact_mod_cast lt_pow_length_digits x.magnitude.num.natAbs
  have hDenLow : (10 : ℚ) ^ (((digits x.magnitude.den).length : ℤ) - 1) ≤ x.magnitude.den := by
    have hPos := length_digits_pos x.magnitude.den
    have hCast : ((digits x.magnitude.den).length : ℤ) - 1 =
        ((digits x.magnitude.den).length - 1 : ℕ) := by omega
    rw [hCast]
    exact_mod_cast pow_length_digits_le x.magnitude.den_ne_zero
  have hGrid : x.coarsestGrid = (digits x.magnitude.num.natAbs).length -
      (((digits x.magnitude.den).length : ℤ) - 1) := by
    unfold coarsestGrid
    omega
  rw [hGrid, zpow_sub₀ (by norm_num), lt_div_iff₀ (by positivity)]
  exact (mul_le_mul_of_nonneg_left hDenLow x.magnitude_nonneg).trans_lt hProduct

variable {x}

theorem finestGrid_le_coarsestGrid (hNonzero : x.mantissa ≠ 0) :
    x.finestGrid ≤ x.coarsestGrid := by
  have hPos := magnitude_pos hNonzero
  have hGrid : (0 : ℚ) < 10 ^ x.finestGrid := by positivity
  have hPoint := x.gridFloor_finestGrid
  have hOne : (1 : ℚ) ≤ x.gridFloor x.finestGrid := by
    rw [← hPoint] at hPos
    exact_mod_cast pos_of_mul_pos_left hPos hGrid.le
  have hLess : (10 : ℚ) ^ x.finestGrid < 10 ^ x.coarsestGrid := by
    refine lt_of_le_of_lt ?_ x.magnitude_lt_coarsestGrid
    rw [← hPoint]
    exact le_mul_of_one_le_left hGrid.le hOne
  exact ((zpow_lt_zpow_iff_right₀ (by norm_num)).mp hLess).le

/-- The interval ends before twice the magnitude, so no grid is too coarse to be searched. -/
theorem not_covers_beyond_coarsestGrid (hNonzero : x.mantissa ≠ 0) {g : ℤ}
    (hCoarse : x.coarsestGrid < g) (n : ℕ) : ¬x.Covers (n * 10 ^ g) := by
  intro hCovers
  rcases n.eq_zero_or_pos with rfl | hPos
  · rw [Nat.cast_zero, zero_mul, covers_zero_iff] at hCovers
    exact hNonzero hCovers
  · have hOne : (1 : ℚ) ≤ n := by exact_mod_cast hPos
    have hMagnitude := x.magnitude_lt_coarsestGrid
    have hPower : (10 : ℚ) ^ x.coarsestGrid * 10 ≤ 10 ^ g := by
      rw [← zpow_add_one₀ (by norm_num)]
      exact zpow_le_zpow_right₀ (by norm_num) hCoarse
    have hPoint : (10 : ℚ) ^ g ≤ n * 10 ^ g := le_mul_of_one_le_left (by positivity) hOne
    have hHigh : x.high ≤ 2 * x.magnitude := by
      have hMantissa : (1 : ℚ) ≤ x.mantissa := by
        exact_mod_cast Nat.one_le_iff_ne_zero.mpr hNonzero
      have hStep : (0 : ℚ) < 2 ^ x.exponent := by positivity
      unfold high magnitude
      nlinarith
    have hEnd := hCovers.2.1
    linarith [magnitude_pos hNonzero]

theorem magnitude_shortest_of_zero (hZero : x.mantissa = 0) : x.shortest.magnitude = 0 := by
  rw [shortest, if_pos hZero, Scaled.magnitude, Nat.cast_zero, zero_mul]

end

variable {F : Format} [F.Proper] (x : Finite F)

/-! ## One grid -/

theorem readsBack_iff (c : Scaled) : x.readsBack c = true ↔ x.Covers c.magnitude := by
  rw [readsBack, beq_iff_eq, nearest_eq_finite_iff c.magnitude_nonneg, and_iff_right rfl]

theorem onGrid?_spec {g : ℤ} {c : Scaled} (h : x.onGrid? g = some c) :
    c.exponent = g ∧ x.Covers c.magnitude := by
  unfold onGrid? at h
  dsimp only at h
  have hBelow := x.readsBack_iff ⟨x.gridFloor g, g⟩
  have hAbove := x.readsBack_iff ⟨x.gridFloor g + 1, g⟩
  split at h
  · next hFirst hSecond =>
    split at h
    · cases h
      exact ⟨rfl, hBelow.mp hFirst⟩
    · cases h
      exact ⟨rfl, hAbove.mp hSecond⟩
  · next hFirst _ =>
    cases h
    exact ⟨rfl, hBelow.mp hFirst⟩
  · next _ hSecond =>
    cases h
    exact ⟨rfl, hAbove.mp hSecond⟩
  · cases h

/-- If neither neighbour on the grid reads back, then nothing on the grid does. -/
theorem not_covers_of_onGrid? {g : ℤ} (h : x.onGrid? g = none) (n : ℕ) :
    ¬x.Covers (n * 10 ^ g) := by
  intro hCovers
  have hGrid : (0 : ℚ) < 10 ^ g := by positivity
  obtain ⟨hFloor, hCeiling⟩ := x.gridFloor_spec g
  have hBelow := x.readsBack_iff ⟨x.gridFloor g, g⟩
  have hAbove := x.readsBack_iff ⟨x.gridFloor g + 1, g⟩
  have hSelf := x.covers_magnitude
  have hNeighbour : x.readsBack ⟨x.gridFloor g, g⟩ = true ∨
      x.readsBack ⟨x.gridFloor g + 1, g⟩ = true := by
    rcases Nat.lt_or_ge (x.gridFloor g) n with hMore | hLess
    · refine Or.inr (hAbove.mpr (hSelf.between hCovers ?_ ?_))
      · exact_mod_cast hCeiling.le
      · exact mul_le_mul_of_nonneg_right (by exact_mod_cast hMore) hGrid.le
    · refine Or.inl (hBelow.mpr (hCovers.between hSelf ?_ hFloor))
      exact mul_le_mul_of_nonneg_right (by exact_mod_cast hLess) hGrid.le
  unfold onGrid? at h
  dsimp only at h
  split at h
  · cases h
  · cases h
  · cases h
  · next hFirst hSecond =>
    rw [hFirst, hSecond] at hNeighbour
    simp at hNeighbour

/-! ## From coarse to fine -/

/-- The search ends on the coarsest of its grids that has a point in the interval, and on the last
one with the number itself. -/
theorem searchGrids_spec {g : ℤ} (hLast : x.gridFloor g * (10 : ℚ) ^ g = x.magnitude) (n : ℕ) :
    g ≤ (x.searchGrids g n).exponent ∧ x.Covers (x.searchGrids g n).magnitude ∧
      ∀ coarser, (x.searchGrids g n).exponent < coarser → coarser ≤ g + n →
        ∀ k : ℕ, ¬x.Covers (k * 10 ^ coarser) := by
  induction n with
  | zero =>
    refine ⟨le_rfl, ?_, ?_⟩
    · have hExact : (x.searchGrids g 0).magnitude = x.magnitude := hLast
      rw [hExact]
      exact x.covers_magnitude
    · intro coarser hMore hLess
      have hExponent : (x.searchGrids g 0).exponent = g := rfl
      omega
  | succ n ih =>
    rw [searchGrids]
    split
    · next c hHit =>
      obtain ⟨hExponent, hCovers⟩ := x.onGrid?_spec hHit
      exact ⟨by omega, hCovers, fun coarser hMore hLess => by omega⟩
    · next hMiss =>
      obtain ⟨hFine, hCovers, hCoarser⟩ := ih
      refine ⟨hFine, hCovers, fun coarser hMore hLess => ?_⟩
      rcases hLess.eq_or_lt with rfl | hLess
      · exact x.not_covers_of_onGrid? hMiss
      · exact hCoarser coarser hMore (by push_cast at hLess; omega)

/-! ## The shortest decimal -/

variable {x}

theorem shortest_spec (hNonzero : x.mantissa ≠ 0) :
    x.Covers x.shortest.magnitude ∧
      ∀ coarser, x.shortest.exponent < coarser → ∀ k : ℕ, ¬x.Covers (k * 10 ^ coarser) := by
  have hOrder := finestGrid_le_coarsestGrid hNonzero
  obtain ⟨-, hCovers, hCoarser⟩ := x.searchGrids_spec x.gridFloor_finestGrid
    (x.coarsestGrid - x.finestGrid).toNat
  rw [shortest, if_neg hNonzero]
  refine ⟨hCovers, fun coarser hMore => ?_⟩
  rcases le_or_gt coarser x.coarsestGrid with hSearched | hBeyond
  · exact hCoarser coarser hMore (by omega)
  · exact not_covers_beyond_coarsestGrid hNonzero hBeyond

variable (x)

theorem covers_shortest : x.Covers x.shortest.magnitude := by
  by_cases hZero : x.mantissa = 0
  · rw [magnitude_shortest_of_zero hZero, covers_zero_iff]
    exact hZero
  · exact (shortest_spec hZero).1

theorem nearest_shortest : nearest F x.negative x.shortest.magnitude = .finite x :=
  (nearest_eq_finite_iff x.shortest.magnitude_nonneg).mpr ⟨rfl, x.covers_shortest⟩

/-- No decimal that reads back has fewer digits: a power of ten would lie between it and the
shortest, on a coarser grid. -/
theorem length_shortest_le {c : Scaled} (hReads : nearest F x.negative c.magnitude = .finite x) :
    (digits x.shortest.coefficient).length ≤ (digits c.coefficient).length := by
  have hCovers := ((nearest_eq_finite_iff c.magnitude_nonneg).mp hReads).2
  have hSome := length_digits_pos c.coefficient
  by_cases hZero : x.mantissa = 0
  · have hOne : (digits x.shortest.coefficient).length = 1 := by
      rw [shortest, if_pos hZero]
      rfl
    omega
  obtain ⟨hShortest, hCoarser⟩ := shortest_spec hZero
  by_contra hFewer
  have hFewer := not_le.mp hFewer
  have hCoefficient : x.shortest.coefficient ≠ 0 := by
    intro hNone
    rw [Scaled.magnitude, hNone, Nat.cast_zero, zero_mul, covers_zero_iff] at hShortest
    exact hZero hShortest
  have hExponent : c.exponent ≤ x.shortest.exponent := by
    by_contra hMore
    exact hCoarser c.exponent (not_le.mp hMore) c.coefficient hCovers
  have hLeading : c.leadingExponent + 1 ≤ x.shortest.leadingExponent := by
    unfold Scaled.leadingExponent
    omega
  have hPower : x.Covers ((1 : ℕ) * 10 ^ x.shortest.leadingExponent) := by
    rw [Nat.cast_one, one_mul]
    refine hCovers.between hShortest ?_ (x.shortest.pow_le_magnitude hCoefficient)
    exact c.magnitude_lt_pow.le.trans (zpow_le_zpow_right₀ (by norm_num) hLeading)
  refine hCoarser x.shortest.leadingExponent ?_ 1 hPower
  unfold Scaled.leadingExponent
  omega

/-! ## How many digits there are -/

theorem exists_multiple_near {y step : ℚ} (hy : 0 ≤ y) (hStep : 0 < step) :
    ∃ k : ℕ, |k * step - y| ≤ step / 2 := by
  refine ⟨⌊y / step + 1 / 2⌋₊, ?_⟩
  have hBelow := Nat.floor_le (a := y / step + 1 / 2) (by positivity)
  have hAbove := Nat.lt_floor_add_one (y / step + 1 / 2)
  generalize (⌊y / step + 1 / 2⌋₊ : ℚ) = k at *
  have hLow : k * step ≤ y + step / 2 := by
    have hScaled := mul_le_mul_of_nonneg_right hBelow hStep.le
    rw [add_mul, div_mul_cancel₀ _ hStep.ne'] at hScaled
    linarith
  have hHigh : y + step / 2 < (k + 1) * step := by
    have hScaled := mul_lt_mul_of_pos_right hAbove hStep
    rw [add_mul, div_mul_cancel₀ _ hStep.ne'] at hScaled
    linarith
  rw [abs_le]
  constructor <;> linarith

variable {x} in
/-- Half a step away is near enough if the steps are finer than those of the mantissas. -/
theorem covers_of_near {y step : ℚ} (hFine : step * (F.mantissaBound + 1) ≤ x.high)
    (hNear : |y - x.magnitude| ≤ step / 2) : x.Covers y := by
  obtain ⟨hLow, hHigh⟩ := abs_le.mp hNear
  have hUnit : (0 : ℚ) < 2 ^ x.exponent := by positivity
  have hMantissa : (x.mantissa : ℚ) + 1 ≤ F.mantissaBound := by exact_mod_cast x.mantissa_lt
  have hBound := F.cast_mantissaBound
  unfold Covers low magnitude at *
  unfold high at *
  have hLess : step < 2 ^ x.exponent := by
    by_contra hMore
    nlinarith
  split
  · next hFull =>
    rw [hFull.1] at hLow hHigh hFine ⊢
    have hHalf : step ≤ 1 / 2 * 2 ^ x.exponent := by
      by_contra hMore
      nlinarith [F.one_le_fullMantissa]
    exact ⟨by linarith, by linarith, fun _ => F.even_fullMantissa⟩
  · refine ⟨by linarith, by linarith, ?_⟩
    rintro (hEnd | hEnd) <;> linarith

/-- A decimal with one more digit would be on a grid on which the next coarser one reads back as well. -/
theorem coefficient_shortest_lt {n : ℕ} (hDigits : F.mantissaBound < 10 ^ n) :
    x.shortest.coefficient < 10 ^ (n + 1) := by
  by_cases hZero : x.mantissa = 0
  · rw [shortest, if_pos hZero]
    exact Nat.pow_pos (by decide)
  obtain ⟨hShortest, hCoarser⟩ := shortest_spec hZero
  by_contra hMany
  have hGrid : (0 : ℚ) < 10 ^ (x.shortest.exponent + 1) := by positivity
  have hFine : (10 : ℚ) ^ (x.shortest.exponent + 1) * (F.mantissaBound + 1) ≤ x.high := by
    have hDigitsRat : (F.mantissaBound : ℚ) + 1 ≤ 10 ^ n := by exact_mod_cast hDigits
    have hManyRat : (10 : ℚ) ^ (n + 1) ≤ x.shortest.coefficient := by
      exact_mod_cast not_lt.mp hMany
    calc (10 : ℚ) ^ (x.shortest.exponent + 1) * (F.mantissaBound + 1)
        ≤ 10 ^ (x.shortest.exponent + 1) * 10 ^ n :=
          mul_le_mul_of_nonneg_left hDigitsRat hGrid.le
      _ = 10 ^ (n + 1) * 10 ^ x.shortest.exponent := by
          rw [zpow_add_one₀ (by norm_num), pow_succ]
          ring
      _ ≤ x.shortest.magnitude := mul_le_mul_of_nonneg_right hManyRat (by positivity)
      _ ≤ x.high := hShortest.2.1
  obtain ⟨k, hk⟩ := exists_multiple_near x.magnitude_nonneg hGrid
  exact hCoarser (x.shortest.exponent + 1) (lt_add_one _) k (covers_of_near hFine hk)

end ScalarCell.Binary.Finite
