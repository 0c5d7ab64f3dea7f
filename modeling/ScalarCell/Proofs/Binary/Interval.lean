import ScalarCell.Proofs.Binary.Place

/-!
# The magnitudes that round to a given number

Around every finite number lies the interval of the magnitudes that round to it, from halfway down
to the number below to halfway up to the number above (`nearest_eq_finite_iff`). Its two ends belong
to it exactly if the mantissa is even. From half a step above the largest finite number on,
everything rounds to the infinity (`nearest_eq_infinity_iff`).

Hence every number is the nearest one to itself (`nearest_magnitude`), rounding keeps the order of
magnitudes (`magnitude_le_of_covers`), and what rounds to zero is at most half of the least positive
number (`toRat?_nearest_eq_zero_iff`).
-/

namespace ScalarCell.Binary

variable {F : Format}

/-! ## The interval of a number -/

namespace Finite

/-- Halfway to the next lower magnitude. Below a full mantissa the steps are half as wide, unless
its exponent is the least. -/
def low (x : Finite F) : ℚ :=
  if x.mantissa = F.fullMantissa ∧ x.exponent ≠ F.minExponent then
    ((x.mantissa : ℚ) - 1 / 4) * 2 ^ x.exponent
  else ((x.mantissa : ℚ) - 1 / 2) * 2 ^ x.exponent

/-- Halfway to the next higher magnitude. -/
def high (x : Finite F) : ℚ := ((x.mantissa : ℚ) + 1 / 2) * 2 ^ x.exponent

/-- Nearer to `x` than to its neighbours, or halfway to one of them if the mantissa is even. -/
def Covers (x : Finite F) (y : ℚ) : Prop :=
  x.low ≤ y ∧ y ≤ x.high ∧ (y = x.low ∨ y = x.high → x.mantissa % 2 = 0)

theorem mantissa_lt (x : Finite F) : x.mantissa < F.mantissaBound := x.canonical.1

theorem minExponent_le (x : Finite F) : F.minExponent ≤ x.exponent := x.canonical.2.1

theorem exponent_le (x : Finite F) : x.exponent ≤ F.maxExponent := x.canonical.2.2.1

theorem full_or_least (x : Finite F) : F.fullMantissa ≤ x.mantissa ∨ x.exponent = F.minExponent :=
  x.canonical.2.2.2

theorem low_lt_magnitude (x : Finite F) : x.low < x.magnitude := by
  have hStep : (0 : ℚ) < 2 ^ x.exponent := by positivity
  unfold low magnitude
  split <;> nlinarith

theorem magnitude_lt_high (x : Finite F) : x.magnitude < x.high := by
  have hStep : (0 : ℚ) < 2 ^ x.exponent := by positivity
  unfold high magnitude
  nlinarith

variable {x : Finite F} {y : ℚ}

/-- From a full mantissa on, the interval is what rounds to the mantissa. -/
theorem covers_iff_of_full (hy : 0 ≤ y)
    (hFull : x.exponent = F.minExponent ∨ F.fullMantissa * 2 ^ x.exponent ≤ y) :
    x.Covers y ↔ nearestEven (y / 2 ^ x.exponent) = x.mantissa := by
  have hStep : (0 : ℚ) < 2 ^ x.exponent := by positivity
  rw [nearestEven_div_eq_iff hy hStep, Covers, low, high]
  split
  · next hLeast =>
    have hAbove := hFull.resolve_left hLeast.2
    rw [← hLeast.1] at hAbove
    have hHalf : y ≠ ((x.mantissa : ℚ) - 1 / 2) * 2 ^ x.exponent := by
      intro h
      nlinarith
    have hQuarter : y ≠ ((x.mantissa : ℚ) - 1 / 4) * 2 ^ x.exponent := by
      intro h
      nlinarith
    simp only [hHalf, hQuarter, false_or]
    refine and_congr_left fun _ => ?_
    exact iff_of_true (by nlinarith) (by nlinarith)
  · rfl

/-- Only a full mantissa reaches down into smaller steps, and there its interval is what carries. -/
theorem covers_iff_of_below [F.Proper] (hy : 0 ≤ y) (hLeast : x.exponent ≠ F.minExponent)
    (hBelow : y < F.fullMantissa * 2 ^ x.exponent) :
    x.Covers y ↔ x.mantissa = F.fullMantissa ∧
      nearestEven (y / 2 ^ (x.exponent - 1)) = F.mantissaBound := by
  have hStep : (0 : ℚ) < 2 ^ (x.exponent - 1) := by positivity
  rw [nearestEven_div_eq_iff hy hStep, Covers, low, high, F.cast_mantissaBound]
  rw [← zpow_pred_mul_two x.exponent] at hBelow ⊢
  constructor
  · rintro ⟨hLow, hHigh, -⟩
    have hFull : x.mantissa = F.fullMantissa := by
      rcases x.full_or_least.resolve_right hLeast |>.eq_or_lt with hFull | hMore
      · exact hFull.symm
      · have hMore' : (F.fullMantissa : ℚ) + 1 ≤ x.mantissa := by exact_mod_cast hMore
        rw [if_neg (by omega)] at hLow
        nlinarith
    rw [if_pos ⟨hFull, hLeast⟩, hFull] at hLow
    exact ⟨hFull, by nlinarith, by nlinarith, fun _ => F.even_mantissaBound⟩
  · rintro ⟨hFull, hLow, hHigh, -⟩
    rw [if_pos ⟨hFull, hLeast⟩, hFull]
    exact ⟨by nlinarith, by nlinarith, fun _ => F.even_fullMantissa⟩

end Finite

/-! ## What rounds to a number -/

theorem nearest_of_covers [F.Proper] {x : Finite F} {y : ℚ} (hy : 0 < y) (hCovers : x.Covers y) :
    nearest F x.negative y = .finite x := by
  by_cases hFull : x.exponent = F.minExponent ∨ F.fullMantissa * 2 ^ x.exponent ≤ y
  · have hBelow : y < F.mantissaBound * 2 ^ x.exponent := by
      have hStep : (0 : ℚ) < 2 ^ x.exponent := by positivity
      have hBound : (x.mantissa : ℚ) + 1 ≤ F.mantissaBound := by exact_mod_cast x.mantissa_lt
      have hHigh := hCovers.2.1
      unfold Finite.high at hHigh
      nlinarith
    have hRounds := (Finite.covers_iff_of_full hy.le hFull).mp hCovers
    rw [nearest_of_place x.negative hy x.minExponent_le hBelow hFull hRounds,
      if_neg x.mantissa_lt.ne, ofParts_eq_finite_iff]
    exact ⟨rfl, rfl, rfl⟩
  · obtain ⟨hLeast, hLess⟩ := not_or.mp hFull
    have hLess := not_le.mp hLess
    obtain ⟨hMantissa, hRounds⟩ := (Finite.covers_iff_of_below hy.le hLeast hLess).mp hCovers
    have hMin := x.minExponent_le
    have hStep : (0 : ℚ) < 2 ^ (x.exponent - 1) := by positivity
    rw [← zpow_pred_mul_two] at hLess
    have hBelow : y < F.mantissaBound * 2 ^ (x.exponent - 1) := by
      rw [F.cast_mantissaBound]
      linarith
    have hPlace : F.fullMantissa * 2 ^ (x.exponent - 1) ≤ y := by
      have hCarry := ((nearestEven_div_eq_iff hy.le hStep).mp hRounds).1
      have hOne := F.one_le_fullMantissa
      rw [F.cast_mantissaBound] at hCarry
      nlinarith
    rw [nearest_of_place x.negative hy (by omega) hBelow (Or.inr hPlace) hRounds, if_pos rfl,
      ofParts_eq_finite_iff]
    exact ⟨rfl, hMantissa, by omega⟩

theorem covers_of_nearest [F.Proper] {negative : Bool} {x : Finite F} {y : ℚ} (hy : 0 < y)
    (hNearest : nearest F negative y = .finite x) : x.negative = negative ∧ x.Covers y := by
  obtain ⟨hMin, hBelow, hFull⟩ := lastPlace_spec (F := F) hy
  rw [nearest_of_place negative hy hMin hBelow hFull rfl] at hNearest
  split at hNearest
  · next hCarry =>
    obtain ⟨hSign, hMantissa, hExponent⟩ := ofParts_eq_finite_iff.mp hNearest
    refine ⟨hSign, (Finite.covers_iff_of_below hy.le (by omega) ?_).mpr ⟨hMantissa, ?_⟩⟩
    · rw [F.cast_mantissaBound] at hBelow
      rw [hExponent, zpow_add_one₀ two_ne_zero]
      linarith
    · rw [hExponent, add_sub_cancel_right]
      exact hCarry
  · obtain ⟨hSign, hMantissa, hExponent⟩ := ofParts_eq_finite_iff.mp hNearest
    rw [← hExponent] at hFull hMantissa
    exact ⟨hSign, (Finite.covers_iff_of_full hy.le hFull).mpr hMantissa.symm⟩

/-- Unless the steps below are finer, an even mantissa covers half a step on either side, with both
ends. -/
theorem Finite.covers_iff_abs_le {x : Finite F} {y : ℚ} (hNotFull : x.mantissa ≠ F.fullMantissa)
    (hEven : x.mantissa % 2 = 0) : x.Covers y ↔ |y - x.magnitude| ≤ 2 ^ (x.exponent - 1) := by
  have hLow : x.low = x.magnitude - 2 ^ (x.exponent - 1) := by
    rw [low, if_neg fun h => hNotFull h.1, magnitude, zpow_sub_one₀ two_ne_zero]
    ring
  have hHigh : x.high = x.magnitude + 2 ^ (x.exponent - 1) := by
    rw [high, magnitude, zpow_sub_one₀ two_ne_zero]
    ring
  rw [Covers, hLow, hHigh, abs_sub_le_iff]
  constructor
  · rintro ⟨hBelow, hAbove, -⟩
    exact ⟨sub_left_le_of_le_add hAbove, sub_le_comm.mp hBelow⟩
  · rintro ⟨hAbove, hBelow⟩
    exact ⟨sub_le_comm.mp hBelow, le_add_of_sub_left_le hAbove, fun _ => hEven⟩

/-- Zero covers half of the least positive number, and everything below. -/
theorem Finite.covers_iff_of_zero {x : Finite F} {y : ℚ} (hZero : x.mantissa = 0) (hy : 0 ≤ y) :
    x.Covers y ↔ y ≤ 2 ^ (F.minExponent - 1) := by
  have hPos := F.fullMantissa_pos
  have hLeast : x.exponent = F.minExponent :=
    x.full_or_least.resolve_left fun hFull => by omega
  have hMagnitude : x.magnitude = 0 := by
    rw [magnitude, hZero, Nat.cast_zero, zero_mul]
  rw [covers_iff_abs_le (by omega) (by omega), hMagnitude, sub_zero, abs_of_nonneg hy, hLeast]

theorem Finite.covers_zero_iff {x : Finite F} : x.Covers 0 ↔ x.mantissa = 0 := by
  have hStep : (0 : ℚ) < 2 ^ x.exponent := by positivity
  constructor
  · rintro ⟨hLow, -, -⟩
    by_contra hNonzero
    have hOne : (1 : ℚ) ≤ x.mantissa := by exact_mod_cast Nat.one_le_iff_ne_zero.mpr hNonzero
    unfold Finite.low at hLow
    split at hLow <;> nlinarith
  · exact fun hZero => (covers_iff_of_zero hZero le_rfl).mpr (by positivity)

/-- A number is the nearest one exactly on its interval. -/
theorem nearest_eq_finite_iff [F.Proper] {negative : Bool} {x : Finite F} {y : ℚ} (hy : 0 ≤ y) :
    nearest F negative y = .finite x ↔ x.negative = negative ∧ x.Covers y := by
  rcases hy.eq_or_lt with rfl | hPos
  · have hZero : nearest F negative 0 = ofParts F negative 0 F.minExponent := rfl
    rw [hZero, ofParts_eq_finite_iff, Finite.covers_zero_iff]
    refine and_congr_right fun _ => and_iff_left_of_imp fun hMantissa => ?_
    have hFull := F.fullMantissa_pos
    exact x.full_or_least.resolve_left (by omega)
  · constructor
    · exact covers_of_nearest hPos
    · rintro ⟨rfl, hCovers⟩
      exact nearest_of_covers hPos hCovers

/-! ## What rounds to an infinity -/

/-- Half a step above the largest finite magnitude. -/
def Format.overflow (F : Format) : ℚ := ((F.mantissaBound : ℚ) - 1 / 2) * 2 ^ F.maxExponent

theorem Finite.Covers.lt_overflow [F.Proper] {x : Finite F} {y : ℚ} (h : x.Covers y) :
    y < F.overflow := by
  obtain ⟨-, hHigh, hEnds⟩ := h
  have hStep : (0 : ℚ) < 2 ^ x.exponent := by positivity
  have hGrow : (2 : ℚ) ^ x.exponent ≤ 2 ^ F.maxExponent :=
    zpow_le_zpow_right₀ one_le_two x.exponent_le
  have hMantissa : (x.mantissa : ℚ) + 1 ≤ F.mantissaBound := by exact_mod_cast x.mantissa_lt
  have hLast : x.high ≤ F.overflow := by
    have hPos := x.mantissa.cast_nonneg (α := ℚ)
    exact mul_le_mul (by linarith) hGrow hStep.le (by linarith)
  refine hHigh.trans hLast |>.lt_of_ne fun hEnd => ?_
  -- The mantissa below the bound is odd, so the last interval does not hold its end.
  have hEven := hEnds (Or.inr (le_antisymm hHigh (hEnd ▸ hLast)))
  have hLess : (x.mantissa : ℚ) + 2 ≤ F.mantissaBound := by
    have hBound := F.mantissaBound_eq
    have hLt := x.mantissa_lt
    exact_mod_cast (by omega : x.mantissa + 2 ≤ F.mantissaBound)
  unfold Finite.high at hHigh
  unfold Format.overflow at hEnd
  nlinarith

theorem nearest_finite_or_infinity (negative : Bool) (y : ℚ) :
    (∃ x : Finite F, x.negative = negative ∧ nearest F negative y = .finite x) ∨
      nearest F negative y = .infinity negative := by
  have hParts : ∀ m q, (∃ x : Finite F, x.negative = negative ∧
      ofParts F negative m q = .finite x) ∨ ofParts F negative m q = .infinity negative := by
    intro m q
    unfold ofParts
    split
    · exact Or.inl ⟨_, rfl, rfl⟩
    · exact Or.inr rfl
  unfold nearest
  split
  · exact hParts _ _
  · dsimp only
    split <;> exact hParts _ _

theorem overflow_le_of_carry [F.Proper] {negative s : Bool} {y : ℚ} {q : ℤ}
    (hMin : F.minExponent ≤ q) (hLow : ((F.mantissaBound : ℚ) - 1 / 2) * 2 ^ q ≤ y)
    (hInfinity : ofParts F negative F.fullMantissa (q + 1) = .infinity s) : F.overflow ≤ y := by
  have hOne := F.one_le_fullMantissa
  have hBound := F.cast_mantissaBound
  have hBeyond : F.maxExponent ≤ q := by
    have hBound := F.mantissaBound_eq
    have hPos := F.fullMantissa_pos
    by_contra hRoom
    exact (ofParts_eq_infinity_iff.mp hInfinity).2 ⟨by omega, by omega, by omega, Or.inl le_rfl⟩
  have hGrow : (2 : ℚ) ^ F.maxExponent ≤ 2 ^ q := zpow_le_zpow_right₀ one_le_two hBeyond
  exact (mul_le_mul_of_nonneg_left hGrow (by linarith)).trans hLow

theorem overflow_le_of_beyond [F.Proper] {y : ℚ} {q : ℤ} (hBeyond : F.maxExponent < q)
    (hAbove : F.fullMantissa * 2 ^ q ≤ y) : F.overflow ≤ y := by
  have hOne := F.one_le_fullMantissa
  have hBound := F.cast_mantissaBound
  have hStep : (0 : ℚ) < 2 ^ F.maxExponent := by positivity
  have hGrow : (2 : ℚ) ^ F.maxExponent * 2 ≤ 2 ^ q := by
    rw [← zpow_add_one₀ two_ne_zero]
    exact zpow_le_zpow_right₀ one_le_two hBeyond
  unfold Format.overflow
  nlinarith

theorem overflow_le_of_nearest [F.Proper] {negative : Bool} {y : ℚ} (hy : 0 < y)
    (hNearest : nearest F negative y = .infinity negative) : F.overflow ≤ y := by
  obtain ⟨hMin, hBelow, hFull⟩ := lastPlace_spec (F := F) hy
  have hStep : (0 : ℚ) < 2 ^ F.lastPlace y := by positivity
  have hRounds := roundsTo_nearestEven (div_nonneg hy.le hStep.le)
  rw [nearest_of_place negative hy hMin hBelow hFull rfl] at hNearest
  generalize F.lastPlace y = q at *
  generalize nearestEven (y / 2 ^ q) = n at *
  split at hNearest
  · next hCarry =>
    have hLow := (le_div_iff₀ hStep).mp hRounds.1
    rw [hCarry] at hLow
    exact overflow_le_of_carry hMin hLow hNearest
  · next hNoCarry =>
    have hLess : n < F.mantissaBound :=
      lt_of_le_of_ne (hRounds.le_of_lt ((div_lt_iff₀ hStep).mpr hBelow)) hNoCarry
    have hFilled : F.fullMantissa ≤ n ∨ q = F.minExponent :=
      hFull.symm.imp_left fun hAbove => hRounds.le_of_le ((le_div_iff₀ hStep).mpr hAbove)
    have hBeyond : F.maxExponent < q := by
      by_contra hRoom
      exact (ofParts_eq_infinity_iff.mp hNearest).2 ⟨hLess, hMin, not_lt.mp hRoom, hFilled⟩
    have hMinLe := Format.Proper.minExponent_le (F := F)
    have hLeMax := Format.Proper.le_maxExponent (F := F)
    exact overflow_le_of_beyond hBeyond (hFull.resolve_left (by omega))

theorem nearest_eq_infinity_iff [F.Proper] {negative s : Bool} {y : ℚ} (hy : 0 ≤ y) :
    nearest F negative y = .infinity s ↔ s = negative ∧ F.overflow ≤ y := by
  rcases nearest_finite_or_infinity (F := F) negative y with ⟨x, -, hFinite⟩ | hInfinity
  · have hLess := ((nearest_eq_finite_iff hy).mp hFinite).2.lt_overflow
    rw [hFinite]
    exact iff_of_false nofun fun h => absurd h.2 (not_le.mpr hLess)
  · have hPos : 0 < y := by
      refine hy.lt_of_ne ?_
      rintro rfl
      exact (ofParts_eq_infinity_iff.mp hInfinity).2 F.canonical_zero
    rw [hInfinity, infinity.injEq, eq_comm]
    exact (and_iff_left (overflow_le_of_nearest hPos hInfinity)).symm

/-! ## The order of magnitudes -/

namespace Finite

theorem magnitude_nonneg (x : Finite F) : 0 ≤ x.magnitude := by
  unfold magnitude
  positivity

theorem magnitude_pos {x : Finite F} (hNonzero : x.mantissa ≠ 0) : 0 < x.magnitude := by
  have hMantissa : (0 : ℚ) < x.mantissa := by exact_mod_cast Nat.pos_of_ne_zero hNonzero
  unfold magnitude
  positivity

theorem abs_toRat (x : Finite F) : |x.toRat| = x.magnitude := by
  rw [toRat]
  split
  · rw [abs_neg, abs_of_nonneg x.magnitude_nonneg]
  · exact abs_of_nonneg x.magnitude_nonneg

theorem covers_magnitude (x : Finite F) : x.Covers x.magnitude := by
  refine ⟨x.low_lt_magnitude.le, x.magnitude_lt_high.le, ?_⟩
  rintro (hEnd | hEnd)
  · exact absurd hEnd x.low_lt_magnitude.ne'
  · exact absurd hEnd x.magnitude_lt_high.ne

/-- What lies between two magnitudes of the interval lies in the interval. -/
theorem Covers.between {x : Finite F} {a b c : ℚ} (ha : x.Covers a) (hc : x.Covers c)
    (hab : a ≤ b) (hbc : b ≤ c) : x.Covers b := by
  refine ⟨ha.1.trans hab, hbc.trans hc.2.1, ?_⟩
  rintro (rfl | rfl)
  · exact ha.2.2 (Or.inl (le_antisymm hab ha.1))
  · exact hc.2.2 (Or.inr (le_antisymm hc.2.1 hbc))

end Finite

theorem nearest_magnitude [F.Proper] (x : Finite F) :
    nearest F x.negative x.magnitude = .finite x :=
  (nearest_eq_finite_iff x.magnitude_nonneg).mpr ⟨rfl, x.covers_magnitude⟩

/-- Two intervals that meet are one. -/
theorem magnitude_eq_of_covers [F.Proper] {x z : Finite F} {y : ℚ} (hy : 0 ≤ y) (hx : x.Covers y)
    (hz : z.Covers y) : x.magnitude = z.magnitude := by
  have hFirst : nearest F false y = .finite { x with negative := false } :=
    (nearest_eq_finite_iff hy).mpr ⟨rfl, hx⟩
  have hSecond : nearest F false y = .finite { z with negative := false } :=
    (nearest_eq_finite_iff hy).mpr ⟨rfl, hz⟩
  have hSame := finite.inj (hFirst.symm.trans hSecond)
  have hUnsigned : ∀ w : Finite F, ({ w with negative := false } : Finite F).magnitude =
      w.magnitude := fun _ => rfl
  rw [← hUnsigned x, hSame, hUnsigned]

theorem Finite.Covers.magnitude_eq_iff [F.Proper] {x z : Finite F} {y : ℚ} (hx : x.Covers y)
    (hy : 0 ≤ y) : x.magnitude = z.magnitude ↔ z.Covers y := by
  refine ⟨fun hSame => ?_, magnitude_eq_of_covers hy hx⟩
  let w : Finite F := { x with negative := z.negative }
  have hMagnitude : w.magnitude = z.magnitude := hSame
  have hNearest := nearest_magnitude w
  rw [hMagnitude] at hNearest
  have hOne : w = z := finite.inj (hNearest.symm.trans (nearest_magnitude z))
  exact hOne ▸ (hx : w.Covers y)

theorem magnitude_le_of_covers [F.Proper] {x z : Finite F} {a b : ℚ} (ha : 0 ≤ a)
    (hx : x.Covers a) (hz : z.Covers b) (hab : a ≤ b) : x.magnitude ≤ z.magnitude := by
  by_contra hMore
  have hMore := not_le.mp hMore
  rcases le_total a z.magnitude with hInner | hOuter
  · have hBoth := hx.between x.covers_magnitude hInner hMore.le
    exact hMore.ne (magnitude_eq_of_covers z.magnitude_nonneg z.covers_magnitude hBoth)
  · have hBoth := z.covers_magnitude.between hz hOuter hab
    exact hMore.ne (magnitude_eq_of_covers ha hBoth hx)

/-- A magnitude whose mantissa fits is one of the format, whichever exponent it is written with. -/
theorem exists_magnitude_eq [F.Proper] (negative : Bool) {n : ℕ} {q : ℤ}
    (hFits : n < F.mantissaBound) (hMin : F.minExponent ≤ q) (hMax : q ≤ F.maxExponent) :
    ∃ x : Finite F, x.negative = negative ∧ x.magnitude = n * 2 ^ q := by
  rcases n.eq_zero_or_pos with rfl | hPos
  · refine ⟨⟨negative, 0, F.minExponent, F.canonical_zero⟩, rfl, ?_⟩
    simp only [Finite.magnitude, Nat.cast_zero, zero_mul]
  have hStep : (0 : ℚ) < 2 ^ q := by positivity
  have hFits' : (n : ℚ) * 2 ^ q < F.mantissaBound * 2 ^ q := by
    exact mul_lt_mul_of_pos_right (by exact_mod_cast hFits) hStep
  obtain ⟨hLeast, hBelow, hFull⟩ := lastPlace_spec (F := F) (x := n * 2 ^ q) (by positivity)
  have hFiner : F.lastPlace (n * 2 ^ q) ≤ q := lastPlace_le (by positivity) hMin hFits'
  generalize F.lastPlace (n * 2 ^ q) = p at *
  obtain ⟨k, rfl⟩ : ∃ k : ℕ, q = p + k := ⟨(q - p).toNat, by omega⟩
  have hScaled : (n : ℚ) * 2 ^ (p + k : ℤ) = (n * 2 ^ k : ℕ) * 2 ^ p := by
    rw [zpow_add₀ two_ne_zero, zpow_natCast]
    push_cast
    ring
  rw [hScaled] at hBelow hFull ⊢
  have hPlace : (0 : ℚ) < 2 ^ p := by positivity
  refine ⟨⟨negative, n * 2 ^ k, p, ?_, hLeast, by omega, ?_⟩, rfl, rfl⟩
  · exact_mod_cast lt_of_mul_lt_mul_right hBelow hPlace.le
  · rcases hFull with hFull | hFull
    · exact Or.inr hFull
    · exact Or.inl (by exact_mod_cast le_of_mul_le_mul_right hFull hPlace)

/-! ## Numbers that are not zero -/

theorem isNaN_nearest (negative : Bool) (y : ℚ) : (nearest F negative y).isNaN = false := by
  rcases nearest_finite_or_infinity (F := F) negative y with ⟨x, -, hFinite⟩ | hInfinity
  · rw [hFinite]
    rfl
  · rw [hInfinity]
    rfl

theorem Finite.toRat_eq_zero_iff {x : Finite F} : x.toRat = 0 ↔ x.mantissa = 0 := by
  have hStep : (2 : ℚ) ^ x.exponent ≠ 0 := by positivity
  have hMagnitude : x.magnitude = 0 ↔ x.mantissa = 0 := by
    rw [magnitude, mul_eq_zero, or_iff_left hStep, Nat.cast_eq_zero]
  rw [← hMagnitude, toRat]
  split
  · exact neg_eq_zero
  · rfl

theorem Format.zpow_minExponent_le_one (F : Format) [F.Proper] : (2 : ℚ) ^ F.minExponent ≤ 1 :=
  zpow_le_one_of_nonpos₀ one_le_two Format.Proper.minExponent_le

theorem zero_eq [F.Proper] (negative : Bool) :
    zero F negative = .finite ⟨negative, 0, F.minExponent, F.canonical_zero⟩ :=
  dif_pos F.canonical_zero

theorem nearest_eq_zero [F.Proper] (negative : Bool) {y : ℚ} (hy : 0 ≤ y)
    (hHalf : y ≤ 2 ^ (F.minExponent - 1)) : nearest F negative y = zero F negative := by
  rw [zero_eq, nearest_eq_finite_iff hy]
  exact ⟨rfl, (Finite.covers_iff_of_zero rfl hy).mpr hHalf⟩

/-- Half of the least positive number is the last that rounds to zero. -/
theorem toRat?_nearest_eq_zero_iff [F.Proper] (negative : Bool) {y : ℚ} (hy : 0 ≤ y) :
    (nearest F negative y).toRat? = some 0 ↔ y ≤ 2 ^ (F.minExponent - 1) := by
  constructor
  · intro hZero
    rcases nearest_finite_or_infinity (F := F) negative y with ⟨x, -, hFinite⟩ | hInfinity
    · rw [hFinite] at hZero
      have hMantissa := Finite.toRat_eq_zero_iff.mp (Option.some.inj hZero)
      have hCovers := ((nearest_eq_finite_iff hy).mp hFinite).2
      exact (Finite.covers_iff_of_zero hMantissa hy).mp hCovers
    · rw [hInfinity] at hZero
      cases hZero
  · intro hHalf
    rw [nearest_eq_zero negative hy hHalf, zero_eq]
    exact congrArg some (Finite.toRat_eq_zero_iff.mpr rfl)

/-- What is not below the least positive number does not round to zero. -/
theorem toRat?_nearest_ne_zero [F.Proper] (negative : Bool) {y : ℚ}
    (hLeast : 2 ^ F.minExponent ≤ y) : (nearest F negative y).toRat? ≠ some 0 := by
  have hPos : (0 : ℚ) < 2 ^ F.minExponent := by positivity
  rw [Ne, toRat?_nearest_eq_zero_iff negative (hPos.le.trans hLeast),
    zpow_sub_one₀ two_ne_zero, not_le]
  linarith

end ScalarCell.Binary
