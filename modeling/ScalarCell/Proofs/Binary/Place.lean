import Mathlib.Algebra.Order.Field.Power
import Mathlib.Algebra.Order.Floor.Ring
import Mathlib.Data.Rat.Floor
import Mathlib.Tactic.Linarith
import Mathlib.Tactic.Positivity
import Mathlib.Tactic.Ring
import ScalarCell.Binary.Rounding

/-!
# Rounding in a place

The last place that a format keeps of a magnitude is the finest in range that the mantissa does not
outgrow (`lastPlace_spec`, `lastPlace_eq`). What rounds to a natural number lies within a half of it
(`RoundsTo`, `nearestEven_eq_iff`), and a magnitude is rounded to a multiple of its last place
(`nearest_of_place`).
-/

namespace ScalarCell.Binary

/-- At least two bits, and the exponent of the units is in range. -/
class Format.Proper (F : Format) : Prop where
  two_le_precision : 2 ≤ F.precision
  minExponent_le : F.minExponent ≤ 0
  le_maxExponent : 0 ≤ F.maxExponent

instance : Format.single.Proper := ⟨by decide, by decide, by decide⟩

instance : Format.double.Proper := ⟨by decide, by decide, by decide⟩

variable {F : Format}

/-! ## Full mantissas -/

section

variable (F)

theorem Format.fullMantissa_pos : 0 < F.fullMantissa := Nat.pow_pos (by decide)

theorem Format.one_le_fullMantissa : (1 : ℚ) ≤ F.fullMantissa := by
  exact_mod_cast F.fullMantissa_pos

theorem Format.mantissaBound_zpow : (F.mantissaBound : ℚ) = 2 ^ (F.precision : ℤ) := by
  rw [zpow_natCast]
  exact Nat.cast_pow 2 F.precision

variable [F.Proper]

theorem Format.mantissaBound_eq : F.mantissaBound = 2 * F.fullMantissa := by
  have hPrecision := Format.Proper.two_le_precision (F := F)
  have hSucc : F.precision = F.precision - 1 + 1 := by omega
  unfold Format.mantissaBound Format.fullMantissa
  rw [hSucc, Nat.add_sub_cancel]
  exact Nat.pow_succ'

theorem Format.cast_mantissaBound : (F.mantissaBound : ℚ) = 2 * F.fullMantissa := by
  exact_mod_cast F.mantissaBound_eq

theorem Format.even_mantissaBound : F.mantissaBound % 2 = 0 := by
  rw [F.mantissaBound_eq]
  exact Nat.mul_mod_right 2 _

theorem Format.even_fullMantissa : F.fullMantissa % 2 = 0 := by
  have hPrecision := Format.Proper.two_le_precision (F := F)
  have hSucc : F.precision - 1 = F.precision - 2 + 1 := by omega
  unfold Format.fullMantissa
  rw [hSucc]
  exact (congrArg (· % 2) Nat.pow_succ').trans (Nat.mul_mod_right 2 _)

theorem Format.fullMantissa_zpow : (F.fullMantissa : ℚ) = 2 ^ ((F.precision : ℤ) - 1) := by
  have hBound := F.cast_mantissaBound
  rw [F.mantissaBound_zpow] at hBound
  rw [zpow_sub_one₀ two_ne_zero, hBound]
  ring

theorem Format.canonical_zero : F.Canonical 0 F.minExponent := by
  have hMin := Format.Proper.minExponent_le (F := F)
  have hMax := Format.Proper.le_maxExponent (F := F)
  exact ⟨Nat.pow_pos (by decide), le_rfl, hMin.trans hMax, Or.inr rfl⟩

end

/-! ## The place of a magnitude -/

theorem binaryExponent_spec {x : ℚ} (hx : 0 < x) :
    2 ^ binaryExponent x ≤ x ∧ x < 2 ^ (binaryExponent x + 1) := by
  have hNum : 0 < x.num := Rat.num_pos.mpr hx
  have hDen : (0 : ℚ) < x.den := by exact_mod_cast x.den_pos
  have hNumAbs : ((x.num.natAbs : ℤ) : ℚ) = x.num := by rw [Int.natAbs_of_nonneg hNum.le]
  have hNumLow : (2 : ℚ) ^ (Nat.log2 x.num.natAbs : ℤ) ≤ x * x.den := by
    rw [Rat.mul_den_eq_num, ← hNumAbs]
    exact_mod_cast Nat.log2_self_le (by omega : x.num.natAbs ≠ 0)
  have hNumHigh : x * x.den < (2 : ℚ) ^ ((Nat.log2 x.num.natAbs : ℤ) + 1) := by
    rw [Rat.mul_den_eq_num, ← hNumAbs]
    exact_mod_cast Nat.lt_log2_self
  have hDenLow : (2 : ℚ) ^ (Nat.log2 x.den : ℤ) ≤ x.den := by
    exact_mod_cast Nat.log2_self_le x.den_ne_zero
  have hDenHigh : (x.den : ℚ) < 2 ^ ((Nat.log2 x.den : ℤ) + 1) := by
    exact_mod_cast Nat.lt_log2_self
  unfold binaryExponent
  generalize (Nat.log2 x.num.natAbs : ℤ) = a at *
  generalize (Nat.log2 x.den : ℤ) = b at *
  have hLow : (2 : ℚ) ^ (a - b - 1) ≤ x := by
    rw [sub_sub, zpow_sub₀ two_ne_zero, div_le_iff₀ (by positivity)]
    exact hNumLow.trans (mul_le_mul_of_nonneg_left hDenHigh.le hx.le)
  have hHigh : x < (2 : ℚ) ^ (a - b + 1) := by
    rw [sub_add_eq_add_sub, zpow_sub₀ two_ne_zero, lt_div_iff₀ (by positivity)]
    exact (mul_le_mul_of_nonneg_left hDenLow hx.le).trans_lt hNumHigh
  dsimp only
  split
  · next hBelow => exact ⟨hLow, by rwa [sub_add_cancel]⟩
  · next hAbove => exact ⟨not_lt.mp hAbove, hHigh⟩

section

variable {x : ℚ} {q : ℤ}

theorem lastPlace_le (hx : 0 < x) (hMin : F.minExponent ≤ q)
    (hBelow : x < F.mantissaBound * 2 ^ q) : F.lastPlace x ≤ q := by
  have hPlace : F.lastPlace x = max F.minExponent (binaryExponent x + 1 - F.precision) := rfl
  rw [F.mantissaBound_zpow, ← zpow_add₀ two_ne_zero] at hBelow
  have hLess : binaryExponent x < F.precision + q :=
    (zpow_lt_zpow_iff_right₀ one_lt_two).mp ((binaryExponent_spec hx).1.trans_lt hBelow)
  omega

variable [F.Proper]

/-- The last place is the finest in range that the mantissa does not outgrow. -/
theorem lastPlace_spec (hx : 0 < x) :
    F.minExponent ≤ F.lastPlace x ∧ x < F.mantissaBound * 2 ^ F.lastPlace x ∧
      (F.lastPlace x = F.minExponent ∨ F.fullMantissa * 2 ^ F.lastPlace x ≤ x) := by
  obtain ⟨hLow, hHigh⟩ := binaryExponent_spec hx
  have hPlace : F.lastPlace x = max F.minExponent (binaryExponent x + 1 - F.precision) := rfl
  rw [F.mantissaBound_zpow, F.fullMantissa_zpow, ← zpow_add₀ two_ne_zero, ← zpow_add₀ two_ne_zero]
  refine ⟨by omega, hHigh.trans_le (zpow_le_zpow_right₀ one_le_two (by omega)), ?_⟩
  rcases le_total F.minExponent (binaryExponent x + 1 - F.precision) with hRoom | hNarrow
  · exact Or.inr ((zpow_le_zpow_right₀ one_le_two (by omega)).trans hLow)
  · exact Or.inl (by omega)

theorem lastPlace_eq (hx : 0 < x) (hMin : F.minExponent ≤ q)
    (hBelow : x < F.mantissaBound * 2 ^ q)
    (hFull : q = F.minExponent ∨ F.fullMantissa * 2 ^ q ≤ x) : F.lastPlace x = q := by
  have hPlace : F.lastPlace x = max F.minExponent (binaryExponent x + 1 - F.precision) := rfl
  have hCoarse := lastPlace_le hx hMin hBelow
  rw [F.fullMantissa_zpow, ← zpow_add₀ two_ne_zero] at hFull
  rcases hFull with hLeast | hFull
  · omega
  · have hMore : (F.precision : ℤ) - 1 + q < binaryExponent x + 1 :=
      (zpow_lt_zpow_iff_right₀ one_lt_two).mp (hFull.trans_lt (binaryExponent_spec hx).2)
    omega

end

/-! ## The nearest natural number -/

/-- Within a half of `n`, and strictly within unless `n` is even. -/
def RoundsTo (r : ℚ) (n : ℕ) : Prop :=
  (n : ℚ) - 1 / 2 ≤ r ∧ r ≤ n + 1 / 2 ∧ (r = n - 1 / 2 ∨ r = n + 1 / 2 → n % 2 = 0)

theorem roundsTo_nearestEven {r : ℚ} (hr : 0 ≤ r) : RoundsTo r (nearestEven r) := by
  have hFloor : r.floor.toNat = ⌊r⌋₊ := rfl
  have hLow := Nat.floor_le hr
  have hHigh := Nat.lt_floor_add_one r
  unfold nearestEven
  dsimp only
  rw [hFloor]
  generalize ⌊r⌋₊ = k at *
  split_ifs with hDown hUp
  · refine ⟨by linarith, by linarith, ?_⟩
    rintro (h | h) <;> linarith
  · unfold RoundsTo
    push_cast
    refine ⟨by linarith, by linarith, ?_⟩
    rintro (h | h) <;> linarith
  · have hTie : r = k + 1 / 2 := by linarith
    rcases Nat.mod_two_eq_zero_or_one k with hEven | hOdd
    · rw [hEven, Nat.add_zero]
      exact ⟨by linarith, hTie.le, fun _ => hEven⟩
    · rw [hOdd, RoundsTo]
      push_cast
      exact ⟨by linarith, by linarith, fun _ => by omega⟩

/-- Two neighbours share an end, and only one of them is even. -/
theorem RoundsTo.not_lt {r : ℚ} {m n : ℕ} (hm : RoundsTo r m) (hn : RoundsTo r n) : ¬m < n := by
  intro hLess
  obtain ⟨-, hAbove, hUpper⟩ := hm
  obtain ⟨hBelow, -, hLower⟩ := hn
  have hCast : (m : ℚ) + 1 ≤ n := by exact_mod_cast hLess
  have hNext : n = m + 1 := by
    have hRoom : (n : ℚ) ≤ (m + 1 : ℕ) := by
      push_cast
      linarith
    have hRoom' := Nat.cast_le.mp hRoom
    omega
  have hEven := hUpper (Or.inr (by linarith))
  have hEven' := hLower (Or.inl (by linarith))
  omega

theorem RoundsTo.le_of_lt {r : ℚ} {n k : ℕ} (h : RoundsTo r n) (hr : r < k) : n ≤ k := by
  have hCast : (n : ℚ) < (k + 1 : ℕ) := by
    push_cast
    linarith [h.1]
  exact Nat.lt_succ_iff.mp (Nat.cast_lt.mp hCast)

theorem RoundsTo.le_of_le {r : ℚ} {n k : ℕ} (h : RoundsTo r n) (hr : k ≤ r) : k ≤ n := by
  have hCast : (k : ℚ) < (n + 1 : ℕ) := by
    push_cast
    linarith [h.2.1]
  exact Nat.lt_succ_iff.mp (Nat.cast_lt.mp hCast)

theorem nearestEven_eq_iff {r : ℚ} (hr : 0 ≤ r) {n : ℕ} : nearestEven r = n ↔ RoundsTo r n := by
  have hNearest := roundsTo_nearestEven hr
  constructor
  · rintro rfl
    exact hNearest
  · exact fun h => le_antisymm (not_lt.mp (h.not_lt hNearest)) (not_lt.mp (hNearest.not_lt h))

/-! ## Rounding in a place -/

theorem ofParts_eq_finite_iff {negative : Bool} {m : ℕ} {q : ℤ} {x : Finite F} :
    ofParts F negative m q = .finite x ↔
      x.negative = negative ∧ x.mantissa = m ∧ x.exponent = q := by
  unfold ofParts
  split
  · constructor
    · intro h
      cases h
      exact ⟨rfl, rfl, rfl⟩
    · rintro ⟨rfl, rfl, rfl⟩
      rfl
  · next hNot =>
    constructor
    · intro h
      cases h
    · rintro ⟨rfl, rfl, rfl⟩
      exact absurd x.canonical hNot

theorem ofParts_eq_infinity_iff {negative s : Bool} {m : ℕ} {q : ℤ} :
    ofParts F negative m q = .infinity s ↔ s = negative ∧ ¬F.Canonical m q := by
  unfold ofParts
  split
  · next hCanonical => simp only [reduceCtorEq, hCanonical, not_true_eq_false, and_false]
  · next hNot => simp only [infinity.injEq, hNot, not_false_eq_true, and_true, eq_comm]

theorem nearestEven_div_eq_iff {y step : ℚ} (hy : 0 ≤ y) (hStep : 0 < step) {n : ℕ} :
    nearestEven (y / step) = n ↔ ((n : ℚ) - 1 / 2) * step ≤ y ∧ y ≤ (n + 1 / 2) * step ∧
      (y = (n - 1 / 2) * step ∨ y = (n + 1 / 2) * step → n % 2 = 0) := by
  rw [nearestEven_eq_iff (div_nonneg hy hStep.le), RoundsTo, le_div_iff₀ hStep,
    div_le_iff₀ hStep, div_eq_iff hStep.ne', div_eq_iff hStep.ne']

/-- A magnitude is rounded in its last place, with a carry if that fills the precision. -/
theorem nearest_of_place [F.Proper] (negative : Bool) {y : ℚ} {q : ℤ} {n : ℕ} (hy : 0 < y)
    (hMin : F.minExponent ≤ q) (hBelow : y < F.mantissaBound * 2 ^ q)
    (hFull : q = F.minExponent ∨ F.fullMantissa * 2 ^ q ≤ y)
    (hRounds : nearestEven (y / 2 ^ q) = n) :
    nearest F negative y =
      if n = F.mantissaBound then ofParts F negative F.fullMantissa (q + 1)
      else ofParts F negative n q := by
  rw [nearest, if_neg hy.ne', lastPlace_eq hy hMin hBelow hFull]
  dsimp only
  rw [hRounds]

theorem zpow_pred_mul_two (q : ℤ) : (2 : ℚ) ^ (q - 1) * 2 = 2 ^ q := by
  rw [← zpow_add_one₀ two_ne_zero, sub_add_cancel]

end ScalarCell.Binary
