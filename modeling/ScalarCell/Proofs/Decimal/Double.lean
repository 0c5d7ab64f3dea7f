import Mathlib.Algebra.Order.Round
import ScalarCell.Proofs.Binary.Reader
import ScalarCell.Proofs.Cell.Reading
import ScalarCell.Proofs.Decimal.Places
import ScalarCell.Proofs.Decimal.Stored
import ScalarCell.Proofs.Decimal.Text

/-!
# Decimals as doubles

The conversion rounds several times on its way, and last of all a number that it has recovered from
the sum of integer part and fraction. It always has a result, for 128 bits hold the integer part of
every decimal (`toDouble?_eq`).

* Whatever the decimal, what is recovered is at most 16 roundings from it (`apart_recovered`).
* With few digits and powers of ten that are doubles, the error stays below half a unit, and the
  decimal itself is recovered (`recovered_eq_magnitude`).

The text of the decimal is read with one rounding. `double_transfer_iff` says when the two agree, and
`double_differs_from_text` is a decimal on which they do not.
-/

namespace ScalarCell.Decimal

open Binary Numeral

/-! ## What is rounded last -/

variable (d : Decimal)

/-- How many units of the last place make one. -/
def unit : ℕ := 10 ^ d.scale

def fraction : ℚ := (d.mantissa % d.unit : ℕ) / d.unit

def storedFraction : ℚ := stored (stored (d.mantissa % d.unit : ℕ) / stored d.unit)

/-- The sum of both parts in units of the last place, before it is cut back to a whole number. -/
def storedUnits : ℚ :=
  stored (stored (stored (d.mantissa / d.unit : ℕ) + d.storedFraction) * scalePower d.scale)

/-- The number that is rounded to the double. -/
def recovered : ℚ :=
  if d.mantissa % d.unit = 0 then d.scaled.magnitude
  else round d.storedUnits / scalePower d.scale

theorem unit_pos : 0 < d.unit := Nat.pow_pos (by decide)

theorem unit_le : d.unit ≤ 10 ^ 29 :=
  Nat.pow_le_pow_right (by decide) (d.scale_le.trans (by decide))

theorem mantissa_le_pow : d.mantissa ≤ 10 ^ 29 := d.mantissa_lt.le.trans (by decide)

theorem magnitude_eq_div : d.scaled.magnitude = d.mantissa / d.unit := by
  rw [magnitude_scaled, unit, Nat.cast_pow]
  rfl

theorem magnitude_eq_add : d.scaled.magnitude = (d.mantissa / d.unit : ℕ) + d.fraction := by
  have hUnit : (d.unit : ℚ) ≠ 0 := by exact_mod_cast d.unit_pos.ne'
  have hParts : (d.mantissa : ℚ) =
      (d.mantissa / d.unit : ℕ) * d.unit + (d.mantissa % d.unit : ℕ) := by
    exact_mod_cast (Nat.div_add_mod' d.mantissa d.unit).symm
  rw [magnitude_eq_div, fraction]
  nth_rewrite 1 [hParts]
  field_simp

theorem moderate_magnitude : Moderate 29 d.scaled.magnitude := by
  rw [magnitude_eq_div]
  exact moderate_div d.mantissa_le_pow d.unit_pos d.unit_le

theorem div_unit_le : d.mantissa / d.unit ≤ 10 ^ 29 :=
  (Nat.div_le_self _ _).trans d.mantissa_le_pow

theorem mod_unit_le : d.mantissa % d.unit ≤ 10 ^ 29 :=
  (Nat.mod_lt _ d.unit_pos).le.trans d.unit_le

theorem apart_scalePower : Format.double.Apart 1 d.unit (scalePower d.scale) := by
  rw [scalePower_eq_stored d.scale d.scale_le]
  exact apart_stored_natCast d.unit_le

theorem scalePower_eq_unit (hScale : d.scale ≤ 22) : scalePower d.scale = d.unit :=
  (scalePower_eq_stored d.scale d.scale_le).trans (stored_pow hScale)

theorem apart_storedFraction : Format.double.Apart 3 d.fraction d.storedFraction := by
  have hUnit : (0 : ℚ) < d.unit := by exact_mod_cast d.unit_pos
  have hQuotient := (apart_stored_natCast d.mod_unit_le).div (apart_stored_natCast d.unit_le)
    (Nat.cast_nonneg _) hUnit
  exact (moderate_div d.mod_unit_le d.unit_pos d.unit_le).apart_stored_of_apart hQuotient (by decide)

/-- The fraction is lost only if there is none. -/
theorem storedFraction_eq_zero_iff : d.storedFraction = 0 ↔ d.mantissa % d.unit = 0 := by
  have hUnit : (d.unit : ℚ) ≠ 0 := by exact_mod_cast d.unit_pos.ne'
  have hFraction : d.fraction = 0 ↔ d.mantissa % d.unit = 0 := by
    rw [fraction, div_eq_zero_iff, or_iff_left hUnit, Nat.cast_eq_zero]
  rw [← hFraction]
  have hApart := d.apart_storedFraction
  constructor
  · intro hZero
    rw [hZero] at hApart
    exact hApart.symm.eq_zero
  · intro hZero
    rw [hZero] at hApart
    exact hApart.eq_zero

section

variable {d} {j l : ℕ}

/-- The units recovered are as good as the parts that they come from. -/
theorem apart_storedUnits (hj : j ≤ 3) (hl : l ≤ 1)
    (hWhole : Format.double.Apart j (d.mantissa / d.unit : ℕ) (stored (d.mantissa / d.unit : ℕ)))
    (hFraction : Format.double.Apart j d.fraction d.storedFraction)
    (hPower : Format.double.Apart l d.unit (scalePower d.scale)) :
    Format.double.Apart (j + 1 + l + 1) d.mantissa d.storedUnits := by
  have hUnit : (0 : ℚ) < d.unit := by exact_mod_cast d.unit_pos
  have hSum := hWhole.add hFraction
  rw [← magnitude_eq_add] at hSum
  have hStored := d.moderate_magnitude.apart_stored_of_apart hSum (by omega)
  have hProduct := hStored.mul hPower d.moderate_magnitude.nonneg hUnit.le
  rw [magnitude_eq_div, div_mul_cancel₀ _ hUnit.ne'] at hProduct
  exact (moderate_natCast d.mantissa_le_pow).apart_stored_of_apart hProduct (by omega)

end

/-! ## The units recovered -/

/-- The whole number next to `x` is not further from another than `x` is, twice over. -/
theorem abs_round_sub_le (x : ℚ) (n : ℤ) : |(round x : ℚ) - n| ≤ 2 * |x - n| := by
  have hNearest := round_le x n
  calc |(round x : ℚ) - n| = |(round x - x) + (x - n)| := by rw [sub_add_sub_cancel]
    _ ≤ |(round x : ℚ) - x| + |x - n| := abs_add_le _ _
    _ = |x - round x| + |x - n| := by rw [abs_sub_comm]
    _ ≤ 2 * |x - n| := by linarith

/-- With few digits and a small scale, nothing but the fraction, the sum and the product is rounded,
and the units are recovered. -/
theorem round_storedUnits_eq (hMantissa : d.mantissa < 2 ^ 50) (hScale : d.scale ≤ 22) :
    round d.storedUnits = d.mantissa := by
  have hUnit : stored d.unit = d.unit := stored_pow hScale
  have hPower := d.scalePower_eq_unit hScale
  have hRest : stored (d.mantissa % d.unit : ℕ) = (d.mantissa % d.unit : ℕ) :=
    stored_natCast ((Nat.mod_le _ _).trans_lt (hMantissa.trans (by decide)))
  have hFraction : Format.double.Apart 1 d.fraction d.storedFraction := by
    rw [storedFraction, hRest, hUnit]
    exact (moderate_div d.mod_unit_le d.unit_pos d.unit_le).apart_stored_of_apart
      (Format.Apart.refl _) (Nat.zero_le _)
  have hUnits : Format.double.Apart 3 d.mantissa d.storedUnits :=
    apart_storedUnits (by decide) (Nat.zero_le 1)
      (apart_stored_natCast d.div_unit_le) hFraction (hPower ▸ Format.Apart.refl _)
  have hError := hUnits.abs_sub_le (Nat.cast_nonneg _) (by decide)
  have hNear : |d.storedUnits - (d.mantissa : ℤ)| < 1 / 2 := by
    have hDigits : (d.mantissa : ℚ) < 2 ^ 50 := by exact_mod_cast hMantissa
    rw [lost_double] at hError
    refine hError.trans_lt ?_
    push_cast
    linarith
  have hRound := abs_round_sub_le d.storedUnits d.mantissa
  have hLess : |round d.storedUnits - (d.mantissa : ℤ)| < 1 := by
    have hLessRat : ((|round d.storedUnits - (d.mantissa : ℤ)| : ℤ) : ℚ) < 1 := by
      push_cast at hRound hNear ⊢
      linarith
    exact_mod_cast hLessRat
  exact sub_eq_zero.mp (Int.abs_lt_one_iff.mp hLess)

theorem recovered_eq_magnitude (hMantissa : d.mantissa < 2 ^ 50) (hScale : d.scale ≤ 22) :
    d.recovered = d.scaled.magnitude := by
  rw [recovered]
  split
  · rfl
  · rw [d.round_storedUnits_eq hMantissa hScale, d.scalePower_eq_unit hScale, magnitude_eq_div,
      Int.cast_natCast]

theorem apart_recovered : Format.double.Apart 16 d.scaled.magnitude d.recovered := by
  have hUnit : (0 : ℚ) < d.unit := by exact_mod_cast d.unit_pos
  rw [recovered]
  split
  · exact (Format.Apart.refl _).mono (Nat.zero_le 16) d.moderate_magnitude.nonneg
  · have hUnits : Format.double.Apart 6 d.mantissa d.storedUnits :=
      apart_storedUnits le_rfl le_rfl
        ((apart_stored_natCast d.div_unit_le).mono (by decide) (Nat.cast_nonneg _))
        d.apart_storedFraction d.apart_scalePower
    have hError := hUnits.abs_sub_le (Nat.cast_nonneg _) (by decide)
    have hRound : |(round d.storedUnits : ℚ) - d.mantissa| ≤
        d.mantissa * ((14 : ℕ) * Format.double.lost) := by
      have hTwice := abs_round_sub_le d.storedUnits d.mantissa
      push_cast at hTwice hError ⊢
      linarith
    have hRecovered := Format.Apart.of_abs_sub_le hRound (Nat.cast_nonneg _) (by decide)
    rw [magnitude_eq_div]
    exact hRecovered.div d.apart_scalePower (Nat.cast_nonneg _) hUnit

/-! ## The double -/

theorem recovered_of_whole (hWhole : d.mantissa % d.unit = 0) :
    d.recovered = (d.mantissa / d.unit : ℕ) := by
  rw [recovered, if_pos hWhole, magnitude_eq_add, fraction, hWhole, Nat.cast_zero, zero_div, add_zero]

theorem toWide?_eq : d.toWide? = some d.truncate := by
  have hQuotient : d.mantissa / Nat.pow 10 d.scale < mantissaBound :=
    (Nat.div_le_self _ _).trans_lt d.mantissa_lt
  refine if_pos ?_
  rw [truncate, applySign]
  generalize d.mantissa / Nat.pow 10 d.scale = n at hQuotient ⊢
  simp only [mantissaBound, wideBound] at hQuotient ⊢
  split <;> omega

theorem toDouble?_of_scale_zero (hScale : d.scale = 0) :
    d.toDouble? = some (nearest .double (d.negative && d.mantissa != 0) d.mantissa) := by
  have hTruncate : d.truncate = applySign d.negative d.mantissa := by
    rw [truncate, hScale]
    exact congrArg _ (Nat.div_one _)
  have hSign : decide (applySign d.negative d.mantissa < 0) = (d.negative && d.mantissa != 0) := by
    rw [Bool.eq_iff_iff, decide_eq_true_eq, Bool.and_eq_true, bne_iff_ne, applySign]
    split
    · next hNegative => simp [hNegative, Nat.pos_iff_ne_zero]
    · next hPositive => simp [hPositive]
  have hMagnitude : (applySign d.negative d.mantissa).natAbs = d.mantissa := by
    rw [applySign]
    split
    · rw [Int.natAbs_neg, Int.natAbs_natCast]
    · exact Int.natAbs_natCast _
  rw [toDouble?, if_pos hScale, d.toWide?_eq, Option.map_some, ofInt, hTruncate, hSign, hMagnitude]

/-- All roundings but the last one are in what is recovered. The sign of a zero is kept only with a
fraction behind it. -/
theorem toDouble?_eq : d.toDouble? =
    some (nearest .double (d.negative && (d.scale != 0 || d.mantissa != 0)) d.recovered) := by
  by_cases hScale : d.scale = 0
  · have hUnit : d.unit = 1 := by rw [unit, hScale, pow_zero]
    have hWhole : d.mantissa % d.unit = 0 := by rw [hUnit, Nat.mod_one]
    rw [d.toDouble?_of_scale_zero hScale, d.recovered_of_whole hWhole, hUnit, Nat.div_one, hScale]
    rfl
  · have hSign : (d.negative && (d.scale != 0 || d.mantissa != 0)) = d.negative := by
      rw [bne_iff_ne.mpr hScale, Bool.true_or, Bool.and_true]
    rw [toDouble?, if_neg hScale, hSign]
    dsimp only
    split
    · next hNone =>
      have hWhole : d.mantissa % d.unit = 0 := d.storedFraction_eq_zero_iff.mp hNone
      have hModerate : Moderate 30 ((d.mantissa / d.unit : ℕ) : ℚ) :=
        (moderate_natCast d.div_unit_le).of_apart (Nat.zero_le _) (Format.Apart.refl _)
      rw [d.recovered_of_whole hWhole, ← hModerate.nearest_stored]
      rfl
    · next hSome =>
      have hFraction : d.mantissa % d.unit ≠ 0 := fun h => hSome (d.storedFraction_eq_zero_iff.mpr h)
      rw [recovered, if_neg hFraction, round_eq]
      rfl

/-! ## Against the nearest double -/

theorem toRat_of_sign {F : Format} {x : Finite F} {negative : Bool}
    (h : x.negative = negative ∨ x.magnitude = 0) :
    x.toRat = if negative then -x.magnitude else x.magnitude := by
  rcases h with rfl | hZero
  · rfl
  · rw [Finite.toRat, hZero, neg_zero, ite_self, ite_self]

/-- The double that the conversion gives, and the nearest one. -/
theorem exists_doubles : ∃ x y : Finite .double, d.toDouble? = some (.finite x) ∧
    nearest .double d.negative d.scaled.magnitude = .finite y ∧
      (Binary.numEq (.finite x) (.finite y) = true ↔ y.Covers d.recovered) ∧
        |x.toRat - d.toRat| ≤ |d.toRat| / 2 ^ 48 := by
  have hMagnitude := d.moderate_magnitude
  have hRecovered : Moderate 30 d.recovered := hMagnitude.of_apart (by decide) d.apart_recovered
  obtain ⟨x, hxSign, hx, hxApart⟩ := hRecovered.exists_nearest
    (d.negative && (d.scale != 0 || d.mantissa != 0))
  obtain ⟨y, hySign, hy, -⟩ :=
    (hMagnitude.of_apart (Nat.zero_le _) (Format.Apart.refl _)).exists_nearest d.negative
  have hApart : Format.double.Apart 17 d.scaled.magnitude x.magnitude :=
    d.apart_recovered.trans hxApart
  have hxRat : x.toRat = if d.negative then -x.magnitude else x.magnitude := by
    apply toRat_of_sign
    by_cases hZero : d.mantissa = 0
    · rw [magnitude_eq_div, hZero, Nat.cast_zero, zero_div] at hApart
      exact Or.inr hApart.eq_zero
    · rw [hxSign, bne_iff_ne.mpr hZero, Bool.or_true, Bool.and_true]
      exact Or.inl rfl
  have hyRat : y.toRat = if d.negative then -y.magnitude else y.magnitude :=
    toRat_of_sign (Or.inl hySign)
  refine ⟨x, y, d.toDouble?_eq.trans (congrArg some hx), hy, ?_, ?_⟩
  · have hCovers := ((nearest_eq_finite_iff hRecovered.nonneg).mp hx).2
    rw [← hCovers.magnitude_eq_iff hRecovered.nonneg, Binary.numEq, beq_iff_eq, hxRat, hyRat]
    split
    · exact neg_inj
    · exact Iff.rfl
  · have hError := hApart.abs_sub_le hMagnitude.nonneg (by decide)
    have hDifference : |x.toRat - d.toRat| = |x.magnitude - d.scaled.magnitude| := by
      rw [hxRat, toRat]
      split
      · rw [neg_sub_neg, abs_sub_comm]
      · rfl
    rw [lost_double] at hError
    rw [hDifference, abs_toRat]
    refine hError.trans ?_
    have hNonneg := hMagnitude.nonneg
    push_cast
    linarith

/-! ## Cells -/

/-- A decimal that arrives as its text is read as the double nearest to it. Natively it is read as a
double, too, and that is the same number exactly if what is recovered from its two parts rounds like
the decimal. It does for a whole number, and for every number of fifteen digits with at most 22 of
them behind the point. The double is never further off than one part in `2 ^ 48`. -/
theorem double_transfer_iff (reported other : Oid) (config : Config) :
    let native : Cell := ⟨reported, some (.numeric d), config⟩
    let written : Cell := ⟨other, some (.text (Scalar.numeric d).toText), config⟩
    native.get .string = .ok (.present (Scalar.numeric d).toText) ∧
      ∃ x y : Finite .double,
        native.get .double = .ok (.present (.finite x)) ∧
        written.get .double = .ok (.present (.finite y)) ∧
        nearest .double d.negative d.scaled.magnitude = .finite y ∧
        (Binary.numEq (.finite x) (.finite y) = true ↔ y.Covers d.recovered) ∧
        (d.mantissa % 10 ^ d.scale = 0 → Binary.numEq (.finite x) (.finite y) = true) ∧
        (d.mantissa < 2 ^ 50 → d.scale ≤ 22 → Binary.numEq (.finite x) (.finite y) = true) ∧
        |x.toRat - d.toRat| ≤ |d.toRat| / 2 ^ 48 := by
  intro native written
  obtain ⟨x, y, hx, hy, hSame, hError⟩ := d.exists_doubles
  have hCovers : y.Covers d.scaled.magnitude :=
    ((nearest_eq_finite_iff d.scaled.magnitude_nonneg).mp hy).2
  refine ⟨rfl, x, y, ?_, ?_, hy, hSame, fun hWhole => ?_, fun hMantissa hScale => ?_, hError⟩
  · refine Cell.get_eq_present_iff.mpr ?_
    rw [Scalar.get, Scalar.getDouble, doubleOfDecimal, hx]
    rfl
  · have hText : Scalar.numericText config (Scalar.numeric d).toText = d.text :=
      Scalar.numericText_ofList config fun _ => d.isBlank_of_mem_text
    refine Cell.get_eq_present_iff.mpr ?_
    rw [Scalar.get, Scalar.getDouble, hText, doubleOfText, text,
      read?_plain, hy]
    rfl
  · rw [hSame, recovered, unit, if_pos hWhole]
    exact hCovers
  · rw [hSame, d.recovered_eq_magnitude hMantissa hScale]
    exact hCovers

/-- Fifteen digits and 22 places. -/
theorem double_transfer_iff_few_digits :
    let d : Decimal := ⟨true, 999999999999999, 22, by decide, by decide⟩
    let native : Cell := ⟨.numeric, some (.numeric d), .default⟩
    let written : Cell := ⟨.text, some (.text (Scalar.numeric d).toText), .default⟩
    d.mantissa < 2 ^ 50 ∧ d.scale ≤ 22 ∧
      ∃ x y : Finite .double,
        native.get .double = .ok (.present (.finite x)) ∧
        written.get .double = .ok (.present (.finite y)) ∧
        Binary.numEq (.finite x) (.finite y) = true := by
  intro d native written
  obtain ⟨-, x, y, hx, hy, -, -, -, hFew, -⟩ := d.double_transfer_iff .numeric .text .default
  have hMantissa : d.mantissa < 2 ^ 50 := by decide
  have hScale : d.scale ≤ 22 := by decide
  exact ⟨hMantissa, hScale, x, y, hx, hy, hFew hMantissa hScale⟩

/-- Ten to the power of minus 23: the power that the units are rescaled by is no double. -/
theorem double_differs_from_text :
    let d : Decimal := ⟨false, 1, 23, by decide, by decide⟩
    let native : Cell := ⟨.numeric, some (.numeric d), .default⟩
    let written : Cell := ⟨.text, some (.text (Scalar.numeric d).toText), .default⟩
    (Scalar.numeric d).toText = "0.00000000000000000000001" ∧
      native.get .double = .ok (.present (ofBits .double 0x3b282db34012b252)) ∧
      written.get .double = .ok (.present (ofBits .double 0x3b282db34012b251)) ∧
      Binary.numEq (ofBits .double 0x3b282db34012b252) (ofBits .double 0x3b282db34012b251) = false := by
  decide +kernel

end ScalarCell.Decimal
