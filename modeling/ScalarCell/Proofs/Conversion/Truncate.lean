import ScalarCell.Proofs.Binary.Interval
import ScalarCell.Proofs.Decimal.Places
import ScalarCell.Proofs.Integer.Reader

/-!
# Numbers with a fraction as integers

A floating-point number and a decimal are exact rationals, and as integers they are that rational
rounded toward zero (`truncate_eq_towardZero`). A double is compared with the bounds of 64 bits before
it is cast to them. That admits exactly the doubles whose integer part 64 bits hold
(`beyondLong_eq_false_iff`), for a double so large has no fraction
(`Binary.Finite.exists_intCast_eq_toRat`), and on these the cast is exact (`saturate_trunc`). A single
is converted without loss (`Binary.toRat?_convert_double`). So one check of the range decides
(`ofDouble_eq_checked`, `ofDecimal_eq_checked`). `fractions_truncated` puts this into terms of cells.
-/

namespace ScalarCell

/-- The first whole number on the way from `r` to zero. -/
def towardZero (r : ℚ) : ℤ := if 0 ≤ r then ⌊r⌋ else ⌈r⌉

namespace Integer

theorem truncate_of_nonneg {r : ℚ} (h : 0 ≤ r) : truncate r = ⌊r⌋ := by
  rw [truncate, Int.tdiv_eq_ediv_of_nonneg (Rat.num_nonneg.mpr h), Rat.floor_def']

theorem truncate_eq_towardZero (r : ℚ) : truncate r = towardZero r := by
  unfold towardZero
  split
  · next hNonneg => exact truncate_of_nonneg hNonneg
  · next hNegative =>
    have hOpposite : 0 ≤ -r := neg_nonneg.mpr (not_le.mp hNegative).le
    have hTruncate := truncate_of_nonneg hOpposite
    rw [truncate_neg, Int.floor_neg] at hTruncate
    exact neg_inj.mp hTruncate

theorem truncate_intCast (n : ℤ) : truncate (n : ℚ) = n := by
  rw [truncate, Rat.num_intCast, Rat.den_intCast, Nat.cast_one, Int.tdiv_one]

end Integer

theorem towardZero_intCast (n : ℤ) : towardZero n = n := by
  rw [← Integer.truncate_eq_towardZero, Integer.truncate_intCast]

theorem towardZero_neg (r : ℚ) : towardZero (-r) = -towardZero r := by
  rw [← Integer.truncate_eq_towardZero, ← Integer.truncate_eq_towardZero, Integer.truncate_neg]

/-! ## Floating-point numbers -/

namespace Binary

theorem Finite.exists_natCast_eq_magnitude {F : Format} {x : Finite F} (h : 0 ≤ x.exponent) :
    ∃ n : ℕ, x.magnitude = n := by
  obtain ⟨k, hk⟩ := Int.eq_ofNat_of_zero_le h
  refine ⟨x.mantissa * 2 ^ k, ?_⟩
  rw [magnitude, hk, zpow_natCast]
  push_cast
  rfl

theorem Finite.magnitude_lt_of_exponent_neg {F : Format} {x : Finite F} (h : x.exponent < 0) :
    x.magnitude < F.mantissaBound := by
  have hSmall : (2 : ℚ) ^ x.exponent ≤ 1 := zpow_le_one_of_nonpos₀ one_le_two h.le
  have hMantissa : (x.mantissa : ℚ) < F.mantissaBound := by exact_mod_cast x.mantissa_lt
  exact (mul_le_of_le_one_right (Nat.cast_nonneg _) hSmall).trans_lt hMantissa

/-- Beyond the mantissas, the steps between numbers are whole. -/
theorem Finite.exists_intCast_eq_toRat {F : Format} {x : Finite F}
    (h : (F.mantissaBound : ℚ) ≤ |x.toRat|) : ∃ n : ℤ, x.toRat = n := by
  rw [abs_toRat] at h
  have hExponent : 0 ≤ x.exponent :=
    not_lt.mp fun hNegative => absurd h (not_le.mpr (magnitude_lt_of_exponent_neg hNegative))
  obtain ⟨n, hn⟩ := exists_natCast_eq_magnitude hExponent
  rw [toRat, hn]
  split
  · exact ⟨-n, by push_cast; rfl⟩
  · exact ⟨n, rfl⟩

theorem exists_floor_eq (x : Finite .double) :
    ∃ y : Finite .double, y.negative = x.negative ∧ y.magnitude = (⌊x.magnitude⌋ : ℤ) := by
  rcases lt_or_ge x.exponent 0 with hNegative | hNonneg
  · obtain ⟨n, hn⟩ := Int.eq_ofNat_of_zero_le (Int.floor_nonneg.mpr x.magnitude_nonneg)
    have hFits : n < Format.double.mantissaBound := by
      have hBelow := (Int.floor_le x.magnitude).trans_lt
        (Finite.magnitude_lt_of_exponent_neg hNegative)
      rw [hn] at hBelow
      exact_mod_cast hBelow
    obtain ⟨y, hSign, hy⟩ := exists_magnitude_eq (q := 0) x.negative hFits (by decide) (by decide)
    exact ⟨y, hSign, by rw [hy, hn, zpow_zero, mul_one]; rfl⟩
  · obtain ⟨n, hn⟩ := Finite.exists_natCast_eq_magnitude hNonneg
    exact ⟨x, rfl, by rw [hn, Int.floor_natCast]; rfl⟩

/-- The integer part of a double is a double. -/
theorem exists_trunc_eq (x : Finite .double) :
    ∃ y : Finite .double, trunc (finite x) = finite y ∧ y.toRat = towardZero x.toRat := by
  obtain ⟨y, hSign, hFloor⟩ := exists_floor_eq x
  have hTrunc : trunc (finite x) = finite y := by
    rw [← nearest_magnitude y, hSign, hFloor]
    rfl
  have hPositive : towardZero x.magnitude = ⌊x.magnitude⌋ := if_pos x.magnitude_nonneg
  refine ⟨y, hTrunc, ?_⟩
  rw [Finite.toRat, Finite.toRat, hSign, hFloor]
  split
  · rw [towardZero_neg, hPositive]
    push_cast
    rfl
  · rw [hPositive]

theorem less_iff {F : Format} {x y : Binary F} {r s : ℚ} (hx : x.toRat? = some r)
    (hy : y.toRat? = some s) : x.less y = true ↔ r < s := by
  cases x <;> cases hx
  cases y <;> cases hy
  exact decide_eq_true_iff

theorem atLeast_iff {F : Format} {x y : Binary F} {r s : ℚ} (hx : x.toRat? = some r)
    (hy : y.toRat? = some s) : x.atLeast y = true ↔ s ≤ r := by
  have hEqual : x.numEq y = true ↔ r = s := by
    cases x <;> cases hx
    cases y <;> cases hy
    exact beq_iff_eq
  rw [atLeast, Bool.or_eq_true, less_iff hy hx, hEqual, le_iff_lt_or_eq, eq_comm]

/-- Every single is a double. -/
theorem toRat?_convert_double (x : Single) : (x.convert .double).toRat? = x.toRat? := by
  cases x with
  | nan => rfl
  | infinity s => rfl
  | finite y =>
    have hMin : -149 ≤ y.exponent := y.minExponent_le
    have hMax : y.exponent ≤ 104 := y.exponent_le
    have hMantissa : y.mantissa < Format.double.mantissaBound := y.mantissa_lt.trans (by decide)
    have hLeast : Format.double.minExponent ≤ y.exponent := by
      change -1074 ≤ y.exponent
      omega
    have hMost : y.exponent ≤ Format.double.maxExponent := by
      change y.exponent ≤ 971
      omega
    obtain ⟨z, hSign, hMagnitude⟩ := exists_magnitude_eq y.negative hMantissa hLeast hMost
    have hSame : z.magnitude = y.magnitude := hMagnitude
    have hConvert : convert .double (finite y) = finite z := by
      rw [convert, ← hSign, ← hSame, nearest_magnitude]
    rw [hConvert, toRat?, toRat?, Finite.toRat, Finite.toRat, hSign, hSame]

end Binary

namespace Integer

/-! ### The bounds of 64 bits -/

theorem toRat?_leastLong : leastLong.toRat? = some (-Width.long.bound : ℤ) := by decide +kernel

theorem toRat?_greatestLong : greatestLong.toRat? = some (Width.long.bound : ℤ) := by decide +kernel

theorem beyondLong_of_toRat?_eq_none {x : Binary.Double} (h : x.toRat? = none) :
    beyondLong x = true := by
  cases x with
  | nan => rfl
  | infinity negative => cases negative <;> decide +kernel
  | finite y => cases h

theorem beyondLong_iff {x : Binary.Double} {r : ℚ} (h : x.toRat? = some r) :
    beyondLong x = true ↔ r < (-Width.long.bound : ℤ) ∨ ((Width.long.bound : ℤ) : ℚ) ≤ r := by
  have hNumber : x.isNaN = false := by
    cases x <;> cases h
    rfl
  rw [beyondLong, hNumber, Bool.false_or, Bool.or_eq_true, Binary.less_iff h toRat?_leastLong,
    Binary.atLeast_iff h toRat?_greatestLong]

theorem holds_towardZero {r : ℚ} (hLow : (-Width.long.bound : ℤ) ≤ r)
    (hHigh : r < (Width.long.bound : ℤ)) : Width.long.Holds (towardZero r) := by
  unfold towardZero
  split
  · exact ⟨Int.le_floor.mpr hLow, Int.floor_lt.mpr hHigh⟩
  · next hNegative =>
    have hCeil : ⌈r⌉ ≤ 0 := Int.ceil_le.mpr (by exact_mod_cast (not_le.mp hNegative).le)
    exact ⟨by exact_mod_cast hLow.trans (Int.le_ceil r), hCeil.trans_lt (by decide)⟩

theorem exists_intCast_of_beyond {x : Binary.Double} {r : ℚ} (h : x.toRat? = some r)
    (hBeyond : r < (-Width.long.bound : ℤ) ∨ ((Width.long.bound : ℤ) : ℚ) ≤ r) :
    ∃ n : ℤ, r = n := by
  have hBound : (2 ^ 53 : ℚ) ≤ (Width.long.bound : ℚ) := by norm_num [Width.bound]
  have hLarge : ((2 : ℕ) ^ 53 : ℚ) ≤ |r| := by
    push_cast at hBeyond ⊢
    rcases hBeyond with hBelow | hAbove
    · exact le_abs.mpr (Or.inr (by linarith))
    · exact le_abs.mpr (Or.inl (hBound.trans hAbove))
  cases x <;> cases h
  exact Binary.Finite.exists_intCast_eq_toRat hLarge

/-- What is compared with the bounds is the double, not its integer part. Both comparisons agree, for
there is no double between the lower bound and the next integer below. -/
theorem beyondLong_eq_false_iff {x : Binary.Double} :
    beyondLong x = false ↔ ∃ r ∈ x.toRat?, Width.long.Holds (towardZero r) := by
  cases hValue : x.toRat? with
  | none => simp [beyondLong_of_toRat?_eq_none hValue]
  | some r =>
    simp only [Option.mem_some_iff, exists_eq_left']
    constructor
    · intro hWithin
      rw [← Bool.not_eq_true, beyondLong_iff hValue, not_or, not_lt, not_le] at hWithin
      exact holds_towardZero hWithin.1 hWithin.2
    · intro hHolds
      refine Bool.eq_false_iff.mpr fun hBeyond => ?_
      rw [beyondLong_iff hValue] at hBeyond
      obtain ⟨n, rfl⟩ := exists_intCast_of_beyond hValue hBeyond
      rw [towardZero_intCast] at hHolds
      rw [Int.cast_lt, Int.cast_le] at hBeyond
      obtain ⟨hLow, hHigh⟩ := hHolds
      omega

theorem clamp_val_of_holds {w : Width} {n : ℤ} (h : w.Holds n) : (clamp w n).val = n := by
  obtain ⟨hLow, hHigh⟩ := h
  simp only [clamp]
  omega

/-- The cast neither saturates nor wraps what 64 bits hold. -/
theorem saturate_trunc {x : Binary.Double} {r : ℚ} (h : x.toRat? = some r)
    (hHolds : Width.long.Holds (towardZero r)) : (saturate .long x.trunc).val = towardZero r := by
  cases x <;> cases h
  next y =>
    obtain ⟨z, hTrunc, hValue⟩ := Binary.exists_trunc_eq y
    rw [hTrunc, saturate, hValue, truncate_intCast, clamp_val_of_holds hHolds]

/-! ### One check of the range -/

theorem ofDouble_eq_checked (w : Width) {x : Binary.Double} {r : ℚ} (h : x.toRat? = some r) :
    ofDouble w x = checked w x.plain (truncate r) := by
  rw [truncate_eq_towardZero, ofDouble]
  split
  · next hBeyond =>
    have hNotLong : ¬Width.long.Holds (towardZero r) := fun hHolds =>
      Bool.false_ne_true ((beyondLong_eq_false_iff.mpr ⟨r, h, hHolds⟩).symm.trans hBeyond)
    rw [checked_of_not_holds fun hHolds => hNotLong (Width.holds_long hHolds)]
    rfl
  · next hWithin =>
    obtain ⟨s, hs, hHolds⟩ := beyondLong_eq_false_iff.mp (Bool.eq_false_iff.mpr hWithin)
    obtain rfl : r = s := Option.some.inj (h.symm.trans hs)
    rw [saturate_trunc h hHolds]

theorem ofDecimal_eq_checked (w : Width) (d : Decimal) :
    ofDecimal w d = checked w d.text (truncate d.toRat) := by
  have hUnit : (10 ^ d.scale : ℚ) = (10 ^ d.scale : ℕ) := by push_cast; rfl
  have hTruncate : truncate d.toRat = d.truncate := by
    rw [Decimal.toRat_eq, hUnit, Decimal.truncate, Numeral.applySign]
    split
    · rw [truncate_neg, truncate_div]
      rfl
    · exact truncate_div _ _
  rw [ofDecimal, checkedWithinLong_eq, hTruncate]

end Integer

/-! ## Cells -/

/-- As an integer of any width, the cell is the rational rounded toward zero if the width holds that,
and an overflow that names the width and shows the text in every other case. -/
def Cell.Truncates (c : Cell) (value? : Option ℚ) (shown : List Char) : Prop :=
  ∀ w : Width, ∃ name, (Target.integer w).Named name ∧
    (∀ i : Integer w,
      c.get (.integral w) = .ok (.present i) ↔ ∃ r ∈ value?, i.val = towardZero r) ∧
    ((∀ r ∈ value?, ¬w.Holds (towardZero r)) →
      c.get (.integral w) = .error (.numericOverflow name (String.ofList shown)))

namespace Scalar

variable {v : Scalar} {config : Config} {shown : List Char}

theorem truncates_of_checked {r : ℚ}
    (h : ∀ w, v.getIntegral config w = Integer.checked w shown (Integer.truncate r))
    (reported : Oid) : Cell.Truncates ⟨reported, some v, config⟩ (some r) shown := by
  intro w
  have hRead := h w
  rw [Integer.truncate_eq_towardZero] at hRead
  refine ⟨_, (Target.integer w).named_name, ?_, ?_⟩
  · intro i
    refine Cell.get_eq_present_iff.trans ?_
    rw [Scalar.get, hRead]
    refine Integer.checked_eq_ok_iff.trans ?_
    simp only [Option.mem_some_iff, exists_eq_left']
  · intro hBeyond
    refine Cell.get_eq_error_iff.mpr (hRead.trans ?_)
    exact Integer.checked_of_not_holds (hBeyond r rfl)

theorem truncates_of_overflow
    (h : ∀ w, v.getIntegral config w = .error ((Target.integer w).overflow shown))
    (reported : Oid) : Cell.Truncates ⟨reported, some v, config⟩ none shown := by
  intro w
  refine ⟨_, (Target.integer w).named_name, ?_, ?_⟩
  · intro i
    refine Cell.get_eq_present_iff.trans ?_
    rw [Scalar.get, h]
    simp
  · intro _
    exact Cell.get_eq_error_iff.mpr (h w)

/-- What is read through a double, whose exact value `value?` is. -/
theorem truncates_of_ofDouble {x : Binary.Double} (h : ∀ w, v.getIntegral config w =
    Integer.ofDouble w x) (reported : Oid) :
    Cell.Truncates ⟨reported, some v, config⟩ x.toRat? x.plain := by
  cases hValue : x.toRat? with
  | none =>
    refine truncates_of_overflow (fun w => ?_) reported
    rw [h, Integer.ofDouble, if_pos (Integer.beyondLong_of_toRat?_eq_none hValue), Integer.overflow]
  | some r =>
    exact truncates_of_checked (fun w => (h w).trans (Integer.ofDouble_eq_checked w hValue)) reported

end Scalar

/-- A single, a double and a decimal are truncated to the exact integer part of what they denote, at
every width, and what does not fit the width is an overflow that names it, as are the infinities and
NaN. The comparison with the bounds of 64 bits admits the doubles whose integer part fits, and the
cast gives that of every double admitted. -/
theorem fractions_truncated (reported : Oid) (config : Config) :
    (∀ x, Cell.Truncates ⟨reported, some (.float4 x), config⟩ x.toRat? (x.convert .double).plain) ∧
      (∀ x, Cell.Truncates ⟨reported, some (.float8 x), config⟩ x.toRat? x.plain) ∧
      (∀ d, Cell.Truncates ⟨reported, some (.numeric d), config⟩ (some d.toRat) d.text) ∧
      ∀ x : Binary.Double,
        (Integer.beyondLong x = false ↔ ∃ r ∈ x.toRat?, Width.long.Holds (towardZero r)) ∧
          (Integer.beyondLong x = false →
            ∀ r ∈ x.toRat?, (Integer.saturate .long x.trunc).val = towardZero r) := by
  refine ⟨fun x => ?_, fun x => ?_, fun d => ?_, fun x => ⟨Integer.beyondLong_eq_false_iff, ?_⟩⟩
  · rw [← Binary.toRat?_convert_double x]
    exact Scalar.truncates_of_ofDouble (fun _ => rfl) reported
  · exact Scalar.truncates_of_ofDouble (fun _ => rfl) reported
  · have hRead : ∀ w, (Scalar.numeric d).getIntegral config w =
        Integer.checked w d.text (Integer.truncate d.toRat) :=
      fun w => Integer.ofDecimal_eq_checked w d
    exact Scalar.truncates_of_checked hRead reported
  · intro hWithin r hr
    obtain ⟨s, hs, hHolds⟩ := Integer.beyondLong_eq_false_iff.mp hWithin
    obtain rfl : r = s := Option.some.inj (hr.symm.trans hs)
    exact Integer.saturate_trunc hr hHolds

end ScalarCell
