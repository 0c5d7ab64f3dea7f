import ScalarCell.Proofs.Binary.Single
import ScalarCell.Proofs.Integer.Text

/-!
# Integers read as singles

An integer is rounded to a single at once, and its text by way of a double. Up to `2 ^ 53` it is a
double itself (`exists_double_natCast`), so both ways lead to the same single. Beyond, they part on the
integers that lie off the middle between two singles by so little that the double is the middle
(`long_float_transfer_iff`); `long_lost_in_text` is one of them.
-/

namespace ScalarCell

open Numeral

namespace Binary

theorem exists_double_natCast {k : ℕ} (h : k ≤ 2 ^ 53) : ∃ d : Finite .double, d.magnitude = k := by
  rcases h.lt_or_eq with hLess | rfl
  · obtain ⟨d, -, hd⟩ := exists_magnitude_eq (F := .double) false (q := 0) hLess (by decide) (by decide)
    exact ⟨d, by rw [hd, zpow_zero, mul_one]⟩
  · obtain ⟨d, -, hd⟩ :=
      exists_magnitude_eq (F := .double) false (n := 1) (q := 53) (by decide) (by decide) (by decide)
    refine ⟨d, ?_⟩
    rw [hd]
    norm_num

/-- Below full precision no integer but zero rounds to a single, so none rounds to an odd mantissa. -/
theorem Finite.full_of_covers_natCast {x : Finite .single} {k : ℕ} (hCovers : x.Covers k)
    (hOdd : x.mantissa % 2 = 1) : Format.single.fullMantissa ≤ x.mantissa := by
  refine x.full_or_least.resolve_right fun hLeast => ?_
  have hSmall : (k : ℚ) < 1 := by
    have hMantissa : (x.mantissa : ℚ) + 1 ≤ 2 ^ 24 := by exact_mod_cast x.mantissa_lt
    have hHigh := hCovers.2.1
    have hStep : (2 : ℚ) ^ Format.single.minExponent ≤ 2 ^ (-25 : ℤ) :=
      zpow_le_zpow_right₀ one_le_two (by decide)
    rw [high, hLeast] at hHigh
    calc (k : ℚ) ≤ (x.mantissa + 1 / 2) * 2 ^ Format.single.minExponent := hHigh
      _ ≤ (x.mantissa + 1 / 2) * 2 ^ (-25 : ℤ) := by gcongr
      _ ≤ 2 ^ 24 * 2 ^ (-25 : ℤ) := by gcongr; linarith
      _ < 1 := by norm_num
  have hZero : k = 0 := Nat.lt_one_iff.mp (by exact_mod_cast hSmall)
  rw [hZero, Nat.cast_zero, covers_zero_iff] at hCovers
  omega

theorem Finite.lostAt_natCast_iff {x : Finite .single} {k : ℕ} (hCovers : x.Covers k) :
    x.LostAt k ↔ x.mantissa % 2 = 1 ∧ x.NearEnd k := by
  by_cases hOdd : x.mantissa % 2 = 1
  · exact x.lostAt_iff_of_full k.cast_nonneg hCovers (full_of_covers_natCast hCovers hOdd)
  · exact iff_of_false (fun hLost => hOdd hLost.1) fun hNear => hOdd hNear.1

theorem exists_ofInt_single (n : Integer .long) :
    ∃ x : Finite .single, ofInt .single n.val = .finite x ∧ x.negative = decide (n.val < 0) ∧
      x.Covers n.val.natAbs := by
  have hRange : n.val.natAbs ≤ 2 ^ 63 := by
    have hInRange := n.inRange
    simp only [Width.Holds, Width.bound] at hInRange
    omega
  have hNonneg : (0 : ℚ) ≤ n.val.natAbs := Nat.cast_nonneg _
  rcases nearest_finite_or_infinity (F := .single) (decide (n.val < 0)) n.val.natAbs with
    ⟨x, hSign, hFinite⟩ | hInfinity
  · exact ⟨x, hFinite, hSign, ((nearest_eq_finite_iff hNonneg).mp hFinite).2⟩
  · have hOverflow := ((nearest_eq_infinity_iff hNonneg).mp hInfinity).2
    have hLarge : (2 : ℚ) ^ 63 < Format.single.overflow := by
      norm_num [Format.overflow, Format.single, Format.mantissaBound]
    have hBound : (n.val.natAbs : ℚ) ≤ 2 ^ 63 := by exact_mod_cast hRange
    exact absurd hOverflow (not_le.mpr (hBound.trans_lt hLarge))

theorem singleOfText_intText (n : ℤ) :
    singleOfText (intText n) = .ok (convert .single (ofInt .double n)) := by
  rw [singleOfText, doubleOfText, read?_intText]
  rfl

end Binary

open Binary

/-- An `int8` that arrives as its text is the same single as natively, the nearest one to the integer,
unless that has an odd mantissa and the integer is so near to an end of its interval that the nearest
double is the end. No integer up to `2 ^ 53` is. -/
theorem long_float_transfer_iff (n : Integer .long) (reported other : Oid) (config : Config) :
    let native : Cell := ⟨reported, some (.int8 n), config⟩
    let written : Cell := ⟨other, some (.text (Scalar.int8 n).toText), config⟩
    native.get .string = .ok (.present (Scalar.int8 n).toText) ∧
      ∃ (x : Finite .single) (y : Single), native.get .float = .ok (.present (.finite x)) ∧
        written.get .float = .ok (.present y) ∧
        x.negative = decide (n.val < 0) ∧ x.Covers n.val.natAbs ∧
        (y = .finite x ↔ ¬(x.mantissa % 2 = 1 ∧ x.NearEnd n.val.natAbs)) ∧
        (n.val.natAbs ≤ 2 ^ 53 → y = .finite x) := by
  intro native written
  obtain ⟨x, hNative, hSign, hCovers⟩ := exists_ofInt_single n
  have hNonneg : (0 : ℚ) ≤ n.val.natAbs := Nat.cast_nonneg _
  have hText : Scalar.numericText config (Scalar.int8 n).toText = intText n.val :=
    Scalar.numericText_ofList config fun _ => isBlank_of_mem_intText
  have hKept : convert .single (ofInt .double n.val) = .finite x ↔ ¬x.LostAt n.val.natAbs := by
    rw [ofInt, ← hSign]
    exact x.convert_nearest_iff hNonneg hCovers
  refine ⟨rfl, x, convert .single (ofInt .double n.val), ?_, ?_, hSign, hCovers, ?_, fun hFew => ?_⟩
  · exact Cell.get_eq_present_iff.mpr (congrArg Except.ok hNative)
  · refine Cell.get_eq_present_iff.mpr ?_
    rw [Scalar.get, Scalar.getFloat, hText]
    exact singleOfText_intText n.val
  · rw [hKept, Finite.lostAt_natCast_iff hCovers]
  · obtain ⟨d, hd⟩ := exists_double_natCast hFew
    rw [hKept, ← hd]
    exact x.not_lostAt_magnitude d (hd.symm ▸ hCovers)

/-- Up to the bound the text says the same single, a power of two here. -/
theorem long_float_transfer_at_bound :
    let n : Integer .long := ⟨9007199254740992, by decide⟩
    let native : Cell := ⟨.int8, some (.int8 n), .default⟩
    let written : Cell := ⟨.text, some (.text (Scalar.int8 n).toText), .default⟩
    n.val.natAbs ≤ 2 ^ 53 ∧ written.get .float = native.get .float := by
  intro n native written
  have hFew : n.val.natAbs ≤ 2 ^ 53 := by decide
  obtain ⟨-, x, y, hNative, hWritten, -, -, -, hSame⟩ :=
    long_float_transfer_iff n .int8 .text .default
  refine ⟨hFew, ?_⟩
  rw [hSame hFew] at hWritten
  exact hWritten.trans hNative.symm

/-- One off the middle between two singles, which is the nearest double. -/
theorem long_lost_in_text :
    let n : Integer .long := ⟨9007199791611905, by decide⟩
    let native : Cell := ⟨.int8, some (.int8 n), .default⟩
    let written : Cell := ⟨.text, some (.text (Scalar.int8 n).toText), .default⟩
    native.get .float = .ok (.present (ofBits .single 0x5a000001)) ∧
      written.get .float = .ok (.present (ofBits .single 0x5a000000)) ∧
      written.get .float ≠ native.get .float := by
  decide +kernel

end ScalarCell
