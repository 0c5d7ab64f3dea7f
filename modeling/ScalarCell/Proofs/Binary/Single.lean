import ScalarCell.Proofs.Binary.Text

/-!
# Singles read through doubles

A single in a text is read as a double first and then rounded again. The double stays between the
ends of the single's interval (`exists_double_between`), so the second rounding gives the single
unless the double is one of the ends and the mantissa is odd: then the tie goes to the neighbour
(`convert_nearest_iff`). With full precision that befalls what lies near to an end
(`lostAt_iff_of_full`).

`single_text_transfer_iff` says in terms of cells which singles survive as text, and
`single_lost_in_text` is one that does not.
-/

namespace ScalarCell.Binary

open Numeral

namespace Finite

variable (x : Finite .single)

/-! ## The ends of an interval are doubles -/

/-- A double holds quarters of a single's last place. -/
theorem exists_double_quarters {n : ℕ} (hFits : n < Format.double.mantissaBound) :
    ∃ z : Finite .double, z.magnitude = n * (2 ^ x.exponent / 4) := by
  have hMin : -149 ≤ x.exponent := x.minExponent_le
  have hMax : x.exponent ≤ 104 := x.exponent_le
  have hLeast : Format.double.minExponent ≤ x.exponent - 2 := by
    change -1074 ≤ x.exponent - 2
    omega
  have hMost : x.exponent - 2 ≤ Format.double.maxExponent := by
    change x.exponent - 2 ≤ 971
    omega
  obtain ⟨z, -, hz⟩ := exists_magnitude_eq false hFits hLeast hMost
  refine ⟨z, ?_⟩
  rw [hz, zpow_sub₀ two_ne_zero]
  norm_num

theorem exists_double_high : ∃ z : Finite .double, z.magnitude = x.high := by
  have hMantissa : x.mantissa < 2 ^ 24 := x.mantissa_lt
  have hBound : Format.double.mantissaBound = 2 ^ 53 := rfl
  obtain ⟨z, hz⟩ := x.exists_double_quarters (n := 4 * x.mantissa + 2) (by omega)
  refine ⟨z, ?_⟩
  rw [hz, high]
  push_cast
  ring

theorem exists_double_low (hNonzero : x.mantissa ≠ 0) :
    ∃ z : Finite .double, z.magnitude = x.low := by
  have hMantissa : x.mantissa < 2 ^ 24 := x.mantissa_lt
  have hBound : Format.double.mantissaBound = 2 ^ 53 := rfl
  obtain ⟨k, hk⟩ := Nat.exists_eq_succ_of_ne_zero hNonzero
  unfold low
  split
  · obtain ⟨z, hz⟩ := x.exists_double_quarters (n := 4 * k + 3) (by omega)
    refine ⟨z, ?_⟩
    rw [hz, hk]
    push_cast
    ring
  · obtain ⟨z, hz⟩ := x.exists_double_quarters (n := 4 * k + 2) (by omega)
    refine ⟨z, ?_⟩
    rw [hz, hk]
    push_cast
    ring

/-- What rounds to a single rounds to a double between the ends of the single's interval. -/
theorem exists_double_between {y : ℚ} (hy : 0 ≤ y) (hCovers : x.Covers y) :
    ∃ d : Finite .double, d.negative = x.negative ∧
      nearest .double x.negative y = .finite d ∧ x.low ≤ d.magnitude ∧ d.magnitude ≤ x.high := by
  obtain ⟨high, hHigh⟩ := x.exists_double_high
  have hAbove : y ≤ high.magnitude := hHigh ▸ hCovers.2.1
  rcases nearest_finite_or_infinity (F := .double) x.negative y with ⟨d, hSign, hFinite⟩ | hInfinity
  · have hRounds := ((nearest_eq_finite_iff hy).mp hFinite).2
    refine ⟨d, hSign, hFinite, ?_, ?_⟩
    · by_cases hZero : x.mantissa = 0
      · have hLow := (covers_zero_iff.mpr hZero).1
        exact hLow.trans d.magnitude_nonneg
      · obtain ⟨low, hLow⟩ := x.exists_double_low hZero
        rw [← hLow]
        exact magnitude_le_of_covers low.magnitude_nonneg low.covers_magnitude hRounds
          (hLow ▸ hCovers.1)
    · rw [← hHigh]
      exact magnitude_le_of_covers hy hRounds high.covers_magnitude hAbove
  · have hOverflow := ((nearest_eq_infinity_iff hy).mp hInfinity).2
    exact absurd (hOverflow.trans hAbove) (not_le.mpr high.covers_magnitude.lt_overflow)

/-! ## The second rounding -/

/-- The double nearest to `y` lies halfway to a neighbour, and the tie goes to that neighbour. -/
def LostAt (y : ℚ) : Prop :=
  x.mantissa % 2 = 1 ∧ ∃ d : Finite .double,
    nearest .double x.negative y = .finite d ∧ (d.magnitude = x.low ∨ d.magnitude = x.high)

theorem lostAt_iff_of_nearest {y : ℚ} {d : Finite .double}
    (hDouble : nearest .double x.negative y = .finite d) :
    x.LostAt y ↔ x.mantissa % 2 = 1 ∧ (d.magnitude = x.low ∨ d.magnitude = x.high) := by
  refine and_congr_right fun _ => ⟨?_, fun hEnd => ⟨d, hDouble, hEnd⟩⟩
  rintro ⟨d', hDouble', hEnd⟩
  obtain rfl : d = d' := finite.inj (hDouble.symm.trans hDouble')
  exact hEnd

/-- What rounds to a single rounds to it by way of a double, too, unless it is lost there. -/
theorem convert_nearest_iff {y : ℚ} (hy : 0 ≤ y) (hCovers : x.Covers y) :
    convert .single (nearest .double x.negative y) = .finite x ↔ ¬x.LostAt y := by
  obtain ⟨d, hSign, hDouble, hLow, hHigh⟩ := x.exists_double_between hy hCovers
  rw [x.lostAt_iff_of_nearest hDouble, hDouble, convert, hSign,
    nearest_eq_finite_iff d.magnitude_nonneg, and_iff_right rfl]
  constructor
  · rintro ⟨-, -, hEnds⟩ ⟨hOdd, hEnd⟩
    have hEven := hEnds hEnd
    omega
  · intro hKept
    refine ⟨hLow, hHigh, fun hEnd => ?_⟩
    by_contra hOdd
    exact hKept ⟨by omega, hEnd⟩

/-- What is a double itself is not lost. -/
theorem not_lostAt_magnitude (d : Finite .double) (hCovers : x.Covers d.magnitude) :
    ¬x.LostAt d.magnitude := by
  rintro ⟨hOdd, e, hNearest, hEnd⟩
  have hRounds := ((nearest_eq_finite_iff d.magnitude_nonneg).mp hNearest).2
  have hSame := magnitude_eq_of_covers d.magnitude_nonneg hRounds d.covers_magnitude
  rw [hSame] at hEnd
  have hEven := hCovers.2.2 hEnd
  omega

/-- The double that the shortest digits read as lies halfway to a neighbour, and the tie goes to
that neighbour. -/
def LostInDouble : Prop := x.LostAt x.shortest.magnitude

theorem convert_shortest_iff :
    convert .single (nearest .double x.negative x.shortest.magnitude) = .finite x ↔
      ¬x.LostInDouble :=
  x.convert_nearest_iff x.shortest.magnitude_nonneg x.covers_shortest

/-! ## How near to an end -/

/-- No further from an end of the interval than half of the last place that a double keeps there. -/
def NearEnd (y : ℚ) : Prop :=
  y - x.low ≤ 2 ^ (x.exponent - 30) ∨ x.high - y ≤ 2 ^ (x.exponent - 30)

/-- Halfway between two singles of full precision is a double with an even mantissa. -/
theorem exists_double_half {b : ℕ} (hFull : Format.single.fullMantissa ≤ b)
    (hFits : b < Format.single.mantissaBound) :
    ∃ z : Finite .double, z.magnitude = (b + 1 / 2) * 2 ^ x.exponent ∧
      ∀ y, z.Covers y ↔ |y - z.magnitude| ≤ 2 ^ (x.exponent - 30) := by
  have hMin : -149 ≤ x.exponent := x.minExponent_le
  have hMax : x.exponent ≤ 104 := x.exponent_le
  have hCanonical : Format.double.Canonical ((2 * b + 1) * 2 ^ 28) (x.exponent - 29) := by
    simp only [Format.Canonical, Format.mantissaBound, Format.fullMantissa, Format.double,
      Format.single, Nat.pow_eq] at *
    omega
  let z : Finite .double := ⟨false, (2 * b + 1) * 2 ^ 28, x.exponent - 29, hCanonical⟩
  have hNotFull : z.mantissa ≠ Format.double.fullMantissa := by
    change (2 * b + 1) * 2 ^ 28 ≠ 2 ^ 52
    omega
  have hEven : z.mantissa % 2 = 0 := by
    change (2 * b + 1) * 2 ^ 28 % 2 = 0
    omega
  have hHalf : z.exponent - 1 = x.exponent - 30 := Int.sub_sub x.exponent 29 1
  refine ⟨z, ?_, fun y => hHalf ▸ covers_iff_abs_le hNotFull hEven⟩
  have hUnit : (2 : ℚ) ^ x.exponent = 2 ^ (x.exponent - 29) * 2 ^ 29 := by
    rw [← zpow_natCast, ← zpow_add₀ two_ne_zero]
    exact congrArg _ (by omega)
  have hMantissa : (z.mantissa : ℚ) = (2 * b + 1) * 2 ^ 28 := by
    exact_mod_cast (rfl : z.mantissa = (2 * b + 1) * 2 ^ 28)
  rw [magnitude, hMantissa, hUnit]
  ring

/-- With full precision, what is lost is what lies near to an end. -/
theorem lostAt_iff_of_full {y : ℚ} (hy : 0 ≤ y) (hCovers : x.Covers y)
    (hFull : Format.single.fullMantissa ≤ x.mantissa) :
    x.LostAt y ↔ x.mantissa % 2 = 1 ∧ x.NearEnd y := by
  obtain ⟨d, -, hDouble, -, -⟩ := x.exists_double_between hy hCovers
  have hRounds := ((nearest_eq_finite_iff hy).mp hDouble).2
  rw [x.lostAt_iff_of_nearest hDouble]
  refine and_congr_right fun hOdd => or_congr ?_ ?_
  · obtain ⟨b, hb⟩ : ∃ b, x.mantissa = b + 1 := ⟨x.mantissa - 1, by omega⟩
    have hBelow := x.mantissa_lt
    have hEven := Format.single.even_fullMantissa
    obtain ⟨z, hz, hNear⟩ := x.exists_double_half (b := b) (by omega) (by omega)
    have hLow : x.low = z.magnitude := by
      have hNotFull : x.mantissa ≠ Format.single.fullMantissa := by omega
      rw [low, if_neg fun h => hNotFull h.1, hz, hb]
      push_cast
      ring
    rw [hLow, hRounds.magnitude_eq_iff hy, hNear, ← hLow,
      abs_of_nonneg (sub_nonneg.mpr hCovers.1)]
  · obtain ⟨z, hz, hNear⟩ := x.exists_double_half hFull x.mantissa_lt
    have hHigh : x.high = z.magnitude := hz.symm
    rw [hHigh, hRounds.magnitude_eq_iff hy, hNear, ← hHigh, abs_sub_comm,
      abs_of_nonneg (sub_nonneg.mpr hCovers.2.1)]

end Finite

/-! ## Cells -/

theorem singleOfText_render_iff (x : Single) :
    singleOfText x.render = .ok x ↔ ∀ y, x = finite y → ¬y.LostInDouble := by
  cases x with
  | nan =>
    refine iff_of_true rfl fun y h => ?_
    cases h
  | infinity s =>
    have hRead := read?_render_infinity (F := .single) .double s
    rw [singleOfText, doubleOfText, hRead]
    refine iff_of_true rfl fun y h => ?_
    cases h
  | finite y =>
    have hText : singleOfText (finite y).render =
        .ok (convert .single (nearest .double y.negative y.shortest.magnitude)) := by
      rw [singleOfText, doubleOfText, read?_render_finite]
      rfl
    rw [hText, Except.ok.injEq, y.convert_shortest_iff]
    constructor
    · rintro hKept z ⟨⟩
      exact hKept
    · exact fun hKept => hKept y rfl

/-- A single that arrives as its text is the same number, whichever the settings, unless it is lost
in the double that is read first. -/
theorem single_text_transfer_iff (x : Single) (reported other : Oid) (config : Config) :
    let native : Cell := ⟨reported, some (.float4 x), config⟩
    let written : Cell := ⟨other, some (.text (String.ofList x.render)), config⟩
    native.get .string = .ok (.present (String.ofList x.render)) ∧
      (written.get .float = .ok (.present x) ↔ ∀ y, x = finite y → ¬y.LostInDouble) := by
  intro native written
  refine ⟨rfl, ?_⟩
  have hText := Scalar.numericText_ofList config fun _ => x.isBlank_of_mem_render
  refine Cell.get_eq_present_iff.trans ?_
  rw [Scalar.get, Scalar.getFloat, hText]
  exact singleOfText_render_iff x

/-- Bits `15ae43fd`: the digits read as the double halfway to the next single, whose mantissa is
even. -/
theorem single_lost_in_text :
    let x := ofBits .single 0x15ae43fd
    let written : Cell := ⟨.text, some (.text (String.ofList x.render)), .default⟩
    x ≠ nan ∧ x.render = "7.038531e-26".toList ∧
      written.get .float = .ok (.present (ofBits .single 0x15ae43fe)) ∧
      written.get .float ≠ .ok (.present x) := by
  decide +kernel

end ScalarCell.Binary
