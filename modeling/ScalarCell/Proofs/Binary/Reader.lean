import ScalarCell.Binary.Reader
import ScalarCell.Proofs.Binary.Interval
import ScalarCell.Proofs.Numeral.Literal
import ScalarCell.Proofs.Numeral.Magnitude

/-!
# Reading literals

A literal is no word for an infinity or NaN (`readWord?_of_literal`), and the powers of ten that are
not worked out round to what they stand for (`nearestScaled_eq`). So the number read is the nearest
one to what the literal denotes (`read?_of_literal`), and for a number with all its places written the
nearest one to that number (`read?_plain`).
-/

namespace ScalarCell.Binary

open Numeral

/-! ## Powers of ten out of range -/

section

variable {F : Format} [F.Proper]

theorem overflow_le_pow {e : ℤ} (h : F.maxExponent + F.precision ≤ e) : F.overflow ≤ 10 ^ e := by
  have hMax := Format.Proper.le_maxExponent (F := F)
  obtain ⟨n, hn⟩ := Int.eq_ofNat_of_zero_le (by omega : 0 ≤ e)
  have hStep : (0 : ℚ) < 2 ^ F.maxExponent := by positivity
  have hTwo : F.overflow ≤ 2 ^ e := by
    have hPower : (F.mantissaBound : ℚ) * 2 ^ F.maxExponent ≤ 2 ^ e := by
      rw [F.mantissaBound_zpow, ← zpow_add₀ two_ne_zero]
      exact zpow_le_zpow_right₀ one_le_two (by omega)
    unfold Format.overflow
    linarith
  rw [hn, zpow_natCast] at hTwo ⊢
  exact hTwo.trans (pow_le_pow_left₀ zero_le_two (by norm_num) n)

theorem nearest_of_lt_pow (negative : Bool) {y : ℚ} {e : ℤ} (hy : 0 ≤ y) (hLess : y < 10 ^ (e + 1))
    (hSmall : e + 1 < F.minExponent) : nearest F negative y = zero F negative := by
  have hMin := Format.Proper.minExponent_le (F := F)
  obtain ⟨n, hn⟩ := Int.eq_ofNat_of_zero_le (by omega : 0 ≤ -(F.minExponent - 1))
  have hLeast : F.minExponent - 1 = -n := by omega
  have hTen : (10 : ℚ) ^ (e + 1) ≤ 10 ^ (F.minExponent - 1) :=
    zpow_le_zpow_right₀ (by norm_num) (by omega)
  have hTwo : (10 : ℚ) ^ (F.minExponent - 1) ≤ 2 ^ (F.minExponent - 1) := by
    rw [hLeast, zpow_neg, zpow_neg, zpow_natCast, zpow_natCast]
    exact inv_anti₀ (by positivity) (pow_le_pow_left₀ zero_le_two (by norm_num) n)
  exact nearest_eq_zero negative hy (hLess.le.trans (hTen.trans hTwo))

/-- Leaving powers of ten out of account changes nothing. -/
theorem nearestScaled_eq (negative : Bool) (c : Scaled) :
    nearestScaled F negative c = nearest F negative c.magnitude := by
  unfold nearestScaled
  split
  · next hZero =>
    rw [Scaled.magnitude, hZero, Nat.cast_zero, zero_mul]
    rfl
  · next hNonzero =>
    split
    · next hLarge =>
      have hOverflow := (overflow_le_pow hLarge).trans (c.pow_le_magnitude hNonzero)
      exact ((nearest_eq_infinity_iff c.magnitude_nonneg).mpr ⟨rfl, hOverflow⟩).symm
    · split
      · next hSmall =>
        exact (nearest_of_lt_pow negative c.magnitude_nonneg c.magnitude_lt_pow hSmall).symm
      · rfl

end

/-! ## Words -/

/-- A literal begins with a digit or a point. -/
theorem head_of_literal {cs : List Char} {x : Literal} (h : Literal.read? cs = some x) :
    ∃ c rest, (splitSign cs).2 = c :: rest ∧ (c.isDigit = true ∨ c = '.') := by
  unfold Literal.read? at h
  generalize splitSign cs = parts at *
  dsimp only at h
  split at h
  · cases h
  · next hSome =>
    cases hBody : parts.2 with
    | nil =>
      rw [hBody] at hSome
      exact absurd rfl hSome
    | cons c rest =>
      refine ⟨c, rest, rfl, ?_⟩
      by_contra hOther
      obtain ⟨hDigit, hPoint⟩ := not_or.mp hOther
      have hNoFraction : Literal.splitFraction (c :: rest) = ([], c :: rest) := by
        unfold Literal.splitFraction
        split
        · next hHead => exact absurd (List.cons.inj hHead).1 hPoint
        · rfl
      rw [hBody, List.takeWhile_cons_of_neg hDigit, List.dropWhile_cons_of_neg hDigit,
        hNoFraction] at hSome
      exact hSome rfl

theorem sameLetters_cons_of_ne {c d : Char} (h : c.toLower ≠ d.toLower) (cs ds : List Char) :
    Text.sameLetters (c :: cs) (d :: ds) = false := by
  simp [Text.sameLetters, h]

variable (F : Format)

theorem readWord?_of_literal {cs : List Char} {x : Literal} (h : Literal.read? cs = some x)
    (negative : Bool) : readWord? F negative (splitSign cs).2 = none := by
  obtain ⟨c, rest, hBody, hHead⟩ := head_of_literal h
  have hLower : c.toLower = c := by
    rcases hHead with hDigit | rfl
    · exact toLower_of_not_isAlpha (isAlpha_of_isDigit hDigit)
    · rfl
  have hNoLetter : c ≠ 'i' ∧ c ≠ 'n' := by
    rcases hHead with hDigit | rfl
    · constructor <;> rintro rfl <;> cases hDigit
    · decide
  have hInfinite : c.toLower ≠ Char.toLower 'i' := hLower.symm ▸ hNoLetter.1
  have hNaN : c.toLower ≠ Char.toLower 'n' := hLower.symm ▸ hNoLetter.2
  have hShort : "inf".toList = 'i' :: "nf".toList := rfl
  have hLong : "infinity".toList = 'i' :: "nfinity".toList := rfl
  have hOther : "nan".toList = 'n' :: "an".toList := rfl
  rw [readWord?, hBody, hShort, hLong, hOther, sameLetters_cons_of_ne hInfinite,
    sameLetters_cons_of_ne hInfinite, sameLetters_cons_of_ne hNaN]
  rfl

/-- What is read of a literal is the nearest number to what it denotes. -/
theorem read?_of_literal [F.Proper] {cs : List Char} {x : Literal}
    (h : Literal.read? cs = some x) :
    read? F cs = some (nearest F x.negative x.scaled.magnitude) := by
  rw [read?]
  dsimp only
  rw [readWord?_of_literal F h, h]
  dsimp only
  rw [Option.map_some, nearestScaled_eq]

theorem read?_plain [F.Proper] (negative : Bool) (c : Scaled) :
    read? F ((if negative then ['-'] else []) ++ c.plain) = some (nearest F negative c.magnitude) := by
  rw [read?_of_literal F (Literal.read?_plain negative c), Literal.magnitude_plain]

end ScalarCell.Binary
