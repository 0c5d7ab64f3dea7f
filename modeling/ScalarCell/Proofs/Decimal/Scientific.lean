import Mathlib.Algebra.Order.Floor.Semifield
import ScalarCell.Proofs.Decimal.Places

/-!
# Numbers with an exponent as decimals

No state of the plain reader gets past an exponent mark, so a number with an exponent is read in two
parts, the digits in front of the mark as a decimal and the exponent behind it (`exists_read?_text`).
If the digits fit a decimal as they stand, moving the point gives the number itself, rounded to the
places that a scale allows (`exists_shiftLeft?`, `exists_shiftRight?`). `ofText_scientific` is the
whole outcome, failures included.
-/

namespace ScalarCell

open Decimal (mantissaBound maxScale maxExponent roundedTo)

namespace Numeral

/-- A number with an exponent, the way it is written. -/
structure Scientific where
  /-- What stands in front of the exponent mark. -/
  base : Positional
  mark : Char
  sign : Sign
  /-- The digits of the exponent. -/
  places : List Char
  isMark : Decimal.isExponentMark mark = true
  isRun_places : isRun places = true

namespace Scientific

variable (x : Scientific)

def text : List Char := x.base.text ++ x.mark :: (x.sign.text ++ x.places)

def exponent : ℤ := applySign x.sign.isMinus (value x.places)

def toRat : ℚ := x.base.toRat * 10 ^ x.exponent

theorem mark_eq : x.mark = 'e' ∨ x.mark = 'E' :=
  (Bool.or_eq_true_iff.mp x.isMark).imp eq_of_beq eq_of_beq

theorem mem_sign {c : Char} {sign : Sign} (h : c ∈ sign.text) : c = '+' ∨ c = '-' := by
  cases sign with
  | none => cases h
  | plus => exact Or.inl (List.mem_singleton.mp h)
  | minus => exact Or.inr (List.mem_singleton.mp h)

end Scientific

end Numeral

open Numeral

/-! ## Moving the point -/

namespace Decimal

variable (d : Decimal) (n : ℕ)

theorem divideHalfUp_eq_floor (m den : ℕ) (hDen : 0 < den) :
    divideHalfUp m den = ⌊(m : ℚ) / den + 1 / 2⌋₊ := by
  have hDenRat : (den : ℚ) ≠ 0 := by exact_mod_cast hDen.ne'
  have hQuotient : (m : ℚ) / den + 1 / 2 = (2 * m + den : ℕ) / (2 * den : ℕ) := by
    push_cast
    field_simp
  rw [hQuotient, Nat.floor_div_eq_div, divideHalfUp]

theorem divideHalfUp_le (m den : ℕ) (hDen : 0 < den) : divideHalfUp m den ≤ m := by
  have hOne : (1 : ℚ) ≤ den := by exact_mod_cast hDen
  have hBelow : (m : ℚ) / den + 1 / 2 < (m + 1 : ℕ) := by
    have hLess : (m : ℚ) / den ≤ m := div_le_self (Nat.cast_nonneg m) hOne
    push_cast
    linarith
  rw [divideHalfUp_eq_floor m den hDen]
  exact Nat.lt_succ_iff.mp ((Nat.floor_lt (by positivity)).mpr hBelow)

/-- To the left the point can always be moved, and what does not fit the scale rounds. -/
theorem exists_shiftLeft? : ∃ e, d.shiftLeft? n = some e ∧
    e.toRat = roundedTo maxScale (d.toRat * 10 ^ (-(n : ℤ))) := by
  have hMoved : (d.mantissa : ℚ) / 10 ^ d.scale * 10 ^ (-(n : ℤ)) =
      d.mantissa / 10 ^ (d.scale + n) := by
    rw [zpow_neg, zpow_natCast, pow_add, ← div_eq_mul_inv, div_div]
  rw [toRat_eq, ite_mul, neg_mul, hMoved, shiftLeft?]
  split
  · next hRoom =>
    obtain ⟨e, he, hValue⟩ := exists_ofParts? d.negative d.mantissa_lt hRoom
    exact ⟨e, he, by rw [← hValue, roundedTo_toRat]⟩
  · next hFull =>
    -- The digits pushed past the last place are those below this unit.
    obtain ⟨k, hk⟩ : ∃ k, d.scale + n = maxScale + k := ⟨d.scale + n - maxScale, by omega⟩
    have hUnit : 0 < 10 ^ k := by positivity
    have hUnits : (d.mantissa : ℚ) / 10 ^ (maxScale + k) * 10 ^ maxScale =
        d.mantissa / (10 ^ k : ℕ) := by
      push_cast
      rw [pow_add]
      field_simp
    have hFits := (divideHalfUp_le d.mantissa _ hUnit).trans_lt d.mantissa_lt
    obtain ⟨e, he, hValue⟩ := exists_ofParts? d.negative hFits le_rfl
    rw [hk, Nat.add_sub_cancel_left]
    refine ⟨e, he, ?_⟩
    rw [hValue, roundedTo_signed _ _ (by positivity), hUnits, divideHalfUp_eq_floor _ _ hUnit]

/-- To the right the point can be moved as long as the whole number fits. -/
theorem exists_shiftRight? (hFits : d.mantissa * 10 ^ (n - d.scale) < mantissaBound) :
    ∃ e, d.shiftRight? n = some e ∧ e.toRat = d.toRat * 10 ^ (n : ℤ) := by
  rw [toRat_eq, ite_mul, neg_mul, zpow_natCast, shiftRight?]
  split
  · next hPlaces =>
    obtain ⟨k, hk⟩ := Nat.exists_eq_add_of_le hPlaces
    have hScale : k ≤ maxScale := (Nat.le_add_left k n).trans (hk.symm.trans_le d.scale_le)
    have hMoved : (d.mantissa : ℚ) / 10 ^ d.scale * 10 ^ n = d.mantissa / 10 ^ k := by
      rw [hk, pow_add]
      field_simp
    obtain ⟨e, he, hValue⟩ := exists_ofParts? d.negative d.mantissa_lt hScale
    rw [hMoved, hk, Nat.add_sub_cancel_left]
    exact ⟨e, he, hValue⟩
  · next hPlaces =>
    obtain ⟨k, hk⟩ := Nat.exists_eq_add_of_le (not_le.mp hPlaces).le
    have hMoved : (d.mantissa : ℚ) / 10 ^ d.scale * 10 ^ n = (d.mantissa * 10 ^ k : ℕ) / 10 ^ 0 := by
      rw [hk, pow_add]
      push_cast
      field_simp
    rw [hk, Nat.add_sub_cancel_left] at hFits
    obtain ⟨e, he, hValue⟩ := exists_ofParts? d.negative hFits (Nat.zero_le maxScale)
    rw [hMoved, hk, Nat.add_sub_cancel_left]
    exact ⟨e, he, hValue⟩

theorem shiftRight?_eq_none (hTooLarge : mantissaBound ≤ d.mantissa * 10 ^ (n - d.scale)) :
    d.shiftRight? n = none := by
  have hPlaces : ¬n ≤ d.scale := by
    intro hLess
    rw [Nat.sub_eq_zero_of_le hLess, pow_zero, mul_one] at hTooLarge
    exact absurd d.mantissa_lt (not_lt.mpr hTooLarge)
  rw [shiftRight?, if_neg hPlaces]
  exact dif_neg fun h => absurd h.1 (not_lt.mpr hTooLarge)

end Decimal

/-! ## The reader -/

namespace Decimal

variable (x : Scientific)

theorem mark_mem_splitSign : x.mark ∈ (splitSign x.text).2 := by
  obtain ⟨sign, rest, hText, hSplit⟩ := Sign.exists_splitSign x.text
  have hMark : x.mark ∈ sign.text ++ rest :=
    hText ▸ List.mem_append_right _ List.mem_cons_self
  rw [hSplit]
  refine (List.mem_append.mp hMark).resolve_left fun hSign => ?_
  rcases Scientific.mem_sign hSign with hPlus | hMinus
  · rcases x.mark_eq with hMark | hMark <;> simp [hMark] at hPlus
  · rcases x.mark_eq with hMark | hMark <;> simp [hMark] at hMinus

theorem readPlain?_scientific : readPlain? x.text = none := by
  have hForeign : IsForeign x.mark := by
    rcases x.mark_eq with hMark | hMark <;> rw [hMark] <;> exact ⟨rfl, by decide, by decide⟩
  rw [readPlain?]
  dsimp only
  rw [gather_of_foreign hForeign (mark_mem_splitSign x), Option.bind_none]

theorem readUnsigned?_of_isRun {cs : List Char} (h : isRun cs = true) :
    readUnsigned? cs = some (value cs) := by
  unfold readUnsigned?
  split
  · cases (isRun_iff.mp h).2 '+' List.mem_cons_self
  · exact if_pos h

theorem readExponent?_of_head {cs : List Char} (h : ∀ c ∈ cs.head?, c ≠ '-') :
    readExponent? cs = (readUnsigned? cs).map (false, ·) := by
  unfold readExponent?
  split
  · exact absurd rfl (h '-' rfl)
  · rfl

theorem readExponent?_scientific :
    readExponent? (x.sign.text ++ x.places) = some (x.sign.isMinus, value x.places) := by
  have hRun := readUnsigned?_of_isRun x.isRun_places
  cases x.sign with
  | minus =>
    have hMinus : readExponent? ('-' :: x.places) = (readUnsigned? x.places).map (true, ·) := rfl
    exact hMinus.trans (congrArg (Option.map (true, ·)) hRun)
  | plus =>
    have hPlus : readUnsigned? ('+' :: x.places) = some (value x.places) := if_pos x.isRun_places
    have hHead : ∀ c ∈ ('+' :: x.places).head?, c ≠ '-' := by simp
    exact (readExponent?_of_head hHead).trans (congrArg (Option.map (false, ·)) hPlus)
  | none =>
    have hHead : ∀ c ∈ x.places.head?, c ≠ '-' := by
      rintro c hc rfl
      cases (isRun_iff.mp x.isRun_places).2 '-' (List.mem_of_mem_head? hc)
    exact (readExponent?_of_head hHead).trans (congrArg (Option.map (false, ·)) hRun)

variable {x} in
/-- The digits in front of the mark are read as they stand, and then their point is moved. -/
theorem exists_read?_scientific (hFits : value x.base.run < mantissaBound)
    (hScale : x.base.fraction.length ≤ maxScale) :
    ∃ d : Decimal, d.mantissa = value x.base.run ∧ d.scale = x.base.fraction.length ∧
      d.toRat = x.base.toRat ∧ read? x.text =
        if maxExponent < value x.places then none
        else if x.sign.isMinus then d.shiftLeft? (value x.places)
        else d.shiftRight? (value x.places) := by
  obtain ⟨d, hBase, hMantissa, hPlaces, hValue⟩ := exists_readPlain?_of_fits hFits hScale
  have hNoMark : ∀ c ∈ x.base.text, (!isExponentMark c) = true := fun c hc => by
    rw [not_isExponentMark_of_mem_text x.base hc, Bool.not_false]
  have hMark : (!isExponentMark x.mark) ≠ true := by
    rw [x.isMark]
    exact Bool.false_ne_true
  have hTake : x.text.takeWhile (!isExponentMark ·) = x.base.text := by
    rw [Scientific.text, List.takeWhile_append_of_pos hNoMark,
      List.takeWhile_cons_of_neg (p := (!isExponentMark ·)) hMark, List.append_nil]
  have hDrop : x.text.dropWhile (!isExponentMark ·) = x.mark :: (x.sign.text ++ x.places) := by
    rw [Scientific.text, List.dropWhile_append_of_pos hNoMark,
      List.dropWhile_cons_of_neg (p := (!isExponentMark ·)) hMark]
  refine ⟨d, hMantissa, hPlaces, hValue, ?_⟩
  rw [read?, readPlain?_scientific]
  dsimp only
  rw [readScientific?, hDrop, hTake, hBase]
  dsimp only
  rw [Option.bind_some, readExponent?_scientific, Option.bind_some]

/-! ## The whole outcome -/

section

variable {x} (hFits : value x.base.run < mantissaBound)
  (hScale : x.base.fraction.length ≤ maxScale)

include hFits hScale

theorem exists_ofText_scientific (hPlaces : value x.places ≤ maxExponent)
    (hWhole : 0 ≤ x.exponent →
      value x.base.run * 10 ^ (value x.places - x.base.fraction.length) < mantissaBound) :
    ∃ d, ofText x.text = .ok d ∧ d.toRat = roundedTo maxScale x.toRat := by
  obtain ⟨base, hMantissa, hBaseScale, hBase, hRead⟩ := exists_read?_scientific hFits hScale
  rw [if_neg (not_lt.mpr hPlaces)] at hRead
  rw [Scientific.toRat, ← hBase, ofText]
  rw [Scientific.exponent, applySign] at hWhole ⊢
  cases hSign : x.sign.isMinus with
  | true =>
    obtain ⟨d, hd, hValue⟩ := base.exists_shiftLeft? (value x.places)
    rw [hSign, if_pos rfl, hd] at hRead
    refine ⟨d, ?_, ?_⟩
    · rw [hRead]
    · rw [hValue, if_pos rfl]
  | false =>
    rw [hSign, if_neg Bool.false_ne_true, ← hMantissa, ← hBaseScale] at hWhole
    obtain ⟨d, hd, hValue⟩ := base.exists_shiftRight? (value x.places) (hWhole (Int.natCast_nonneg _))
    rw [hSign, if_neg Bool.false_ne_true, hd] at hRead
    refine ⟨d, ?_, ?_⟩
    · rw [hRead]
    · rw [if_neg Bool.false_ne_true, ← hValue, roundedTo_toRat]

theorem ofText_scientific_eq_error
    (h : value x.places ≤ maxExponent → 0 ≤ x.exponent ∧
      mantissaBound ≤ value x.base.run * 10 ^ (value x.places - x.base.fraction.length)) :
    ofText x.text = .error (Target.decimal.badText x.text) := by
  obtain ⟨base, hMantissa, hBaseScale, -, hRead⟩ := exists_read?_scientific hFits hScale
  suffices hNone : read? x.text = none by rw [ofText, hNone]
  by_cases hPlaces : value x.places ≤ maxExponent
  · obtain ⟨hExponent, hTooLarge⟩ := h hPlaces
    rw [Scientific.exponent, applySign] at hExponent
    rw [if_neg (not_lt.mpr hPlaces)] at hRead
    cases hSign : x.sign.isMinus with
    | true =>
      -- The exponent is minus zero, and the digits fit without it.
      rw [hSign, if_pos rfl] at hExponent
      have hZero : value x.places = 0 := by omega
      rw [hZero, Nat.zero_sub, pow_zero, mul_one] at hTooLarge
      exact absurd hFits (not_lt.mpr hTooLarge)
    | false =>
      rw [← hMantissa, ← hBaseScale] at hTooLarge
      rw [hRead, hSign, if_neg Bool.false_ne_true, shiftRight?_eq_none base _ hTooLarge]
  · rw [hRead, if_pos (not_le.mp hPlaces)]

end

end Decimal

end ScalarCell
