import ScalarCell.Cell
import ScalarCell.Proofs.Decimal.Rounding
import ScalarCell.Proofs.Text.Blank

/-!
# The text of a decimal

The text of a decimal is a numeral that fits, so it reads back as the decimal, and a zero loses its
sign on the way (`readPlain?_text`). Its integer part is the same before and after, and so are the
texts that an overflow shows: reading an integer from the text is converting the decimal
(`ofText_text`). `text_transfer` puts both into terms of cells.
-/

namespace ScalarCell.Decimal

open Numeral

/-- The decimal without the sign of a zero. -/
def unsignedZero (d : Decimal) : Decimal := { d with negative := d.negative && d.mantissa != 0 }

variable (d : Decimal)

theorem unsignedZero_of_ne {d : Decimal} (hNonzero : d.mantissa ≠ 0) : d.unsignedZero = d := by
  simp only [unsignedZero, bne_iff_ne.mpr hNonzero, Bool.and_true]

theorem text_eq : d.text = (if d.negative then ['-'] else []) ++
    (d.scaled.wholePart ++ pointed d.scaled.fractionPart) := by
  rw [text, Scaled.plain_eq]

theorem exponent_scaled_toNat : d.scaled.exponent.toNat = 0 := by
  simp only [scaled]
  omega

theorem value_parts_scaled : value (d.scaled.wholePart ++ d.scaled.fractionPart) = d.mantissa := by
  rw [Scaled.value_parts, exponent_scaled_toNat, pow_zero, mul_one]
  rfl

theorem length_fraction_scaled : d.scaled.fractionPart.length = d.scale := by
  rw [Scaled.length_fractionPart]
  simp only [scaled]
  omega

theorem isBlank_of_mem_text {c : Char} (h : c ∈ d.text) : Text.isBlank c = false :=
  (List.mem_append.mp h).elim Text.isBlank_of_mem_sign Text.isBlank_of_mem_plain

/-! ## Read as a decimal -/

/-- The mantissa and the scale stay, and so does the sign unless the decimal is zero. -/
theorem readPlain?_text : readPlain? d.text = some d.unsignedZero := by
  let x := Positional.ofScaled d.negative d.scaled
  have hText : x.text = d.text := Positional.text_ofScaled _ _
  have hRun : value x.run = d.mantissa := by
    rw [Positional.value_run_ofScaled, exponent_scaled_toNat, pow_zero, mul_one]
    rfl
  have hLength : x.fraction.length = d.scale := by
    rw [Positional.fraction_ofScaled, length_fraction_scaled]
  have hRounded := Positional.rounded?_of_fits (hRun.trans_lt d.mantissa_lt)
    (hLength.trans_le d.scale_le)
  rw [hRun, hLength] at hRounded
  rw [← hText, readPlain?_positional, hRounded, Option.bind_some, Positional.negative_ofScaled,
    ofParts?, dif_pos ⟨d.mantissa_lt, d.scale_le⟩]
  rfl

theorem read?_text : read? d.text = some d.unsignedZero := by
  rw [read?, readPlain?_text]

theorem truncate_unsignedZero : d.unsignedZero.truncate = d.truncate := by
  by_cases hZero : d.mantissa = 0
  · simp only [truncate, unsignedZero, hZero, Nat.zero_div, applySign, Nat.cast_zero, neg_zero,
      ite_self]
  · rw [unsignedZero_of_ne hZero]

/-! ## Read as an integer -/

/-- Only without a fraction is the text one of a whole number. -/
theorem readInt?_text : readInt? d.text = if d.scale = 0 then some d.truncate else none := by
  have hSplit : splitSign d.text =
      (d.negative, d.scaled.wholePart ++ pointed d.scaled.fractionPart) := by
    rw [text_eq]
    cases d.negative with
    | true => rfl
    | false => exact splitSign_of_isRun_append d.scaled.isRun_wholePart _
  have hLength := d.length_fraction_scaled
  rw [readInt?, hSplit]
  dsimp only
  by_cases hScale : d.scale = 0
  · have hNil : d.scaled.fractionPart = [] := List.eq_nil_of_length_eq_zero (hLength.trans hScale)
    have hValue : value d.scaled.wholePart = d.mantissa := by
      have hParts := d.value_parts_scaled
      rwa [hNil, List.append_nil] at hParts
    have hPointed : pointed [] = [] := rfl
    have hUnit : Nat.pow 10 0 = 1 := rfl
    rw [if_pos hScale, hNil, hPointed, List.append_nil, d.scaled.isRun_wholePart, if_pos rfl,
      hValue, truncate, hScale, hUnit, Nat.div_one]
  · have hPoint : '.' ∈ d.scaled.wholePart ++ pointed d.scaled.fractionPart := by
      rw [pointed, if_neg]
      · exact List.mem_append_right _ List.mem_cons_self
      · rw [List.isEmpty_iff, ← List.length_eq_zero_iff, hLength]
        exact hScale
    have hNotRun : isRun (d.scaled.wholePart ++ pointed d.scaled.fractionPart) = false := by
      rw [← Bool.not_eq_true, isRun_iff]
      rintro ⟨-, hDigits⟩
      cases hDigits '.' hPoint
    rw [if_neg hScale, hNotRun]
    rfl

theorem ofText_text (w : Width) : Integer.ofText w d.text = Integer.ofDecimal w d := by
  rw [Integer.ofText, readInt?_text]
  split
  · next i hi =>
    have hLong : Integer.ofInt? .long d.truncate = some i := by
      split at hi
      · exact hi
      · cases hi
    rw [Integer.ofDecimal, Integer.checkedWithinLong, hLong]
  · rw [read?_text]
    dsimp only
    rw [truncate_unsignedZero, Integer.ofDecimal]

/-! ## Cells -/

/-- A decimal that arrives as its text is the same number: to every integral width, failures
included, and as a decimal down to scale and sign, except for the sign of a zero. -/
theorem text_transfer (reported other : Oid) (config : Config) :
    let native : Cell := ⟨reported, some (.numeric d), config⟩
    let written : Cell := ⟨other, some (.text (Scalar.numeric d).toText), config⟩
    native.get .string = .ok (.present (Scalar.numeric d).toText) ∧
      (∀ w, written.get (.integral w) = native.get (.integral w)) ∧
      native.get .decimal = .ok (.present d) ∧
      written.get .decimal =
        .ok (.present { d with negative := d.negative && d.mantissa != 0 }) := by
  intro native written
  have hText : ∀ c : Config, Scalar.numericText c (Scalar.numeric d).toText = d.text := by
    intro c
    exact Scalar.numericText_ofList c fun _ => d.isBlank_of_mem_text
  refine ⟨rfl, ?_, rfl, ?_⟩
  · intro w
    simp only [written, native, Cell.get, Scalar.get, Scalar.getIntegral, hText, ofText_text]
  · simp only [written, Cell.get, Scalar.get, Scalar.getDecimal, hText, ofText, read?_text]
    rfl

end ScalarCell.Decimal
