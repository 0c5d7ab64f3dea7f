import ScalarCell.Proofs.Conversion.Literal
import ScalarCell.Proofs.Numeral.Written

/-!
# Truth values of written numbers

Under the lenient policy every written number has a truth value, and `lenient_truthOfText_written` says
which: the number counts as the double that it reads as, so it is false up to half of the least
double. `numeral_truth_iff` sets this beside the number itself. The two part only on numbers too
small for a double, such as the one of `tiny_numeral_false`.
-/

namespace ScalarCell.Policy

open Numeral

variable {s : String} {w : Written}

theorem lenient_truthOfText_written (hText : (Text.trim s).toList = w.text) :
    lenient.truthOfText s = .ok (decide (2 ^ (-1075 : ℤ) < w.magnitude)) := by
  have hLiteral : Literal.read? (Text.trim s).toList = some _ := hText ▸ Literal.read?_written w
  rw [lenient_truthOfText_of_literal hLiteral, Literal.magnitude_written]
  exact lenient_truthOfDouble_nearest w.negative w.magnitude_nonneg

/-- A written number counts as false exactly if it is at most half of the least double. So its truth
value is whether it differs from zero, unless it is that small without being zero. -/
theorem numeral_truth_iff (hText : (Text.trim s).toList = w.text) :
    let truth := lenient.truthOfText s
    truth = .ok (decide (2 ^ (-1075 : ℤ) < |w.toRat|)) ∧
      (((truth = .ok false ↔ w.toRat = 0) ∧ (truth = .ok true ↔ w.toRat ≠ 0)) ↔
        ¬(0 < |w.toRat| ∧ |w.toRat| ≤ 2 ^ (-1075 : ℤ))) := by
  intro truth
  have hTruth : truth = .ok (decide (2 ^ (-1075 : ℤ) < |w.toRat|)) := by
    rw [w.abs_toRat]
    exact lenient_truthOfText_written hText
  refine ⟨hTruth, ?_⟩
  have hPos : (0 : ℚ) < 2 ^ (-1075 : ℤ) := by positivity
  have hNonzero : 2 ^ (-1075 : ℤ) < |w.toRat| → w.toRat ≠ 0 :=
    fun h => abs_pos.mp (hPos.trans h)
  rw [hTruth, Except.ok.injEq, Except.ok.injEq, decide_eq_false_iff_not, decide_eq_true_iff,
    abs_pos, not_lt]
  constructor
  · rintro ⟨hFalse, -⟩ ⟨hSome, hSmall⟩
    exact hSome (hFalse.mp hSmall)
  · intro hApart
    have hLarge : w.toRat ≠ 0 → 2 ^ (-1075 : ℤ) < |w.toRat| :=
      fun hSome => not_le.mp fun hSmall => hApart ⟨hSome, hSmall⟩
    refine ⟨⟨fun hSmall => ?_, fun hZero => ?_⟩, hNonzero, hLarge⟩
    · by_contra hSome
      exact absurd (hLarge hSome) (not_lt.mpr hSmall)
    · rw [hZero, abs_zero]
      exact hPos.le

/-- Three thousandths between blanks, with a bare point and a signed exponent. -/
theorem numeral_truth_of_padded :
    let w : Written := .scientific
      ⟨⟨.minus, ['3'], some [], by decide⟩, 'E', .minus, "03".toList, by decide, by decide⟩
    (Text.trim " -3.E-03\t").toList = w.text ∧ w.toRat ≠ 0 ∧
      lenient.truthOfText " -3.E-03\t" = .ok true := by
  intro w
  have hText : (Text.trim " -3.E-03\t").toList = w.text := by decide
  have hLarge : 2 ^ (-1075 : ℤ) < |w.toRat| := by decide +kernel
  have hSome : w.toRat ≠ 0 := by decide +kernel
  obtain ⟨-, hExact⟩ := numeral_truth_iff hText
  exact ⟨hText, hSome, (hExact.mpr fun h => absurd hLarge (not_lt.mpr h.2)).2.mpr hSome⟩

/-- A number that is not zero, and false. -/
theorem tiny_numeral_false :
    let w : Written := .scientific
      ⟨⟨.none, ['1'], none, by decide⟩, 'e', .minus, "400".toList, by decide, by decide⟩
    (Text.trim "1e-400").toList = w.text ∧ w.toRat ≠ 0 ∧
      lenient.truthOfText "1e-400" = .ok false := by
  decide +kernel

end ScalarCell.Policy
