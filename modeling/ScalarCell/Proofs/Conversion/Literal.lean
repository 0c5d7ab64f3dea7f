import ScalarCell.Proofs.Binary.Reader
import ScalarCell.Proofs.Conversion.Truth
import ScalarCell.Proofs.Text.Blank

/-!
# Truth values of literals

A literal begins with no letter (`Literal.exists_head`), so among the words only the digits `1` and
`0` are literals (`eq_of_isWord_of_literal`). Under the lenient policy a literal therefore has the
truth value of the double that it reads as (`lenient_truthOfText_of_literal`), which is false up to
half of the least double (`lenient_truthOfDouble_nearest`). Under the strict one it has none unless it
is one of the two digits (`strict_truthOfText_literal`).
-/

namespace ScalarCell

open Numeral

/-! ## The first character of a literal -/

theorem Numeral.Literal.exists_head {cs : List Char} {x : Literal} (h : read? cs = some x) :
    ∃ c rest, cs = c :: rest ∧ c.isAlpha = false := by
  obtain ⟨c, rest, hBody, hHead⟩ := Binary.head_of_literal h
  unfold splitSign at hBody
  split at hBody
  · exact ⟨'+', _, rfl, rfl⟩
  · exact ⟨'-', _, rfl, rfl⟩
  · refine ⟨c, rest, hBody, ?_⟩
    rcases hHead with hDigit | rfl
    · exact isAlpha_of_isDigit hDigit
    · rfl

namespace Policy

/-! ## Words -/

/-- If all words but the digit `d` begin with a letter, then no other literal is one of them. -/
theorem eq_of_isWord_of_literal {words : List String} {d : Char} (hDigit : d.toLower = d)
    (hWords : ∀ w ∈ words, w.toList = [d] ∨ (w.toList.headD d).toLower.isAlpha = true)
    {cs : List Char} {x : Literal} (hLiteral : Literal.read? cs = some x)
    (h : isWord words cs = true) : cs = [d] := by
  obtain ⟨c, rest, rfl, hHead⟩ := Literal.exists_head hLiteral
  obtain ⟨w, hMem, hSame⟩ := List.any_eq_true.mp h
  rw [Text.sameLetters, beq_iff_eq, List.map_cons, toLower_of_not_isAlpha hHead] at hSame
  rcases hWords w hMem with hWord | hLetter
  · rw [hWord, List.map_singleton, hDigit] at hSame
    obtain ⟨hFirst, hRest⟩ := List.cons.inj hSame
    rw [← hFirst, List.map_eq_nil_iff.mp hRest.symm]
  · cases hList : w.toList with
    | nil =>
      rw [hList] at hSame
      cases hSame
    | cons first later =>
      rw [hList, List.headD_cons] at hLetter
      rw [hList, List.map_cons] at hSame
      rw [(List.cons.inj hSame).1, hHead] at hLetter
      cases hLetter

section

variable {cs : List Char} {x : Literal}

theorem eq_of_trueWord (hLiteral : Literal.read? cs = some x)
    (h : isWord trueWords cs = true) : cs = ['1'] :=
  eq_of_isWord_of_literal rfl (by decide) hLiteral h

theorem eq_of_falseWord (hLiteral : Literal.read? cs = some x)
    (h : isWord falseWords cs = true) : cs = ['0'] :=
  eq_of_isWord_of_literal rfl (by decide) hLiteral h

/-- A word that is a literal says what its number says. -/
theorem lenient_truthOfText_of_literal {s : String}
    (hLiteral : Literal.read? (Text.trim s).toList = some x) :
    lenient.truthOfText s =
      lenient.truthOfDouble (Binary.nearest .double x.negative x.scaled.magnitude) := by
  have hRead := Binary.read?_of_literal .double hLiteral
  by_cases hTrue : isWord trueWords (Text.trim s).toList = true
  · rw [truthOfText_of_trueWord hTrue]
    have hOne : (Binary.read? .double ['1']).map lenient.truthOfDouble = some (.ok true) := by
      decide +kernel
    rw [← eq_of_trueWord hLiteral hTrue, hRead, Option.map_some] at hOne
    exact (Option.some.inj hOne).symm
  · by_cases hFalse : isWord falseWords (Text.trim s).toList = true
    · rw [truthOfText_of_falseWord hTrue hFalse]
      have hZero : (Binary.read? .double ['0']).map lenient.truthOfDouble = some (.ok false) := by
        decide +kernel
      rw [← eq_of_falseWord hLiteral hFalse, hRead, Option.map_some] at hZero
      exact (Option.some.inj hZero).symm
    · exact lenient_truthOfText hTrue hFalse hRead

/-! ## Literals without blanks -/

variable (hBlank : ∀ c ∈ cs, Text.isBlank c = false)

include hBlank

theorem strict_truthOfText_literal (hLiteral : Literal.read? cs = some x) {b : Bool}
    (h : strict.truthOfText (String.ofList cs) = .ok b) : cs = [if b then '1' else '0'] := by
  have hTrim := Text.trim_ofList_of_all hBlank
  by_cases hTrue : isWord trueWords (Text.trim (String.ofList cs)).toList = true
  · rw [truthOfText_of_trueWord hTrue] at h
    cases h
    exact eq_of_trueWord hLiteral (hTrim ▸ hTrue)
  · by_cases hFalse : isWord falseWords (Text.trim (String.ofList cs)).toList = true
    · rw [truthOfText_of_falseWord hTrue hFalse] at h
      cases h
      exact eq_of_falseWord hLiteral (hTrim ▸ hFalse)
    · rw [strict_truthOfText hTrue hFalse] at h
      cases h

theorem lenient_truthOfText_literal (hLiteral : Literal.read? cs = some x) :
    lenient.truthOfText (String.ofList cs) =
      lenient.truthOfDouble (Binary.nearest .double x.negative x.scaled.magnitude) := by
  rw [← Text.trim_ofList_of_all hBlank] at hLiteral
  exact lenient_truthOfText_of_literal hLiteral

end

/-! ## The double that is read -/

/-- Half of the least double is the last number that counts as zero. -/
theorem lenient_truthOfDouble_nearest (negative : Bool) {y : ℚ} (hy : 0 ≤ y) :
    lenient.truthOfDouble (Binary.nearest .double negative y) =
      .ok (decide (2 ^ (-1075 : ℤ) < y)) := by
  have hZero := Binary.toRat?_nearest_eq_zero_iff (F := .double) negative hy
  by_cases hSmall : y ≤ 2 ^ (-1075 : ℤ)
  · rw [truthOfDouble, if_pos (hZero.mpr hSmall), decide_eq_false (not_lt.mpr hSmall)]
  · rw [decide_eq_true (not_le.mp hSmall)]
    exact lenient_truthOfDouble (fun h => hSmall (hZero.mp h)) (Binary.isNaN_nearest negative y)

theorem lenient_truthOfDouble_of_least (negative : Bool) {y : ℚ}
    (hLeast : 2 ^ Binary.Format.double.minExponent ≤ y) :
    lenient.truthOfDouble (Binary.nearest .double negative y) = .ok true :=
  lenient_truthOfDouble (Binary.toRat?_nearest_ne_zero negative hLeast)
    (Binary.isNaN_nearest negative y)

theorem lenient_truthOfDouble_zero (negative : Bool) :
    lenient.truthOfDouble (Binary.nearest .double negative 0) = .ok false := by
  have hPos : (0 : ℚ) < 2 ^ (-1075 : ℤ) := by positivity
  rw [lenient_truthOfDouble_nearest negative le_rfl, decide_eq_false (not_lt.mpr hPos.le)]

end Policy

end ScalarCell
