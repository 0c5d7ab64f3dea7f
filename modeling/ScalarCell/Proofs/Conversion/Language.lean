import ScalarCell.Proofs.Binary.Language
import ScalarCell.Proofs.Conversion.Truth

/-!
# The texts with a truth value

Under the lenient policy a text has a truth value if it is a word or a number, up to blanks around it
(`exists_lenient_truthOfText_iff`). Any other text fails and is shown (`lenient_truthOfText_of_other`),
but NaN is shown in its one spelling (`lenient_truthOfText_of_nanText`). All texts with a truth
value are ordinary (`ordinary_of_lenient_truthOfText`).
-/

namespace ScalarCell.Policy

open Binary Numeral

variable {s : String} {cs : List Char}

/-! ## Words -/

theorem ordinary_of_isWord {words : List String} (hWords : ∀ w ∈ words,
    '_' ∉ w.toList.map Char.toLower ∧ '+' ∉ w.toList.map Char.toLower)
    (h : isWord words cs = true) : Ordinary cs := by
  obtain ⟨w, hMem, hSame⟩ := List.any_eq_true.mp h
  rw [Text.sameLetters_comm] at hSame
  obtain ⟨hUnderscore, hPlus⟩ := hWords w hMem
  exact Sign.none.ordinary_append (Text.not_mem_of_sameLetters hSame hUnderscore)
    (Text.not_mem_of_sameLetters hSame hPlus)

theorem not_isWord_of_nanText (words : List String) (hWords : ∀ w ∈ words,
    ∀ prefixed ∈ ["nan", "+nan", "-nan"], w.toList.map Char.toLower ≠ prefixed.toList)
    (h : NaNText cs) : isWord words cs ≠ true := by
  obtain ⟨sign, word, rfl, hWord⟩ := h
  intro hIsWord
  obtain ⟨w, hMem, hSame⟩ := List.any_eq_true.mp hIsWord
  rw [Text.sameLetters, beq_iff_eq] at hWord hSame
  rw [List.map_append, hWord] at hSame
  cases sign with
  | none => exact hWords w hMem "nan" (by decide) hSame
  | plus => exact hWords w hMem "+nan" (by decide) hSame
  | minus => exact hWords w hMem "-nan" (by decide) hSame

/-! ## Doubles -/

theorem exists_lenient_truthOfDouble {x : Double} (h : x.isNaN = false) :
    ∃ b, lenient.truthOfDouble x = .ok b := by
  by_cases hZero : x.toRat? = some 0
  · exact ⟨false, if_pos hZero⟩
  · exact ⟨true, lenient_truthOfDouble hZero h⟩

theorem lenient_truthOfDouble_nan : lenient.truthOfDouble nan = .error (.cannotCoerce "NaN") := by
  decide

/-! ## Texts -/

theorem exists_lenient_truthOfText_of_numberText (h : NumberText (Text.trim s).toList) :
    ∃ b, lenient.truthOfText s = .ok b := by
  by_cases hTrue : isWord trueWords (Text.trim s).toList = true
  · exact ⟨true, truthOfText_of_trueWord hTrue⟩
  · by_cases hFalse : isWord falseWords (Text.trim s).toList = true
    · exact ⟨false, truthOfText_of_falseWord hTrue hFalse⟩
    · obtain ⟨x, hRead, hNumber⟩ := (numberText_iff (F := .double)).mp h
      rw [lenient_truthOfText hTrue hFalse hRead]
      exact exists_lenient_truthOfDouble hNumber

theorem lenient_truthOfText_of_nanText (h : NaNText (Text.trim s).toList) :
    lenient.truthOfText s = .error (.cannotCoerce "NaN") := by
  have hTrue := not_isWord_of_nanText trueWords (by decide) h
  have hFalse := not_isWord_of_nanText falseWords (by decide) h
  rw [lenient_truthOfText hTrue hFalse (nanText_iff.mp h), lenient_truthOfDouble_nan]

theorem lenient_truthOfText_of_other (hTrue : isWord trueWords (Text.trim s).toList ≠ true)
    (hFalse : isWord falseWords (Text.trim s).toList ≠ true)
    (hNumber : ¬NumberText (Text.trim s).toList) (hNaN : ¬NaNText (Text.trim s).toList) :
    lenient.truthOfText s = .error (.cannotCoerce s) := by
  refine lenient_truthOfText_of_none hTrue hFalse ?_
  rw [Option.eq_none_iff_forall_ne_some]
  intro x hRead
  rcases numberText_or_nanText hRead with ⟨-, hText⟩ | ⟨-, hText⟩
  · exact hNumber hText
  · exact hNaN hText

theorem exists_lenient_truthOfText_iff : (∃ b, lenient.truthOfText s = .ok b) ↔
    isWord trueWords (Text.trim s).toList = true ∨
      isWord falseWords (Text.trim s).toList = true ∨ NumberText (Text.trim s).toList := by
  constructor
  · rintro ⟨b, hb⟩
    by_contra hOther
    rw [not_or, not_or] at hOther
    obtain ⟨hTrue, hFalse, hNumber⟩ := hOther
    by_cases hNaN : NaNText (Text.trim s).toList
    · cases (lenient_truthOfText_of_nanText hNaN).symm.trans hb
    · cases (lenient_truthOfText_of_other hTrue hFalse hNumber hNaN).symm.trans hb
  · intro h
    by_cases hTrue : isWord trueWords (Text.trim s).toList = true
    · exact ⟨true, truthOfText_of_trueWord hTrue⟩
    · rcases h.resolve_left hTrue with hFalse | hNumber
      · exact ⟨false, truthOfText_of_falseWord hTrue hFalse⟩
      · exact exists_lenient_truthOfText_of_numberText hNumber

theorem ordinary_of_lenient_truthOfText {b : Bool} (h : lenient.truthOfText s = .ok b) :
    Ordinary (Text.trim s).toList := by
  rcases exists_lenient_truthOfText_iff.mp ⟨b, h⟩ with hTrue | hFalse | hNumber
  · exact ordinary_of_isWord (by decide) hTrue
  · exact ordinary_of_isWord (by decide) hFalse
  · obtain ⟨x, hRead, -⟩ := (numberText_iff (F := .double)).mp hNumber
    exact ordinary_of_read? hRead

end ScalarCell.Policy
