import ScalarCell.Proofs.Binary.Reader
import ScalarCell.Proofs.Numeral.Written

/-!
# The texts read as floating-point numbers

They are the written numbers and, behind a sign or none, three words. `NumberText` is what is read as a
number (`numberText_iff`), and `NaNText` the rest (`nanText_iff`). All of them are ordinary texts
(`ordinary_of_read?`).
-/

namespace ScalarCell.Binary

open Numeral

/-- The words for an infinity. -/
def IsInfinityWord (cs : List Char) : Prop :=
  Text.sameLetters cs "inf".toList = true ∨ Text.sameLetters cs "infinity".toList = true

/-- A written number, or an infinity. -/
inductive NumberText : List Char → Prop where
  | written (w : Written) : NumberText w.text
  | infinity (sign : Sign) {word : List Char} (hWord : IsInfinityWord word) :
    NumberText (sign.text ++ word)

/-- The word for NaN, with a sign or without. -/
def NaNText (cs : List Char) : Prop :=
  ∃ (sign : Sign) (word : List Char), cs = sign.text ++ word ∧
    Text.sameLetters word "nan".toList = true

variable {F : Format} {cs : List Char}

/-! ## Words -/

theorem IsInfinityWord.not_mem (h : IsInfinityWord cs) {c : Char}
    (hc : c.toLower ∉ "infinity".toList) : c ∉ cs := by
  have hShort : c.toLower ∉ "inf".toList.map Char.toLower :=
    fun hMem => hc ((by decide : "inf".toList.map Char.toLower ⊆ "infinity".toList) hMem)
  rcases h with hWord | hWord
  · exact Text.not_mem_of_sameLetters hWord hShort
  · exact Text.not_mem_of_sameLetters hWord hc

theorem readWord?_infinity (negative : Bool) (h : IsInfinityWord cs) :
    readWord? F negative cs = some (infinity negative) := by
  rw [readWord?, if_pos (Bool.or_eq_true_iff.mpr h)]

theorem readWord?_nan (negative : Bool) (h : Text.sameLetters cs "nan".toList = true) :
    readWord? F negative cs = some nan := by
  have hOther : ¬IsInfinityWord cs := by
    rw [Text.sameLetters, beq_iff_eq] at h
    unfold IsInfinityWord
    simp only [Text.sameLetters, h]
    decide
  rw [readWord?, if_neg (fun hWord => hOther (Bool.or_eq_true_iff.mp hWord)), if_pos h]

theorem word_of_readWord? {negative : Bool} {x : Binary F} (h : readWord? F negative cs = some x) :
    x = infinity negative ∧ IsInfinityWord cs ∨
      x = nan ∧ Text.sameLetters cs "nan".toList = true := by
  unfold readWord? at h
  split at h
  · next hWord => exact Or.inl ⟨(Option.some.inj h).symm, Bool.or_eq_true_iff.mp hWord⟩
  · split at h
    · next hWord => exact Or.inr ⟨(Option.some.inj h).symm, hWord⟩
    · cases h

theorem read?_of_readWord? {sign : Sign} {x : Binary F} (hPlus : '+' ∉ cs) (hMinus : '-' ∉ cs)
    (h : readWord? F sign.isMinus cs = some x) : read? F (sign.text ++ cs) = some x := by
  rw [read?, sign.splitSign_append_of_not_mem hPlus hMinus]
  dsimp only
  rw [h]

/-! ## Everything that is read -/

section

variable [F.Proper]

theorem read?_written (w : Written) :
    read? F w.text = some (nearest F w.negative w.magnitude) := by
  rw [read?_of_literal F (Literal.read?_written w), Literal.magnitude_written]

theorem numberText_or_nanText {x : Binary F} (h : read? F cs = some x) :
    x.isNaN = false ∧ NumberText cs ∨ x = nan ∧ NaNText cs := by
  obtain ⟨sign, body, hText, hSplit⟩ := Sign.exists_splitSign cs
  cases hLiteral : Literal.read? cs with
  | some l =>
    obtain ⟨w, rfl⟩ := Literal.exists_written_of_read? hLiteral
    rw [read?_written] at h
    exact Or.inl ⟨Option.some.inj h ▸ isNaN_nearest _ _, .written w⟩
  | none =>
    have hWord : readWord? F sign.isMinus body = some x := by
      rw [read?, hSplit, hLiteral] at h
      dsimp only at h
      split at h
      · next y hy => rw [hy, h]
      · cases h
    rcases word_of_readWord? hWord with ⟨rfl, hInfinity⟩ | ⟨rfl, hNaN⟩
    · exact Or.inl ⟨rfl, hText ▸ .infinity sign hInfinity⟩
    · exact Or.inr ⟨rfl, sign, body, hText, hNaN⟩

theorem numberText_iff :
    NumberText cs ↔ ∃ x : Binary F, read? F cs = some x ∧ x.isNaN = false := by
  constructor
  · rintro (⟨w⟩ | ⟨sign, hWord⟩)
    · exact ⟨_, read?_written w, isNaN_nearest _ _⟩
    · exact ⟨_, read?_of_readWord? (hWord.not_mem (by decide)) (hWord.not_mem (by decide))
        (readWord?_infinity sign.isMinus hWord), rfl⟩
  · rintro ⟨x, hRead, hNumber⟩
    rcases numberText_or_nanText hRead with ⟨-, hText⟩ | ⟨rfl, -⟩
    · exact hText
    · cases hNumber

theorem nanText_iff : NaNText cs ↔ read? F cs = some nan := by
  constructor
  · rintro ⟨sign, word, rfl, hWord⟩
    exact read?_of_readWord? (Text.not_mem_of_sameLetters hWord (by decide))
      (Text.not_mem_of_sameLetters hWord (by decide)) (readWord?_nan sign.isMinus hWord)
  · intro hRead
    rcases numberText_or_nanText hRead with ⟨hNumber, -⟩ | ⟨-, hText⟩
    · cases hNumber
    · exact hText

theorem ordinary_of_read? {x : Binary F} (h : read? F cs = some x) : Ordinary cs := by
  rcases numberText_or_nanText h with ⟨-, ⟨w⟩ | ⟨sign, hWord⟩⟩ | ⟨-, sign, word, rfl, hWord⟩
  · exact w.ordinary_text
  · exact sign.ordinary_append (hWord.not_mem (by decide)) (hWord.not_mem (by decide))
  · exact sign.ordinary_append (Text.not_mem_of_sameLetters hWord (by decide))
      (Text.not_mem_of_sameLetters hWord (by decide))

end

end ScalarCell.Binary
