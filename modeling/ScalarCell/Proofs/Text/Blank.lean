import ScalarCell.Proofs.Numeral.Plain
import ScalarCell.Scalar.Getter

/-!
# Texts without blanks

Trimming leaves a text alone that has no blanks at its ends, so numbers are read from it as it
stands, with and without trimming (`numericText_ofList`).
-/

namespace ScalarCell

namespace Text

theorem isBlank_of_isDigit {c : Char} (h : c.isDigit = true) : isBlank c = false := by
  have hBounds := Numeral.toNat_of_isDigit h
  simp only [isBlank, blankRanges, List.any_cons, List.any_nil, Bool.or_false, Bool.or_eq_false_iff,
    Bool.and_eq_false_iff, decide_eq_false_iff_not]
  omega

theorem isBlank_of_any (word : List Char) (hWord : word.any isBlank = false) {c : Char}
    (h : c ∈ word) : isBlank c = false :=
  Bool.eq_false_iff.mpr (List.any_eq_false.mp hWord c h)

theorem isBlank_of_mem_sign {negative : Bool} {c : Char}
    (h : c ∈ if negative then ['-'] else []) : isBlank c = false := by
  cases negative with
  | true =>
    rw [List.mem_singleton.mp h]
    rfl
  | false => cases h

theorem isBlank_of_mem_pointed {fraction : List Char} (hFraction : Numeral.AllDigits fraction)
    {c : Char} (h : c ∈ Numeral.pointed fraction) : isBlank c = false := by
  unfold Numeral.pointed at h
  split at h
  · cases h
  · rcases List.mem_cons.mp h with rfl | h
    · rfl
    · exact isBlank_of_isDigit (hFraction c h)

theorem isBlank_of_mem_plain {x : Numeral.Scaled} {c : Char} (h : c ∈ x.plain) :
    isBlank c = false := by
  rw [x.plain_eq] at h
  refine (List.mem_append.mp h).elim (fun hWhole => ?_)
    (isBlank_of_mem_pointed x.allDigits_fractionPart)
  exact isBlank_of_isDigit ((Numeral.isRun_iff.mp x.isRun_wholePart).2 c hWhole)

theorem trimLeft_eq_self {cs : List Char} (h : ∀ c ∈ cs.head?, isBlank c = false) :
    trimLeft cs = cs := by
  cases cs with
  | nil => rfl
  | cons c cs =>
    have hHead := h c rfl
    rw [trimLeft, List.dropWhile_cons_of_neg (by simp [hHead])]

theorem trimRight_eq_self {cs : List Char} (h : ∀ c ∈ cs.getLast?, isBlank c = false) :
    trimRight cs = cs := by
  have hReverse : trimLeft cs.reverse = cs.reverse := by
    apply trimLeft_eq_self
    rwa [List.head?_reverse]
  rw [trimRight]
  rw [trimLeft] at hReverse
  rw [hReverse, List.reverse_reverse]

/-- A text without blanks at its ends is not trimmed. -/
theorem trim_ofList {cs : List Char} (hFirst : ∀ c ∈ cs.head?, isBlank c = false)
    (hLast : ∀ c ∈ cs.getLast?, isBlank c = false) :
    (trim (String.ofList cs)).toList = cs := by
  rw [trim_toList, String.toList_ofList, trimLeft_eq_self hFirst, trimRight_eq_self hLast]

theorem trim_ofList_of_all {cs : List Char} (h : ∀ c ∈ cs, isBlank c = false) :
    (trim (String.ofList cs)).toList = cs :=
  trim_ofList (fun c hc => h c (List.mem_of_mem_head? hc))
    (fun c hc => h c (List.mem_of_mem_getLast? hc))

end Text

theorem Scalar.numericText_ofList (config : Config) {cs : List Char}
    (h : ∀ c ∈ cs, Text.isBlank c = false) :
    Scalar.numericText config (String.ofList cs) = cs := by
  unfold Scalar.numericText
  split
  · exact Text.trim_ofList_of_all h
  · exact String.toList_ofList

end ScalarCell
