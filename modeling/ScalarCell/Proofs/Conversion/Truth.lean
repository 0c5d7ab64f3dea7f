import ScalarCell.Conversion.Truth

/-!
# How a text gets its truth value

The three steps of reading a truth value, apart: the words of either value, then a number if the
policy lets numbers count, and a failure that shows the text otherwise.
-/

namespace ScalarCell.Policy

variable {p : Policy} {s : String}

theorem truthOfText_of_trueWord (h : isWord trueWords (Text.trim s).toList = true) :
    p.truthOfText s = .ok true := by
  unfold truthOfText
  exact if_pos h

theorem truthOfText_of_falseWord (hTrue : isWord trueWords (Text.trim s).toList ≠ true)
    (hFalse : isWord falseWords (Text.trim s).toList = true) : p.truthOfText s = .ok false := by
  unfold truthOfText
  exact (if_neg hTrue).trans (if_pos hFalse)

section

variable (hTrue : isWord trueWords (Text.trim s).toList ≠ true)
  (hFalse : isWord falseWords (Text.trim s).toList ≠ true)

include hTrue hFalse

theorem strict_truthOfText : strict.truthOfText s = .error (.cannotCoerce s) := by
  unfold truthOfText
  exact (if_neg hTrue).trans (if_neg hFalse)

theorem lenient_truthOfText {x : Binary.Double}
    (hRead : Binary.read? .double (Text.trim s).toList = some x) :
    lenient.truthOfText s = lenient.truthOfDouble x := by
  unfold truthOfText
  refine (if_neg hTrue).trans ((if_neg hFalse).trans ?_)
  rw [hRead]

theorem lenient_truthOfText_of_none (hRead : Binary.read? .double (Text.trim s).toList = none) :
    lenient.truthOfText s = .error (.cannotCoerce s) := by
  unfold truthOfText
  refine (if_neg hTrue).trans ((if_neg hFalse).trans ?_)
  rw [hRead]

end

/-- A number other than 0 counts as true, and NaN not at all. -/
theorem lenient_truthOfDouble {x : Binary.Double} (hZero : x.toRat? ≠ some 0)
    (hNumber : x.isNaN = false) : lenient.truthOfDouble x = .ok true := by
  rw [truthOfDouble, if_neg hZero]
  split
  · rfl
  · rw [if_pos ⟨rfl, by rw [hNumber]; rfl⟩]

end ScalarCell.Policy
