/-!
# Texts up to the case of their letters

Only the ASCII letters have two cases here: `'É'` and `'é'` stay apart.
-/

namespace ScalarCell.Text

/-- The two texts differ at most in the case of ASCII letters. -/
def sameLetters (s t : List Char) : Bool := s.map Char.toLower == t.map Char.toLower

theorem sameLetters_refl (s : List Char) : sameLetters s s = true := by
  simp [sameLetters]

theorem sameLetters_comm (s t : List Char) : sameLetters s t = sameLetters t s := BEq.comm

/-- What one text lacks in lower case the other one lacks in any. -/
theorem not_mem_of_sameLetters {s t : List Char} (h : sameLetters s t = true) {c : Char}
    (hc : c.toLower ∉ t.map Char.toLower) : c ∉ s := by
  rw [sameLetters, beq_iff_eq] at h
  rw [← h] at hc
  exact fun hMem => hc (List.mem_map_of_mem hMem)

end ScalarCell.Text
