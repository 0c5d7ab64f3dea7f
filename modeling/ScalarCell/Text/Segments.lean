/-!
# Cutting a text at separators

* `segments p` cuts at every character with `p`; `n` separators give `n + 1` segments, which may be
  empty. `segments_append_cons` says that a separator cuts wherever it stands.
* `cutAt? c` cuts once, at the first `c`.
-/

namespace ScalarCell.Text

def segments (p : Char → Bool) : List Char → List (List Char)
  | [] => [[]]
  | c :: cs =>
    if p c then [] :: segments p cs
    else
      match segments p cs with
      | [] => [[c]]
      | s :: rest => (c :: s) :: rest

/-- The text before the first `c` and the text behind it. -/
def cutAt? (c : Char) (cs : List Char) : Option (List Char × List Char) :=
  match cs.dropWhile (· != c) with
  | [] => none
  | _ :: rest => some (cs.takeWhile (· != c), rest)

/-! ## Laws -/

theorem segments_ne_nil (p : Char → Bool) (cs : List Char) : segments p cs ≠ [] := by
  cases cs with
  | nil => simp [segments]
  | cons c cs =>
    unfold segments
    split
    · simp
    · split <;> simp

theorem segments_append_cons {p : Char → Bool} {c : Char} (hc : p c = true) (s t : List Char) :
    segments p (s ++ c :: t) = segments p s ++ segments p t := by
  induction s with
  | nil => simp [segments, hc]
  | cons d s ih =>
    rw [List.cons_append, segments, segments, ih]
    split
    · rfl
    · cases h : segments p s with
      | nil => exact absurd h (segments_ne_nil p s)
      | cons u rest => rfl

end ScalarCell.Text
