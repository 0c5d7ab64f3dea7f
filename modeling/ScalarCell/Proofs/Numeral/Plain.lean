import ScalarCell.Proofs.Numeral.Run

/-!
# The two parts of a plain number

A number written with all its places is a run of digits, and behind a point the digits of the
fraction if there are any (`plain_eq`). Together they are the digits of the coefficient, with zeros
before or behind them (`value_parts`).
-/

namespace ScalarCell.Numeral

/-- A fraction behind its point, and nothing for an empty one. -/
def pointed (fraction : List Char) : List Char :=
  if fraction.isEmpty then [] else '.' :: fraction

namespace Scaled

def wholePart (x : Scaled) : List Char :=
  let run := digits x.coefficient
  let places := (-x.exponent).toNat
  if 0 ≤ x.exponent then run ++ List.replicate x.exponent.toNat '0'
  else if places < run.length then run.take (run.length - places)
  else ['0']

def fractionPart (x : Scaled) : List Char :=
  let run := digits x.coefficient
  let places := (-x.exponent).toNat
  if 0 ≤ x.exponent then []
  else if places < run.length then run.drop (run.length - places)
  else List.replicate (places - run.length) '0' ++ run

theorem length_fractionPart (x : Scaled) : x.fractionPart.length = (-x.exponent).toNat := by
  unfold fractionPart
  dsimp only
  split
  · simp only [List.length_nil]
    omega
  · split
    · rw [List.length_drop]
      omega
    · rw [List.length_append, List.length_replicate]
      omega

theorem plain_eq (x : Scaled) : x.plain = x.wholePart ++ pointed x.fractionPart := by
  have hLength := x.length_fractionPart
  unfold plain pointed
  by_cases hWhole : 0 ≤ x.exponent
  · have hNil : x.fractionPart = [] := List.eq_nil_of_length_eq_zero (by omega)
    simp only [wholePart, hWhole, hNil, if_true, List.isEmpty_nil, List.append_nil]
  · have hSome : x.fractionPart.isEmpty = false := by
      rw [List.isEmpty_eq_false_iff, ← List.length_pos_iff]
      omega
    rw [hSome]
    simp only [wholePart, fractionPart, hWhole, if_false, Bool.false_eq_true]
    split <;> rfl

theorem isRun_wholePart (x : Scaled) : isRun x.wholePart = true := by
  rw [isRun_iff]
  unfold wholePart
  dsimp only
  split
  · exact ⟨by simp [digits_ne_nil],
      allDigits_append.mpr ⟨allDigits_digits _, allDigits_replicate_zero _⟩⟩
  · split
    · constructor
      · rw [← List.length_pos_iff, List.length_take]
        omega
      · exact fun c hc => allDigits_digits _ c (List.mem_of_mem_take hc)
    · exact ⟨List.cons_ne_nil _ _, allDigits_replicate_zero 1⟩

theorem allDigits_fractionPart (x : Scaled) : AllDigits x.fractionPart := by
  unfold fractionPart
  dsimp only
  split
  · exact allDigits_nil
  · split
    · exact fun c hc => allDigits_digits _ c (List.mem_of_mem_drop hc)
    · exact allDigits_append.mpr ⟨allDigits_replicate_zero _, allDigits_digits _⟩

/-- Both parts together are the coefficient, with a zero for each place below it. -/
theorem value_parts (x : Scaled) :
    value (x.wholePart ++ x.fractionPart) = x.coefficient * 10 ^ x.exponent.toNat := by
  unfold wholePart fractionPart
  dsimp only
  split
  · rw [List.append_nil, value_append, value_digits, List.length_replicate,
      ← List.append_nil (List.replicate _ '0'), value_replicate_zero_append]
    exact Nat.add_zero _
  · next hNeg =>
    have hZero : x.exponent.toNat = 0 := by omega
    rw [hZero, pow_zero, mul_one]
    split
    · rw [List.take_append_drop, value_digits]
    · have hOne : ['0'] = List.replicate 1 '0' := rfl
      rw [← List.append_assoc, hOne, List.replicate_append_replicate, value_replicate_zero_append,
        value_digits]

end Scaled

end ScalarCell.Numeral
