import Mathlib.Tactic.Ring
import ScalarCell.Numeral.Scaled

/-!
# Runs of digits

What a run of digits says as one number, when it is put together from others or cut in two, and how
large that number can be (`value_lt_pow`, `value_eq_pow_sub_one_iff`). A digit is no letter, so it has
no case (`isAlpha_of_isDigit`, `toLower_of_not_isAlpha`).
-/

namespace ScalarCell.Numeral

/-- Only digits, and possibly none. -/
def AllDigits (cs : List Char) : Prop := ∀ c ∈ cs, c.isDigit = true

theorem allDigits_nil : AllDigits [] := fun _ h => by cases h

theorem allDigits_cons {c : Char} {cs : List Char} :
    AllDigits (c :: cs) ↔ c.isDigit = true ∧ AllDigits cs := by
  simp only [AllDigits, List.mem_cons, forall_eq_or_imp]

theorem allDigits_append {s t : List Char} :
    AllDigits (s ++ t) ↔ AllDigits s ∧ AllDigits t := by
  simp only [AllDigits, List.mem_append, or_imp, forall_and]

theorem allDigits_replicate_zero (n : Nat) : AllDigits (List.replicate n '0') := by
  intro c hc
  rw [List.eq_of_mem_replicate hc]
  rfl

theorem allDigits_digits (n : Nat) : AllDigits (digits n) := fun _ => isDigit_of_mem_digits

theorem isRun_iff {cs : List Char} : isRun cs = true ↔ cs ≠ [] ∧ AllDigits cs := by
  simp only [isRun, Bool.and_eq_true, Bool.not_eq_true', List.isEmpty_eq_false_iff,
    List.all_eq_true, AllDigits]

/-- A digit is no sign. -/
theorem splitSign_of_isRun_append {cs : List Char} (h : isRun cs = true) (rest : List Char) :
    splitSign (cs ++ rest) = (false, cs ++ rest) := by
  cases cs with
  | nil => exact absurd rfl (isRun_iff.mp h).1
  | cons c cs =>
    have hDigit := (allDigits_cons.mp (isRun_iff.mp h).2).1
    unfold splitSign
    split
    · next e => cases e; cases hDigit
    · next e => cases e; cases hDigit
    · rfl

theorem toNat_of_isDigit {c : Char} (h : c.isDigit = true) : 48 ≤ c.toNat ∧ c.toNat ≤ 57 := by
  simp only [Char.isDigit, Bool.and_eq_true, decide_eq_true_eq] at h
  exact ⟨UInt32.le_iff_toNat_le.mp h.1, UInt32.le_iff_toNat_le.mp h.2⟩

theorem toNat_of_isAlpha {c : Char} (h : c.isAlpha = true) :
    (65 ≤ c.toNat ∧ c.toNat ≤ 90) ∨ (97 ≤ c.toNat ∧ c.toNat ≤ 122) := by
  rcases Bool.or_eq_true_iff.mp h with hUpper | hLower
  · obtain ⟨hFirst, hLast⟩ := of_decide_eq_true hUpper
    exact Or.inl ⟨UInt32.le_iff_toNat_le.mp hFirst, UInt32.le_iff_toNat_le.mp hLast⟩
  · obtain ⟨hFirst, hLast⟩ := Bool.and_eq_true_iff.mp hLower
    exact Or.inr ⟨UInt32.le_iff_toNat_le.mp (of_decide_eq_true hFirst),
      UInt32.le_iff_toNat_le.mp (of_decide_eq_true hLast)⟩

theorem isAlpha_of_isDigit {c : Char} (h : c.isDigit = true) : c.isAlpha = false := by
  obtain ⟨-, hBelow⟩ := toNat_of_isDigit h
  rw [Bool.eq_false_iff]
  intro hAlpha
  have := toNat_of_isAlpha hAlpha
  omega

theorem toLower_of_not_isAlpha {c : Char} (h : c.isAlpha = false) : c.toLower = c := by
  refine dif_neg fun hUpper => ?_
  have hIsUpper : c.isUpper = true := decide_eq_true hUpper
  rw [(Bool.or_eq_false_iff.mp h).1] at hIsUpper
  cases hIsUpper

theorem digits_ne_nil (n : Nat) : digits n ≠ [] := Nat.toDigits_ne_nil

/-! ## Values -/

theorem value_append (s t : List Char) : value (s ++ t) = value s * 10 ^ t.length + value t := by
  unfold value
  rw [Nat.ofDigitChars_append, Nat.ofDigitChars_eq_ofDigitChars_zero, Nat.mul_comm]

theorem value_cons (c : Char) (cs : List Char) :
    value (c :: cs) = value [c] * 10 ^ cs.length + value cs := by
  rw [← List.singleton_append, value_append]

theorem value_replicate_zero_append (n : Nat) (cs : List Char) :
    value (List.replicate n '0' ++ cs) = value cs := by
  rw [value, Nat.ofDigitChars_append, Nat.ofDigitChars_replicate_zero, Nat.mul_zero]
  rfl

theorem value_singleton (c : Char) : value [c] = c.toNat - 48 := by
  simp [value, Nat.ofDigitChars]

theorem value_singleton_le {c : Char} (h : c.isDigit = true) : value [c] ≤ 9 := by
  have hBounds := toNat_of_isDigit h
  rw [value_singleton]
  omega

theorem value_lt_pow {cs : List Char} (h : AllDigits cs) : value cs < 10 ^ cs.length := by
  induction cs with
  | nil => exact Nat.one_pos
  | cons c cs ih =>
    obtain ⟨hDigit, hLater⟩ := allDigits_cons.mp h
    have hRest := ih hLater
    calc value (c :: cs) = value [c] * 10 ^ cs.length + value cs := value_cons c cs
      _ < value [c] * 10 ^ cs.length + 10 ^ cs.length := by omega
      _ = (value [c] + 1) * 10 ^ cs.length := by ring
      _ ≤ 10 * 10 ^ cs.length :=
        Nat.mul_le_mul_right _ (Nat.succ_le_succ (value_singleton_le hDigit))
      _ = 10 ^ (c :: cs).length := by rw [List.length_cons, pow_succ, Nat.mul_comm]

theorem eq_nine_of_value {c : Char} (h : value [c] = 9) : c = '9' := by
  rw [value_singleton] at h
  have hCode : c.toNat = '9'.toNat := by
    have hNine : '9'.toNat = 57 := rfl
    omega
  exact Char.toNat_inj.mp hCode

/-- The largest number of so many digits is written with nines only. -/
theorem value_eq_pow_sub_one_iff {cs : List Char} (h : AllDigits cs) :
    value cs + 1 = 10 ^ cs.length ↔ ∀ c ∈ cs, c = '9' := by
  induction cs with
  | nil => exact iff_of_true rfl fun _ h => by cases h
  | cons c cs ih =>
    obtain ⟨hDigit, hLater⟩ := allDigits_cons.mp h
    have hFirst := value_singleton_le hDigit
    have hRest := value_lt_pow hLater
    rw [List.forall_mem_cons, ← ih hLater, value_cons, List.length_cons, pow_succ]
    constructor
    · intro hLargest
      have hNine : value [c] = 9 := by
        by_contra hLess
        have hEight : value [c] ≤ 8 := by omega
        have hBelow := Nat.mul_le_mul_right (10 ^ cs.length) hEight
        omega
      rw [hNine] at hLargest
      exact ⟨eq_nine_of_value hNine, by omega⟩
    · rintro ⟨rfl, hLargest⟩
      have hNine : value ['9'] = 9 := rfl
      rw [hNine]
      omega

end ScalarCell.Numeral
