/-!
# Whole numbers in base ten

* `digits` writes a natural number, most significant digit first, and `value` reads a run of
  digits; `value_digits` says that they agree.
* `intText` and `readInt?` do the same with a sign; `readInt?_intText` says that the written form
  reads back.
-/

namespace ScalarCell.Numeral

def digits (n : Nat) : List Char := Nat.toDigits 10 n

def value (cs : List Char) : Nat := Nat.ofDigitChars 10 cs 0

/-- At least one character, and digits only. -/
def isRun (cs : List Char) : Bool := !cs.isEmpty && cs.all Char.isDigit

/-- Takes one leading sign off: whether it was a minus, and what follows. -/
def splitSign : List Char → Bool × List Char
  | '+' :: cs => (false, cs)
  | '-' :: cs => (true, cs)
  | cs => (false, cs)

def applySign (negative : Bool) (n : Nat) : Int := if negative then -n else n

/-- A sign that may be left out, then at least one digit. Leading zeros count for nothing. -/
def readInt? (cs : List Char) : Option Int :=
  let (negative, run) := splitSign cs
  if isRun run then some (applySign negative (value run)) else none

def intText (n : Int) : List Char :=
  if n < 0 then '-' :: digits n.natAbs else digits n.natAbs

/-! ## Laws -/

@[simp]
theorem value_digits (n : Nat) : value (digits n) = n := Nat.ofDigitChars_ten_toDigits

theorem isDigit_of_mem_digits {n : Nat} {c : Char} (h : c ∈ digits n) : c.isDigit = true :=
  Nat.isDigit_of_mem_toDigits (by decide) (by decide) h

@[simp]
theorem isRun_digits (n : Nat) : isRun (digits n) = true := by
  simp only [isRun, Bool.and_eq_true, Bool.not_eq_true', List.isEmpty_eq_false_iff,
    List.all_eq_true]
  exact ⟨Nat.toDigits_ne_nil, fun _ => isDigit_of_mem_digits⟩

theorem splitSign_of_isRun {cs : List Char} (h : isRun cs = true) : splitSign cs = (false, cs) := by
  unfold splitSign
  split
  · simp [isRun, show Char.isDigit '+' = false from rfl] at h
  · simp [isRun, show Char.isDigit '-' = false from rfl] at h
  · rfl

@[simp]
theorem readInt?_intText (n : Int) : readInt? (intText n) = some n := by
  unfold intText
  split
  · simp only [readInt?, splitSign, isRun_digits, value_digits, applySign, if_true]
    exact congrArg some (by omega)
  · simp only [readInt?, splitSign_of_isRun (isRun_digits _), isRun_digits, value_digits, applySign,
      if_true, Bool.false_eq_true, if_false]
    exact congrArg some (by omega)

end ScalarCell.Numeral
