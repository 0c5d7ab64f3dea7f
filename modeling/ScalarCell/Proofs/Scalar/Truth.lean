import ScalarCell.Proofs.Integer.Text

/-!
# Truth values survive the text of a value

A value has the truth value of its text. Under the lenient policy the two agree, failures included
(`lenient_truthOfText_toText`). Under the strict one the text says less, because only a word counts,
but what it says is right (`strict_getBoolean_of_text`). `boolean_text_transfer` puts both into terms
of cells.

* A nonzero number is written as something that a double does not round to zero: a single is at
  least half of its least step (`zpow_le_low`), and a decimal at least one in its twenty-eighth place
  (`zpow_le_magnitude`).
* A text that is a word is the digit `1` or `0`, so its number is exactly that
  (`strict_truthOfDouble_of_read`, `strict_truthOfDecimal_of_text`).
-/

namespace ScalarCell

open Numeral

/-! ## Numbers that are not zero -/

/-- The interval of a number that is not zero begins half a step above zero, or later. -/
theorem Binary.Finite.zpow_le_low {F : Format} {x : Finite F} (hNonzero : x.mantissa ≠ 0) :
    (2 : ℚ) ^ (F.minExponent - 1) ≤ x.low := by
  have hMantissa : (1 : ℚ) ≤ x.mantissa := by exact_mod_cast Nat.one_le_iff_ne_zero.mpr hNonzero
  have hStep : (0 : ℚ) < 2 ^ x.exponent := by positivity
  have hHalf : (1 : ℚ) / 2 * 2 ^ x.exponent ≤ x.low := by
    unfold low
    split <;> nlinarith
  have hMin := x.minExponent_le
  have hPlace : (2 : ℚ) ^ (F.minExponent - 1) ≤ 2 ^ (x.exponent - 1) :=
    zpow_le_zpow_right₀ one_le_two (by omega)
  have hPred := zpow_pred_mul_two x.exponent
  linarith

/-- A decimal that is not zero is at least one in the last place that a scale allows. -/
theorem Decimal.zpow_le_magnitude {d : Decimal} (hNonzero : d.mantissa ≠ 0) :
    (10 : ℚ) ^ (-28 : ℤ) ≤ d.scaled.magnitude := by
  have hMantissa : (1 : ℚ) ≤ d.mantissa := by exact_mod_cast Nat.one_le_iff_ne_zero.mpr hNonzero
  have hScale : d.scale ≤ 28 := d.scale_le
  have hPlace : (10 : ℚ) ^ (-28 : ℤ) ≤ 10 ^ (-(d.scale : ℤ)) :=
    zpow_le_zpow_right₀ (by norm_num) (by omega)
  have hPos : (0 : ℚ) ≤ 10 ^ (-(d.scale : ℤ)) := by positivity
  exact hPlace.trans (le_mul_of_one_le_left hPos hMantissa)

namespace Policy

open Binary

/-! ## Floating-point numbers -/

/-- The text of a finite number counts as the double that its digits read as. -/
theorem lenient_truthOfText_render {F : Format} (x : Finite F) :
    lenient.truthOfText (String.ofList (finite x).render) =
      lenient.truthOfDouble (nearest .double x.negative x.shortest.magnitude) := by
  obtain ⟨l, hLiteral, hSign, hMagnitude⟩ := exists_literal_render x
  have hBlank : ∀ c ∈ (finite x).render, Text.isBlank c = false :=
    fun _ => isBlank_of_mem_render (finite x)
  rw [lenient_truthOfText_literal hBlank hLiteral, hSign, hMagnitude]

theorem lenient_truthOfText_double (x : Double) :
    lenient.truthOfText (String.ofList x.render) = lenient.truthOfDouble x := by
  cases x with
  | nan => decide
  | infinity s => cases s <;> decide
  | finite y => rw [lenient_truthOfText_render, y.nearest_shortest]

/-- The digits of a single need not read as that single's double, but either both are zero or
neither is. -/
theorem lenient_truthOfText_single (x : Single) :
    lenient.truthOfText (String.ofList x.render) = lenient.truthOfDouble (x.convert .double) := by
  cases x with
  | nan => decide
  | infinity s => cases s <;> decide
  | finite y =>
    rw [lenient_truthOfText_render, convert]
    by_cases hZero : y.mantissa = 0
    · have hMagnitude : y.magnitude = 0 := by
        rw [Finite.magnitude, hZero, Nat.cast_zero, zero_mul]
      rw [Finite.magnitude_shortest_of_zero hZero, hMagnitude]
    · have hLow : (2 : ℚ) ^ Format.double.minExponent ≤ y.low :=
        (zpow_le_zpow_right₀ one_le_two (by decide)).trans (Finite.zpow_le_low hZero)
      rw [lenient_truthOfDouble_of_least _ (hLow.trans y.covers_shortest.1),
        lenient_truthOfDouble_of_least _ (hLow.trans y.low_lt_magnitude.le)]

/-! ## The two digits that are words -/

theorem strict_truthOfDouble_of_read {cs : List Char} {x : Double} {b : Bool}
    (hText : cs = [if b then '1' else '0']) (hRead : read? .double cs = some x) :
    strict.truthOfDouble x = .ok b := by
  have hDigit : (read? .double [if b then '1' else '0']).map strict.truthOfDouble =
      some (.ok b) := by
    cases b <;> decide +kernel
  rw [← hText, hRead] at hDigit
  exact Option.some.inj hDigit

theorem strict_truthOfSingle_of_read {cs : List Char} {x : Single} {b : Bool}
    (hText : cs = [if b then '1' else '0']) (hRead : read? .single cs = some x) :
    strict.truthOfDouble (x.convert .double) = .ok b := by
  have hDigit : (read? .single [if b then '1' else '0']).map
      (fun y => strict.truthOfDouble (y.convert .double)) = some (.ok b) := by
    cases b <;> decide +kernel
  rw [← hText, hRead] at hDigit
  exact Option.some.inj hDigit

/-- Of the texts of floating-point numbers, only a digit has a truth value. -/
theorem strict_truthOfText_render {F : Format} {x : Binary F} {b : Bool}
    (h : strict.truthOfText (String.ofList x.render) = .ok b) :
    x.render = [if b then '1' else '0'] := by
  cases x with
  | nan =>
    have hNone : strict.truthOfText (String.ofList "NaN".toList) ≠ .ok b := by
      cases b <;> decide
    exact absurd h hNone
  | infinity s =>
    have hNone : strict.truthOfText (String.ofList (signText s ++ "Infinity".toList)) ≠ .ok b := by
      cases s <;> cases b <;> decide
    exact absurd h hNone
  | finite y =>
    obtain ⟨l, hLiteral, -⟩ := exists_literal_render y
    exact strict_truthOfText_literal (fun _ => isBlank_of_mem_render (finite y)) hLiteral h

/-! ## Decimals -/

theorem lenient_truthOfText_decimal (d : Decimal) :
    lenient.truthOfText (String.ofList d.text) = lenient.truthOfDecimal d := by
  have hBlank : ∀ c ∈ d.text, Text.isBlank c = false := fun _ => d.isBlank_of_mem_text
  rw [lenient_truthOfText_literal hBlank (Literal.read?_plain d.negative d.scaled),
    Literal.magnitude_plain, truthOfDecimal]
  by_cases hZero : d.mantissa = 0
  · have hMagnitude : d.scaled.magnitude = 0 := by
      rw [Scaled.magnitude, Decimal.scaled, hZero, Nat.cast_zero, zero_mul]
    rw [hMagnitude, lenient_truthOfDouble_zero, Decimal.isZero, hZero]
    rfl
  · have hStep : (2 : ℚ) ^ Format.double.minExponent ≤ 2 ^ (-112 : ℤ) :=
      zpow_le_zpow_right₀ one_le_two (by decide)
    have hSixteen : (2 : ℚ) ^ (-112 : ℤ) ≤ 10 ^ (-28 : ℤ) := by norm_num
    have hLeast := (hStep.trans hSixteen).trans (Decimal.zpow_le_magnitude hZero)
    have hIsZero : d.isZero ≠ true := fun h => hZero (beq_iff_eq.mp h)
    rw [lenient_truthOfDouble_of_least _ hLeast, if_neg hIsZero, ite_self]

theorem truthOfDecimal_unsignedZero (p : Policy) (d : Decimal) :
    p.truthOfDecimal d.unsignedZero = p.truthOfDecimal d := by
  by_cases hZero : d.mantissa = 0
  · have hIsZero : d.isZero = true := beq_iff_eq.mpr hZero
    have hUnsigned : d.unsignedZero.isZero = true := hIsZero
    unfold truthOfDecimal
    rw [if_pos hIsZero, if_pos hUnsigned]
  · rw [Decimal.unsignedZero_of_ne hZero]

theorem strict_truthOfDecimal_of_text {d : Decimal} {b : Bool}
    (hText : d.text = [if b then '1' else '0']) : strict.truthOfDecimal d = .ok b := by
  have hDigit : (Decimal.readPlain? [if b then '1' else '0']).map strict.truthOfDecimal =
      some (.ok b) := by
    cases b <;> decide +kernel
  rw [← hText, d.readPlain?_text, Option.map_some, truthOfDecimal_unsignedZero] at hDigit
  exact Option.some.inj hDigit

/-! ## What can fail -/

/-- A truth value, or the failure to have one. -/
def OkOrNotCoercible (r : Except Error Bool) : Prop :=
  (∃ b, r = .ok b) ∨ ∃ text, r = .error (.cannotCoerce text)

theorem okOrNotCoercible_ok (b : Bool) : OkOrNotCoercible (.ok b) := Or.inl ⟨b, rfl⟩

theorem okOrNotCoercible_notCoercible (text : List Char) :
    OkOrNotCoercible (notCoercible text) := Or.inr ⟨String.ofList text, rfl⟩

variable (p : Policy)

theorem okOrNotCoercible_truthOfInt (n : ℤ) : OkOrNotCoercible (p.truthOfInt n) := by
  unfold truthOfInt
  split
  · exact okOrNotCoercible_ok false
  · split
    · exact okOrNotCoercible_ok true
    · cases p with
      | lenient => exact okOrNotCoercible_ok true
      | strict => exact okOrNotCoercible_notCoercible _

theorem okOrNotCoercible_truthOfDouble (x : Double) : OkOrNotCoercible (p.truthOfDouble x) := by
  unfold truthOfDouble
  split
  · exact okOrNotCoercible_ok false
  · split
    · exact okOrNotCoercible_ok true
    · split
      · exact okOrNotCoercible_ok true
      · exact okOrNotCoercible_notCoercible _

theorem okOrNotCoercible_truthOfDecimal (d : Decimal) :
    OkOrNotCoercible (p.truthOfDecimal d) := by
  unfold truthOfDecimal
  split
  · exact okOrNotCoercible_ok false
  · split
    · exact okOrNotCoercible_ok true
    · cases p with
      | lenient => exact okOrNotCoercible_ok true
      | strict => exact okOrNotCoercible_notCoercible _

theorem okOrNotCoercible_truthOfText (s : String) : OkOrNotCoercible (p.truthOfText s) := by
  unfold truthOfText
  dsimp only
  split
  · exact okOrNotCoercible_ok true
  · split
    · exact okOrNotCoercible_ok false
    · split
      · exact okOrNotCoercible_truthOfDouble _ _
      · exact Or.inr ⟨s, rfl⟩

end Policy

/-! ## Values -/

namespace Scalar

open Policy

variable (v : Scalar) {config : Config}

theorem okOrNotCoercible_getBoolean (config : Config) :
    OkOrNotCoercible (v.getBoolean config) := by
  cases v with
  | bool b => exact okOrNotCoercible_ok b
  | int2 n => exact okOrNotCoercible_truthOfInt config.policy n.val
  | int4 n => exact okOrNotCoercible_truthOfInt config.policy n.val
  | int8 n => exact okOrNotCoercible_truthOfInt config.policy n.val
  | float4 x => exact okOrNotCoercible_truthOfDouble config.policy (x.convert .double)
  | float8 x => exact okOrNotCoercible_truthOfDouble config.policy x
  | numeric d => exact okOrNotCoercible_truthOfDecimal config.policy d
  | text s => exact okOrNotCoercible_truthOfText config.policy s

theorem lenient_truthOfText_toText (hLenient : config.policy = .lenient) :
    lenient.truthOfText v.toText = v.getBoolean config := by
  unfold getBoolean
  rw [hLenient]
  cases v with
  | bool b => cases b <;> rfl
  | int2 n => exact truthOfText_intText lenient n.val
  | int4 n => exact truthOfText_intText lenient n.val
  | int8 n => exact truthOfText_intText lenient n.val
  | float4 x => exact lenient_truthOfText_single x
  | float8 x => exact lenient_truthOfText_double x
  | numeric d => exact lenient_truthOfText_decimal d
  | text s => rfl

theorem strict_getBoolean_of_text (hStrict : config.policy = .strict) {b : Bool}
    (h : strict.truthOfText v.toText = .ok b) : v.getBoolean config = .ok b := by
  unfold getBoolean
  rw [hStrict]
  cases v with
  | bool a =>
    have hWord : strict.truthOfText (boolText a) = .ok a := by cases a <;> rfl
    exact hWord.symm.trans h
  | int2 n => exact (truthOfText_intText strict n.val).symm.trans h
  | int4 n => exact (truthOfText_intText strict n.val).symm.trans h
  | int8 n => exact (truthOfText_intText strict n.val).symm.trans h
  | float4 x =>
    have hDigit := strict_truthOfText_render (x := x) h
    exact strict_truthOfSingle_of_read hDigit (Binary.read?_render x)
  | float8 x =>
    have hDigit := strict_truthOfText_render (x := x) h
    exact strict_truthOfDouble_of_read hDigit (Binary.read?_render x)
  | numeric d =>
    have hBlank : ∀ c ∈ d.text, Text.isBlank c = false := fun _ => d.isBlank_of_mem_text
    have hLiteral := Literal.read?_plain d.negative d.scaled
    exact strict_truthOfDecimal_of_text (strict_truthOfText_literal hBlank hLiteral h)
  | text s => exact h

end Scalar

/-! ## Cells -/

/-- A value that arrives as its text has the same truth value, or fails in the same way, under the
lenient policy. Under the strict policy a truth value of the text is that of the value. -/
theorem boolean_text_transfer (v : Scalar) (reported other : Oid) (trims : Bool) :
    let native (p : Policy) : Cell := ⟨reported, some v, ⟨p, trims⟩⟩
    let written (p : Policy) : Cell := ⟨other, some (.text v.toText), ⟨p, trims⟩⟩
    (∀ p, (native p).get .string = .ok (.present v.toText)) ∧
      ((∃ b, (native .lenient).get .boolean = .ok (.present b) ∧
          (written .lenient).get .boolean = .ok (.present b)) ∨
        ∃ text, (native .lenient).get .boolean = .error (.cannotCoerce text) ∧
          (written .lenient).get .boolean = .error (.cannotCoerce text)) ∧
      ∀ b, (written .strict).get .boolean = .ok (.present b) →
        (native .strict).get .boolean = .ok (.present b) := by
  intro native written
  have hWritten : ∀ p, (Scalar.text v.toText).get ⟨p, trims⟩ .boolean = p.truthOfText v.toText :=
    fun _ => rfl
  refine ⟨fun _ => rfl, ?_, ?_⟩
  · have hSame : (Scalar.text v.toText).get ⟨.lenient, trims⟩ .boolean =
        v.getBoolean ⟨.lenient, trims⟩ :=
      (hWritten .lenient).trans (v.lenient_truthOfText_toText rfl)
    rcases v.okOrNotCoercible_getBoolean ⟨.lenient, trims⟩ with ⟨b, hOk⟩ | ⟨text, hError⟩
    · exact Or.inl ⟨b, Cell.get_eq_present_iff.mpr hOk,
        Cell.get_eq_present_iff.mpr (hSame.trans hOk)⟩
    · exact Or.inr ⟨text, Cell.get_eq_error_iff.mpr hError,
        Cell.get_eq_error_iff.mpr (hSame.trans hError)⟩
  · intro b hText
    have hDigit : Policy.strict.truthOfText v.toText = .ok b :=
      (hWritten .strict).symm.trans (Cell.get_eq_present_iff.mp hText)
    exact Cell.get_eq_present_iff.mpr (v.strict_getBoolean_of_text rfl hDigit)

/-- The single 1 is written as a word, so it is true under the strict policy in both forms. -/
theorem boolean_text_transfer_one :
    let one : Scalar := .float4 (Binary.ofInt .single 1)
    let native : Cell := ⟨.float4, some one, ⟨.strict, true⟩⟩
    let written : Cell := ⟨.text, some (.text one.toText), ⟨.strict, true⟩⟩
    one.toText = "1" ∧ written.get .boolean = .ok (.present true) ∧
      native.get .boolean = .ok (.present true) := by
  intro one native written
  have hWritten : written.get .boolean = .ok (.present true) := by decide +kernel
  obtain ⟨-, -, hStrict⟩ := boolean_text_transfer one .float4 .text true
  exact ⟨by decide +kernel, hWritten, hStrict true hWritten⟩

end ScalarCell
