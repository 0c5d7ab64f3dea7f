import ScalarCell.Proofs.Binary.Text
import ScalarCell.Proofs.Conversion.Literal
import ScalarCell.Proofs.Conversion.Width
import ScalarCell.Proofs.Decimal.Text

/-!
# The text of an integer

An integer is written with a sign if it is negative and without leading zeros (`intText_eq`,
`head_digits`). Whatever reads numbers out of text takes it for the same integer: as an integer of
any width (`Integer.ofText_text`), as a decimal (`Decimal.read?_text_integer`), as a double
(`Binary.read?_intText`) and as a truth value (`Policy.truthOfText_intText`).
`integer_text_transfer` puts this into terms of cells.
-/

namespace ScalarCell

namespace Numeral

theorem head_digits {n : ℕ} (hn : n ≠ 0) : (digits n).head? ≠ some '0' := by
  induction n using Nat.strongRecOn with
  | ind n ih =>
    rcases Nat.lt_or_ge n 10 with hSmall | hLarge
    · have hDigit : ∀ m < 10, m ≠ 0 → [m.digitChar].head? ≠ some '0' := by decide
      have hOne : digits n = [n.digitChar] := Nat.toDigits_of_lt_base hSmall
      rw [hOne]
      exact hDigit n hSmall hn
    · have hMore : digits n = digits (n / 10) ++ [(n % 10).digitChar] :=
        Nat.toDigits_of_base_le (by decide) hLarge
      rw [hMore, List.head?_append_of_ne_nil _ (digits_ne_nil _)]
      exact ih (n / 10) (by omega) (by omega)

theorem head_digits_eq_zero {n : ℕ} (h : (digits n).head? = some '0') : digits n = ['0'] := by
  by_cases hn : n = 0
  · rw [hn]
    rfl
  · exact absurd h (head_digits hn)

theorem intText_eq (n : ℤ) :
    intText n = (if decide (n < 0) then ['-'] else []) ++ digits n.natAbs := by
  unfold intText
  simp only [decide_eq_true_eq]
  split <;> rfl

theorem Literal.read?_intText (n : ℤ) :
    read? (intText n) = some ⟨decide (n < 0), digits n.natAbs, [], 0⟩ := by
  have hRead := read?_numeral (decide (n < 0)) (isRun_digits n.natAbs) allDigits_nil
    endsNumeral_nil
  have hNothing : pointed [] ++ ([] : List Char) = [] := rfl
  rw [hNothing, List.append_nil, ← intText_eq] at hRead
  exact hRead

theorem Literal.magnitude_intText (n : ℤ) :
    (⟨decide (n < 0), digits n.natAbs, [], 0⟩ : Literal).scaled.magnitude = (n.natAbs : ℚ) := by
  simp only [scaled, Scaled.magnitude, List.append_nil, value_digits, List.length_nil,
    Nat.cast_zero, sub_zero, zpow_zero, mul_one]

/-- Two integers with one text are equal, and the text says which. -/
theorem eq_of_intText_eq {n m : ℤ} {cs : List Char} (hText : intText n = cs)
    (hInteger : readInt? cs = some m) : n = m := by
  rw [← hText, readInt?_intText] at hInteger
  exact Option.some.inj hInteger

end Numeral

open Numeral

/-! ## Readers -/

namespace Binary

theorem read?_intText (n : ℤ) : read? .double (intText n) = some (ofInt .double n) := by
  rw [read?_of_literal .double (Literal.read?_intText n), Literal.magnitude_intText]
  rfl

end Binary

theorem isBlank_of_mem_intText {n : ℤ} {c : Char} (h : c ∈ intText n) : Text.isBlank c = false := by
  rw [intText_eq] at h
  refine (List.mem_append.mp h).elim Text.isBlank_of_mem_sign fun hDigit => ?_
  exact Text.isBlank_of_isDigit (isDigit_of_mem_digits hDigit)

namespace Decimal

variable {w : Width} (i : Integer w)

theorem text_ofInteger : (ofInteger i).text = i.text := by
  have hPlain : (ofInteger i).scaled.plain = digits i.val.natAbs := List.append_nil _
  rw [text, hPlain, Integer.text, intText_eq]
  rfl

theorem truncate_ofInteger : (ofInteger i).truncate = i.val := by
  have hUnit : i.val.natAbs / Nat.pow 10 0 = i.val.natAbs := Nat.div_one _
  simp only [truncate, ofInteger, applySign, hUnit, decide_eq_true_eq]
  omega

theorem toRat_ofInteger : (ofInteger i).toRat = i.val := by
  have hMagnitude : (ofInteger i).scaled.magnitude = (i.val.natAbs : ℚ) := by
    simp only [Scaled.magnitude, scaled, ofInteger, Nat.cast_zero, neg_zero, zpow_zero, mul_one]
  have hCast : (i.val.natAbs : ℚ) = ((i.val.natAbs : ℤ) : ℚ) := (Int.cast_natCast _).symm
  rw [toRat, hMagnitude, hCast]
  simp only [ofInteger, decide_eq_true_eq]
  split
  · have hAbs : (i.val.natAbs : ℤ) = -i.val := by omega
    rw [hAbs, Int.cast_neg, neg_neg]
  · have hAbs : (i.val.natAbs : ℤ) = i.val := by omega
    rw [hAbs]

theorem read?_text_integer : read? i.text = some (ofInteger i) := by
  have hUnsigned : (ofInteger i).unsignedZero = ofInteger i := by
    have hSign : (decide (i.val < 0) && i.val.natAbs != 0) = decide (i.val < 0) := by
      by_cases hNegative : i.val < 0
      · have hNonzero : i.val.natAbs ≠ 0 := by omega
        rw [bne_iff_ne.mpr hNonzero, Bool.and_true]
      · rw [decide_eq_false hNegative, Bool.false_and]
    simp only [unsignedZero, ofInteger, hSign]
  rw [← text_ofInteger, read?_text, hUnsigned]

end Decimal

namespace Integer

/-- The text is converted as the integer is. -/
theorem ofText_text (w : Width) {w' : Width} (i : Integer w') :
    ofText w i.text = narrow w i.val := by
  rw [← Decimal.text_ofInteger, Decimal.ofText_text, ofDecimal, checkedWithinLong_eq,
    Decimal.truncate_ofInteger, Decimal.text_ofInteger]
  rfl

end Integer

namespace Policy

theorem truthOfText_intText (p : Policy) (n : ℤ) :
    p.truthOfText (String.ofList (intText n)) = p.truthOfInt n := by
  have hBlank : ∀ c ∈ intText n, Text.isBlank c = false := fun _ => isBlank_of_mem_intText
  cases p with
  | lenient =>
    rw [lenient_truthOfText_literal hBlank (Literal.read?_intText n), Literal.magnitude_intText]
    by_cases hZero : n = 0
    · subst hZero
      exact lenient_truthOfDouble_zero false
    · have hOne : (1 : ℚ) ≤ n.natAbs := by exact_mod_cast Int.natAbs_pos.mpr hZero
      have hLeast := (Binary.Format.zpow_minExponent_le_one .double).trans hOne
      rw [lenient_truthOfDouble_of_least _ hLeast, truthOfInt, if_neg hZero, ite_self]
  | strict =>
    have hTrim := Text.trim_ofList_of_all hBlank
    by_cases hZero : n = 0
    · subst hZero
      rfl
    · by_cases hOne : n = 1
      · subst hOne
        rfl
      · have hTrue : isWord trueWords (Text.trim (String.ofList (intText n))).toList ≠ true := by
          intro hWord
          have hText := eq_of_trueWord (Literal.read?_intText n) (hTrim ▸ hWord)
          exact hOne (eq_of_intText_eq hText rfl)
        have hFalse : isWord falseWords (Text.trim (String.ofList (intText n))).toList ≠ true := by
          intro hWord
          have hText := eq_of_falseWord (Literal.read?_intText n) (hTrim ▸ hWord)
          exact hZero (eq_of_intText_eq hText rfl)
        rw [strict_truthOfText hTrue hFalse, truthOfInt, if_neg hZero, if_neg hOne]
        rfl

end Policy

/-! ## Cells -/

namespace Scalar

variable {v : Scalar} {w : Width} {i : Integer w}

/-- The views of the value `v` are those of the integer `i`, but for the byte of an `int2`. -/
structure ViewsOf (v : Scalar) (i : Integer w) : Prop where
  toText : v.toText = String.ofList i.text
  getBoolean (config : Config) : v.getBoolean config = config.policy.truthOfInt i.val
  getIntegral (config : Config) (w' : Width) :
    (w' = .byte → ∀ m, v ≠ .int2 m) → v.getIntegral config w' = Integer.narrow w' i.val
  getDecimal (config : Config) : v.getDecimal config = .ok (Decimal.ofInteger i)
  getDouble (config : Config) : v.getDouble config = .ok (Binary.ofInt .double i.val)

theorem exists_viewsOf {n : ℤ} (h : v.integer? = some n) :
    ∃ (w : Width) (i : Integer w), i.val = n ∧ v.ViewsOf i := by
  cases v
  case int2 i | int4 i | int8 i =>
    exact ⟨_, i, Option.some.inj h, rfl, fun _ => rfl,
      fun config _ => getIntegral_eq_narrow config, fun _ => rfl, fun _ => rfl⟩
  all_goals cases h

theorem viewsOf_text (i : Integer w) : (text (String.ofList i.text)).ViewsOf i := by
  have hNumber : ∀ config, numericText config (String.ofList i.text) = i.text := fun config =>
    numericText_ofList config fun _ => isBlank_of_mem_intText
  constructor
  case toText => rfl
  case getBoolean => exact fun config => config.policy.truthOfText_intText i.val
  case getIntegral =>
    intro config w' _
    exact (congrArg (Integer.ofText w') (hNumber config)).trans (Integer.ofText_text w' i)
  case getDecimal =>
    intro config
    refine (congrArg Decimal.ofText (hNumber config)).trans ?_
    rw [Decimal.ofText, Decimal.read?_text_integer]
  case getDouble =>
    intro config
    refine (congrArg (Binary.doubleOfText .double) (hNumber config)).trans ?_
    rw [Binary.doubleOfText, Integer.text, Binary.read?_intText]

end Scalar

/-- An integer that arrives as its text reads as it does natively: the same truth value, the same
integers, the same decimal and double, and the same failures. The text is a minus sign for a
negative integer and its digits without leading zeros. The byte of an `int2` is left out: natively
it keeps the low eight bits, and in the text its range is checked. -/
theorem integer_text_transfer {v : Scalar} {n : ℤ} (hInteger : v.integer? = some n)
    (reported other : Oid) (config : Config) :
    let native : Cell := ⟨reported, some v, config⟩
    let written : Cell := ⟨other, some (.text v.toText), config⟩
    (∃ run, native.get .string =
        .ok (.present (String.ofList ((if n < 0 then ['-'] else []) ++ run))) ∧
      isRun run = true ∧ value run = n.natAbs ∧ (run.head? = some '0' → run = ['0'])) ∧
    native.get .string = .ok (.present v.toText) ∧
    written.get .boolean = native.get .boolean ∧
    (∀ w, (w = .byte → ∀ m, v ≠ .int2 m) →
      written.get (.integral w) = native.get (.integral w)) ∧
    (∃ d : Decimal, native.get .decimal = .ok (.present d) ∧ d.scale = 0 ∧ d.toRat = n ∧
      written.get .decimal = .ok (.present d)) ∧
    native.get .double = .ok (.present (Binary.ofInt .double n)) ∧
    written.get .double = .ok (.present (Binary.ofInt .double n)) := by
  intro native written
  obtain ⟨w, i, rfl, hNative⟩ := Scalar.exists_viewsOf hInteger
  have hWritten : (Scalar.text v.toText).ViewsOf i := hNative.toText ▸ Scalar.viewsOf_text i
  refine ⟨⟨digits i.val.natAbs, ?_, isRun_digits _, value_digits _, head_digits_eq_zero⟩, rfl, ?_,
    fun w' hChecked => ?_, ?_, ?_, ?_⟩
  · refine Cell.get_eq_present_iff.mpr (congrArg Except.ok (hNative.toText.trans ?_))
    rw [Integer.text, intText_eq]
    simp only [decide_eq_true_eq]
  · exact Cell.get_congr ((hWritten.getBoolean config).trans (hNative.getBoolean config).symm)
  · have hText := hWritten.getIntegral config w' fun _ _ h => by cases h
    exact Cell.get_congr (hText.trans (hNative.getIntegral config w' hChecked).symm)
  · exact ⟨Decimal.ofInteger i, Cell.get_eq_present_iff.mpr (hNative.getDecimal config), rfl,
      Decimal.toRat_ofInteger i, Cell.get_eq_present_iff.mpr (hWritten.getDecimal config)⟩
  · exact Cell.get_eq_present_iff.mpr (hNative.getDouble config)
  · exact Cell.get_eq_present_iff.mpr (hWritten.getDouble config)

/-- The least `int8` keeps its failures: no truth value under the strict policy, and no byte. -/
theorem integer_text_transfer_least :
    let least : Scalar := .int8 ⟨-9223372036854775808, by decide⟩
    let strictly : Config := { Config.default with policy := .strict }
    let written : Cell := ⟨.text, some (.text least.toText), strictly⟩
    least.integer? = some (-9223372036854775808) ∧
      (∀ m, least ≠ .int2 m) ∧
      written.get .boolean = .error (.cannotCoerce "-9223372036854775808") ∧
      written.get (.integral .byte) =
        .error ((Target.integer .byte).overflow "-9223372036854775808".toList) := by
  intro least strictly written
  have hInteger : least.integer? = some (-9223372036854775808) := rfl
  have hNotInt2 : ∀ m, least ≠ .int2 m := fun m => Scalar.noConfusion
  obtain ⟨-, -, hBoolean, hIntegral, -⟩ := integer_text_transfer hInteger .int8 .text strictly
  refine ⟨hInteger, hNotInt2, hBoolean.trans ?_, (hIntegral .byte fun _ => hNotInt2).trans ?_⟩
  · decide
  · decide

end ScalarCell
