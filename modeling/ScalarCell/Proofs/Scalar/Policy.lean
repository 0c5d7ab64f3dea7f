import ScalarCell.Proofs.Cell.Reading
import ScalarCell.Proofs.Conversion.Language

/-!
# What the policy decides

The policy decides on truth values only: every other reading is the same under both
(`Scalar.get_eq_of_ne_boolean`). A truth value under the strict policy is one under the lenient policy
(`Scalar.lenient_getBoolean_of_strict`), and the lenient policy refuses the values `WithoutTruth` and
no others (`Scalar.lenient_getBoolean_eq_error_iff`). `strict_refines_lenient` puts this into terms of
cells.
-/

namespace ScalarCell

open Binary (NumberText NaNText)
open Numeral (Sign)

namespace Policy

/-! ## Zero, one, and what is left to the policy -/

section

variable {zero one : Prop} [Decidable zero] [Decidable one]

/-- A truth value that does not come from the policy stays what it is under another one. -/
theorem ite_ok_of_refused {e : Error} {r : Except Error Bool} {b : Bool}
    (h : (if zero then .ok false else if one then .ok true else .error e) = Except.ok b) :
    (if zero then .ok false else if one then .ok true else r) = .ok b := by
  by_cases hZero : zero
  · rw [if_pos hZero] at h ⊢
    exact h
  · rw [if_neg hZero] at h ⊢
    by_cases hOne : one
    · rw [if_pos hOne] at h ⊢
      exact h
    · rw [if_neg hOne] at h
      cases h

theorem exists_ite_ok : ∃ b,
    (if zero then .ok false else if one then .ok true else .ok true : Except Error Bool) = .ok b := by
  split
  · exact ⟨false, rfl⟩
  · exact ⟨true, ite_self _⟩

end

theorem lenient_truthOfInt_of_strict {n : ℤ} {b : Bool} (h : strict.truthOfInt n = .ok b) :
    lenient.truthOfInt n = .ok b := by
  unfold truthOfInt at h ⊢
  exact ite_ok_of_refused h

theorem lenient_truthOfDecimal_of_strict {d : Decimal} {b : Bool}
    (h : strict.truthOfDecimal d = .ok b) : lenient.truthOfDecimal d = .ok b := by
  unfold truthOfDecimal at h ⊢
  exact ite_ok_of_refused h

theorem lenient_truthOfDouble_of_strict {x : Binary.Double} {b : Bool}
    (h : strict.truthOfDouble x = .ok b) : lenient.truthOfDouble x = .ok b := by
  have hStrict : ¬(strict = lenient ∧ !x.isNaN) := fun hBoth => nomatch hBoth.1
  unfold truthOfDouble at h ⊢
  rw [if_neg hStrict] at h
  exact ite_ok_of_refused h

theorem lenient_truthOfText_of_strict {s : String} {b : Bool} (h : strict.truthOfText s = .ok b) :
    lenient.truthOfText s = .ok b := by
  by_cases hTrue : isWord trueWords (Text.trim s).toList = true
  · rw [truthOfText_of_trueWord hTrue] at h ⊢
    exact h
  · by_cases hFalse : isWord falseWords (Text.trim s).toList = true
    · rw [truthOfText_of_falseWord hTrue hFalse] at h ⊢
      exact h
    · rw [strict_truthOfText hTrue hFalse] at h
      cases h

theorem exists_lenient_truthOfInt (n : ℤ) : ∃ b, lenient.truthOfInt n = .ok b := by
  unfold truthOfInt
  exact exists_ite_ok

theorem exists_lenient_truthOfDecimal (d : Decimal) : ∃ b, lenient.truthOfDecimal d = .ok b := by
  unfold truthOfDecimal
  exact exists_ite_ok

end Policy

/-! ## Values -/

namespace Scalar

open Policy

/-- The values without a truth value, and what their failure shows: NaN, also in a text, and every
text that is neither a word nor a number, up to blanks around it. -/
inductive WithoutTruth : Scalar → String → Prop where
  | single : WithoutTruth (.float4 .nan) "NaN"
  | double : WithoutTruth (.float8 .nan) "NaN"
  | nan {s : String} (hNaN : NaNText (Text.trim s).toList) : WithoutTruth (.text s) "NaN"
  | text {s : String} (hTrue : isWord trueWords (Text.trim s).toList ≠ true)
    (hFalse : isWord falseWords (Text.trim s).toList ≠ true)
    (hNumber : ¬NumberText (Text.trim s).toList) (hNaN : ¬NaNText (Text.trim s).toList) :
    WithoutTruth (.text s) s

variable {v : Scalar} {trims : Bool}

theorem lenient_getBoolean_of_strict {b : Bool} (h : v.getBoolean ⟨.strict, trims⟩ = .ok b) :
    v.getBoolean ⟨.lenient, trims⟩ = .ok b := by
  unfold getBoolean at h ⊢
  cases v with
  | bool a => exact h
  | int2 n => exact lenient_truthOfInt_of_strict h
  | int4 n => exact lenient_truthOfInt_of_strict h
  | int8 n => exact lenient_truthOfInt_of_strict h
  | float4 x => exact lenient_truthOfDouble_of_strict h
  | float8 x => exact lenient_truthOfDouble_of_strict h
  | numeric d => exact lenient_truthOfDecimal_of_strict h
  | text s => exact lenient_truthOfText_of_strict h

theorem WithoutTruth.getBoolean {shown : String} (h : v.WithoutTruth shown) :
    v.getBoolean ⟨.lenient, trims⟩ = .error (.cannotCoerce shown) := by
  unfold Scalar.getBoolean
  cases h with
  | single => exact lenient_truthOfDouble_nan
  | double => exact lenient_truthOfDouble_nan
  | nan hNaN => exact lenient_truthOfText_of_nanText hNaN
  | text hTrue hFalse hNumber hNaN => exact lenient_truthOfText_of_other hTrue hFalse hNumber hNaN

/-- Every value has a truth value under the lenient policy, or is one of those without. -/
theorem exists_getBoolean_or_withoutTruth (v : Scalar) (trims : Bool) :
    (∃ b, v.getBoolean ⟨.lenient, trims⟩ = .ok b) ∨ ∃ shown, v.WithoutTruth shown := by
  cases v with
  | bool b => exact Or.inl ⟨b, rfl⟩
  | int2 n => exact Or.inl (exists_lenient_truthOfInt n.val)
  | int4 n => exact Or.inl (exists_lenient_truthOfInt n.val)
  | int8 n => exact Or.inl (exists_lenient_truthOfInt n.val)
  | numeric d => exact Or.inl (exists_lenient_truthOfDecimal d)
  | float4 x =>
    cases x with
    | nan => exact Or.inr ⟨_, .single⟩
    | infinity s => exact Or.inl (exists_lenient_truthOfDouble rfl)
    | finite y => exact Or.inl (exists_lenient_truthOfDouble (Binary.isNaN_nearest _ _))
  | float8 x =>
    cases x with
    | nan => exact Or.inr ⟨_, .double⟩
    | infinity s => exact Or.inl (exists_lenient_truthOfDouble rfl)
    | finite y => exact Or.inl (exists_lenient_truthOfDouble rfl)
  | text s =>
    by_cases hNaN : NaNText (Text.trim s).toList
    · exact Or.inr ⟨_, .nan hNaN⟩
    · by_cases hOther : ∃ b, lenient.truthOfText s = .ok b
      · exact Or.inl hOther
      · rw [exists_lenient_truthOfText_iff, not_or, not_or] at hOther
        obtain ⟨hTrue, hFalse, hNumber⟩ := hOther
        exact Or.inr ⟨s, .text hTrue hFalse hNumber hNaN⟩

theorem lenient_getBoolean_eq_error_iff {e : Error} :
    v.getBoolean ⟨.lenient, trims⟩ = .error e ↔
      ∃ shown, v.WithoutTruth shown ∧ e = .cannotCoerce shown := by
  constructor
  · intro hError
    rcases v.exists_getBoolean_or_withoutTruth trims with ⟨b, hOk⟩ | ⟨shown, hShown⟩
    · cases hOk.symm.trans hError
    · exact ⟨shown, hShown, Except.error.inj (hError.symm.trans hShown.getBoolean)⟩
  · rintro ⟨shown, hShown, rfl⟩
    exact hShown.getBoolean

theorem get_eq_of_ne_boolean (p q : Policy) {k : Kind} (hKind : k ≠ .boolean) :
    v.get ⟨p, trims⟩ k = v.get ⟨q, trims⟩ k := by
  cases k with
  | boolean => exact absurd rfl hKind
  | string => rfl
  | object => rfl
  | integral w => cases v <;> rfl
  | float => cases v <;> rfl
  | double => cases v <;> rfl
  | decimal => cases v <;> rfl

end Scalar

/-! ## Cells -/

/-- What the strict policy says about a truth value the lenient one says, too. The lenient one fails
on the values without a truth value only, and apart from truth values the two read the same. -/
theorem strict_refines_lenient (reported : Oid) (value : Option Scalar) (trims : Bool) :
    let under (p : Policy) : Cell := ⟨reported, value, ⟨p, trims⟩⟩
    (∀ r, (under .strict).get .boolean = .ok r → (under .lenient).get .boolean = .ok r) ∧
      (∀ e, (under .lenient).get .boolean = .error e ↔
        ∃ v shown, value = some v ∧ v.WithoutTruth shown ∧ e = .cannotCoerce shown) ∧
      ∀ k ≠ .boolean, (under .strict).get k = (under .lenient).get k := by
  intro under
  cases value with
  | none =>
    refine ⟨fun r h => h, fun e => iff_of_false nofun ?_, fun k _ => rfl⟩
    rintro ⟨v, -, hValue, -⟩
    cases hValue
  | some v =>
    refine ⟨fun r h => ?_, fun e => ?_, fun k hKind => ?_⟩
    · obtain ⟨b, rfl, hStrict⟩ := Cell.exists_of_get_eq_ok h
      exact Cell.get_eq_present_iff.mpr (Scalar.lenient_getBoolean_of_strict hStrict)
    · refine Cell.get_eq_error_iff.trans (Scalar.lenient_getBoolean_eq_error_iff.trans ?_)
      constructor
      · rintro ⟨shown, hShown, he⟩
        exact ⟨v, shown, rfl, hShown, he⟩
      · rintro ⟨w, shown, hValue, hShown, he⟩
        exact ⟨shown, Option.some.inj hValue ▸ hShown, he⟩
    · exact Cell.get_congr (Scalar.get_eq_of_ne_boolean .strict .lenient hKind)

/-- NaN in a text, with a sign and between blanks: the failure shows neither. -/
theorem strict_refines_lenient_at_nan :
    let under (p : Policy) : Cell := ⟨.text, some (.text " -nan "), ⟨p, true⟩⟩
    (under .lenient).get .boolean = .error (.cannotCoerce "NaN") ∧
      (under .strict).get .double = (under .lenient).get .double := by
  intro under
  have hTrim : (Text.trim " -nan ").toList = Sign.minus.text ++ "nan".toList := by decide
  have hNaN : NaNText (Text.trim " -nan ").toList := ⟨.minus, "nan".toList, hTrim, by decide⟩
  obtain ⟨-, hError, hSame⟩ := strict_refines_lenient .text (some (.text " -nan ")) true
  exact ⟨(hError _).mpr ⟨_, _, rfl, .nan hNaN, rfl⟩, hSame .double nofun⟩

end ScalarCell
