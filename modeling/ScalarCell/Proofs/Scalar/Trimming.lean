import ScalarCell.Proofs.Scalar.Grammar
import ScalarCell.Proofs.Text.Trim

/-!
# What trimming decides

Trimming is for the numbers in a text and for nothing else (`trimming_governs_numbers`). All numeric
kinds read a text through `Scalar.numericText` only (`Scalar.get_text_congr`), and none of the number
grammars has a blank in it, neither that of decimals (`Decimal.isBlank_of_read?`) nor that of
floating-point numbers (`Binary.isBlank_of_read?`). So a blank that trimming leaves in place makes
every one of them fail, and the failure shows the text (`Scalar.get_text_of_blank`).
-/

namespace ScalarCell

open Numeral

/-! ## Texts of numbers -/

namespace Text

theorem isAlpha_of_isBlank {c : Char} (h : isBlank c = true) : c.isAlpha = false := by
  simp only [isBlank, blankRanges, List.any_cons, List.any_nil, Bool.or_false, Bool.or_eq_true,
    Bool.and_eq_true, decide_eq_true_eq] at h
  rw [Bool.eq_false_iff]
  intro hAlpha
  have := toNat_of_isAlpha hAlpha
  omega

theorem isBlank_toLower {c : Char} (h : isBlank c = true) : isBlank c.toLower = true := by
  rwa [toLower_of_not_isAlpha (isAlpha_of_isBlank h)]

/-- A text that is a word up to case has no blanks if the word has none. -/
theorem isBlank_of_sameLetters {cs word : List Char} (h : sameLetters cs word = true)
    (hWord : (word.map Char.toLower).any isBlank = false) {c : Char} (hc : c ∈ cs) :
    isBlank c = false := by
  by_contra hBlank
  rw [Bool.not_eq_false] at hBlank
  refine not_mem_of_sameLetters h (fun hMem => ?_) hc
  have hLower := isBlank_of_any _ hWord hMem
  rw [isBlank_toLower hBlank] at hLower
  cases hLower

end Text

theorem Numeral.Written.isBlank_of_mem_text (w : Written) {c : Char} (h : c ∈ w.text) :
    Text.isBlank c = false := by
  rcases List.mem_append.mp h with hBase | hExponent
  · exact w.base.isBlank_of_mem_text hBase
  · cases w with
    | positional x => cases hExponent
    | scientific x =>
      rcases List.mem_cons.mp hExponent with rfl | hBehind
      · rcases x.mark_eq with hMark | hMark <;> rw [hMark] <;> rfl
      · rcases List.mem_append.mp hBehind with hSign | hPlaces
        · exact Decimal.isBlank_of_mem_sign hSign
        · exact Text.isBlank_of_isDigit ((isRun_iff.mp x.isRun_places).2 c hPlaces)

/-- What is read as a floating-point number has no blanks. -/
theorem Binary.isBlank_of_read? {F : Format} [F.Proper] {cs : List Char} {x : Binary F}
    (h : read? F cs = some x) {c : Char} (hc : c ∈ cs) : Text.isBlank c = false := by
  rcases numberText_or_nanText h with ⟨-, ⟨w⟩ | ⟨sign, hWord⟩⟩ | ⟨-, sign, word, rfl, hWord⟩
  · exact w.isBlank_of_mem_text hc
  · refine (List.mem_append.mp hc).elim Decimal.isBlank_of_mem_sign fun hMem => ?_
    exact hWord.elim (fun hInf => Text.isBlank_of_sameLetters hInf (by decide) hMem)
      fun hInfinity => Text.isBlank_of_sameLetters hInfinity (by decide) hMem
  · refine (List.mem_append.mp hc).elim Decimal.isBlank_of_mem_sign fun hMem => ?_
    exact Text.isBlank_of_sameLetters hWord (by decide) hMem

/-! ## Readers on a text with a blank -/

section

variable {cs : List Char} {c : Char} (hc : c ∈ cs) (hBlank : Text.isBlank c = true)

include hc hBlank

theorem Decimal.ofText_of_blank : ofText cs = .error (Target.decimal.badText cs) := by
  have hNone : read? cs = none := by
    rw [Option.eq_none_iff_forall_ne_some]
    intro d hRead
    rw [isBlank_of_read? hRead hc] at hBlank
    cases hBlank
  rw [ofText, hNone]

theorem Integer.ofText_of_blank (w : Width) :
    ofText w cs = .error ((Target.integer w).badText cs) := by
  rw [ofText_eq_throughDecimal, throughDecimal, Decimal.ofText_of_blank hc hBlank]

theorem Binary.doubleOfText_of_blank (t : Target) : doubleOfText t cs = .error (t.badText cs) := by
  have hNone : read? .double cs = none := by
    rw [Option.eq_none_iff_forall_ne_some]
    intro x hRead
    rw [isBlank_of_read? hRead hc] at hBlank
    cases hBlank
  rw [doubleOfText, hNone]

theorem Binary.singleOfText_of_blank : singleOfText cs = .error (Target.float.badText cs) := by
  rw [singleOfText, doubleOfText_of_blank hc hBlank]
  rfl

end

/-! ## Numeric kinds -/

/-- The target of a numeric kind. The other kinds have none. -/
def Kind.target? : Kind → Option Target
  | integral w => some (.integer w)
  | float => some .float
  | double => some .double
  | decimal => some .decimal
  | _ => none

namespace Scalar

variable {k : Kind} {t : Target} {s : String} {config : Config}

theorem numericText_trimmed (p : Policy) (s : String) :
    numericText ⟨p, true⟩ s = (Text.trim s).toList := rfl

theorem numericText_pad (p : Policy) {before after : String} (hBefore : Text.AllBlank before.toList)
    (hAfter : Text.AllBlank after.toList) (s : String) :
    numericText ⟨p, true⟩ (before ++ s ++ after) = numericText ⟨p, true⟩ s := by
  rw [numericText_trimmed, numericText_trimmed, Text.trim_toList, Text.trim_toList,
    String.toList_append, String.toList_append, List.append_assoc]
  exact ((Text.trimmed_trim s.toList).pad hBefore hAfter).trim_eq

/-- A number depends on the text that is left for it, and not on the settings otherwise. -/
theorem get_text_congr {other : Config} {r : String} (hTarget : k.target? = some t)
    (h : numericText config s = numericText other r) :
    (text s).get config k = (text r).get other k := by
  cases k with
  | integral w => exact congrArg (Integer.ofText w) h
  | float => exact congrArg Binary.singleOfText h
  | double => exact congrArg (Binary.doubleOfText .double) h
  | decimal => exact congrArg Decimal.ofText h
  | string => cases hTarget
  | boolean => cases hTarget
  | object => cases hTarget

theorem get_text_of_blank (hTarget : k.target? = some t) {c : Char} (hc : c ∈ numericText config s)
    (hBlank : Text.isBlank c = true) :
    (text s).get config k = .error (t.badText (numericText config s)) := by
  cases k with
  | integral w =>
    cases hTarget
    exact Integer.ofText_of_blank hc hBlank w
  | float =>
    cases hTarget
    exact Binary.singleOfText_of_blank hc hBlank
  | double =>
    cases hTarget
    exact Binary.doubleOfText_of_blank hc hBlank .double
  | decimal =>
    cases hTarget
    exact Decimal.ofText_of_blank hc hBlank
  | string => cases hTarget
  | boolean => cases hTarget
  | object => cases hTarget

theorem get_eq_of_no_number {v : Scalar} (p : Policy) (h : k.target? = none ∨ ∀ s, v ≠ text s) :
    v.get ⟨p, true⟩ k = v.get ⟨p, false⟩ k := by
  rcases h with hTarget | hValue
  · cases k with
    | string => rfl
    | boolean => rfl
    | object => rfl
    | integral w => cases hTarget
    | float => cases hTarget
    | double => cases hTarget
    | decimal => cases hTarget
  · cases v with
    | text s => exact absurd rfl (hValue s)
    | bool b => cases k <;> rfl
    | int2 n => cases k <;> rfl
    | int4 n => cases k <;> rfl
    | int8 n => cases k <;> rfl
    | float4 x => cases k <;> rfl
    | float8 x => cases k <;> rfl
    | numeric d => cases k <;> rfl

end Scalar

/-! ## Cells -/

/-- With trimming, blanks around a text do not matter to the numbers in it, whether they are read or
fail: each is what the text without them gives. Without trimming, no number is read from a text with
a blank in it, at either end or elsewhere, and the failure shows the text as it stands. Nothing else
depends on the setting: no text, truth value or whole object, and no number from a value that is not
text. -/
theorem trimming_governs_numbers (reported : Oid) (p : Policy) :
    let trimmed (value : Option Scalar) : Cell := ⟨reported, value, ⟨p, true⟩⟩
    let untrimmed (value : Option Scalar) : Cell := ⟨reported, value, ⟨p, false⟩⟩
    (∀ (before s after : String) (k : Kind), k.target? ≠ none →
        Text.AllBlank before.toList → Text.AllBlank after.toList →
          (trimmed (some (.text (before ++ s ++ after)))).get k =
            (trimmed (some (.text s))).get k) ∧
      (∀ (s : String) (k : Kind), k.target? ≠ none →
        (trimmed (some (.text s))).get k = (untrimmed (some (.text (Text.trim s)))).get k) ∧
      (∀ (s : String) (k : Kind) (t : Target), k.target? = some t →
        (∃ c ∈ s.toList, Text.isBlank c = true) →
          (untrimmed (some (.text s))).get k = .error (t.badText s.toList)) ∧
      ∀ (value : Option Scalar) (k : Kind),
        (k.target? = none ∨ ∀ s, value ≠ some (.text s)) →
          (trimmed value).get k = (untrimmed value).get k := by
  intro trimmed untrimmed
  refine ⟨?_, ?_, ?_, ?_⟩
  · intro before s after k hTarget hBefore hAfter
    obtain ⟨t, ht⟩ := Option.ne_none_iff_exists'.mp hTarget
    have hText := Scalar.numericText_pad p hBefore hAfter s
    exact Cell.get_congr (Scalar.get_text_congr ht hText)
  · intro s k hTarget
    obtain ⟨t, ht⟩ := Option.ne_none_iff_exists'.mp hTarget
    have hText : Scalar.numericText ⟨p, true⟩ s = Scalar.numericText ⟨p, false⟩ (Text.trim s) := rfl
    exact Cell.get_congr (Scalar.get_text_congr ht hText)
  · rintro s k t hTarget ⟨c, hc, hBlank⟩
    have hUntrimmed : c ∈ Scalar.numericText ⟨p, false⟩ s := hc
    exact Cell.get_eq_error_iff.mpr (Scalar.get_text_of_blank hTarget hUntrimmed hBlank)
  · intro value k hOther
    cases value with
    | none => rfl
    | some v =>
      refine Cell.get_congr (Scalar.get_eq_of_no_number p ?_)
      exact hOther.imp_right fun hValue s hText => hValue s (congrArg some hText)

/-- An ideographic space and a line separator around a number that does not fit. -/
theorem trimming_governs_numbers_at_ideographic_space :
    let padded : String := "\u3000" ++ "300" ++ "\u2028"
    let cell (s : String) (trims : Bool) : Cell := ⟨.text, some (.text s), ⟨.lenient, trims⟩⟩
    (cell padded true).get (.integral .byte) = (cell "300" true).get (.integral .byte) ∧
      (cell "300" true).get (.integral .byte) =
        .error ((Target.integer .byte).overflow "300".toList) ∧
      (cell padded true).get .double = (cell (Text.trim padded) false).get .double ∧
      (cell padded false).get (.integral .byte) =
        .error ((Target.integer .byte).badText padded.toList) ∧
      (cell padded true).get .boolean = (cell padded false).get .boolean := by
  intro padded cell
  obtain ⟨hPad, hTrim, hBlank, hOther⟩ := trimming_governs_numbers .text .lenient
  have hBefore : Text.AllBlank "\u3000".toList := List.forall_mem_singleton.mpr rfl
  have hAfter : Text.AllBlank "\u2028".toList := List.forall_mem_singleton.mpr rfl
  have hMem : '\u3000' ∈ ("\u3000" ++ "300" ++ "\u2028").toList := by simp
  exact ⟨hPad _ "300" _ (.integral .byte) nofun hBefore hAfter, rfl, hTrim padded .double nofun,
    hBlank padded (.integral .byte) _ rfl ⟨_, hMem, rfl⟩,
    hOther (some (.text padded)) .boolean (Or.inl rfl)⟩

end ScalarCell
