import ScalarCell.Proofs.Conversion.Language
import ScalarCell.Proofs.Decimal.Language
import ScalarCell.Proofs.Integer.Reader

/-!
# The number grammars of text

A text is read as a decimal or an integer by one grammar, as a floating-point number by another, and
as a truth value by a third that has words besides. What the first one accepts the other two accept
as well if it is an ordinary text, and not otherwise (`number_grammars_agree_iff`).
`separated_digits_not_double` is a text on which they part.
-/

namespace ScalarCell

open Numeral

/-- The cell has a value of the kind. -/
def Cell.Accepts (c : Cell) (k : Kind) : Prop := ∃ a, c.get k = .ok (.present a)

theorem Cell.accepts_iff {o : Oid} {v : Scalar} {config : Config} {k : Kind} :
    (⟨o, some v, config⟩ : Cell).Accepts k ↔ ∃ a, v.get config k = .ok a :=
  exists_congr fun _ => get_eq_present_iff

/-! ## The readers -/

section

variable {cs : List Char}

theorem Decimal.read?_of_ofText {d : Decimal} (h : ofText cs = .ok d) : read? cs = some d := by
  unfold ofText at h
  split at h
  · next e he => rw [he, Except.ok.inj h]
  · cases h

/-- An integer in a text is one through a decimal. -/
theorem Integer.exists_read?_of_ofText {w : Width} {i : Integer w} (h : ofText w cs = .ok i) :
    ∃ d, Decimal.read? cs = some d := by
  rw [ofText_eq_throughDecimal, throughDecimal] at h
  split at h
  · cases h
  · next d hd => exact ⟨d, Decimal.read?_of_ofText hd⟩

theorem Binary.doubleOfText_eq_ok_iff {t : Target} {x : Binary.Double} :
    doubleOfText t cs = .ok x ↔ read? .double cs = some x := by
  unfold doubleOfText
  split
  · next y hy => rw [hy, Except.ok.injEq, Option.some.injEq]
  · next hNone =>
    rw [hNone]
    exact iff_of_false nofun nofun

theorem Binary.exists_singleOfText_iff :
    (∃ y, singleOfText cs = .ok y) ↔ ∃ x, read? .double cs = some x := by
  constructor
  · rintro ⟨y, hSingle⟩
    unfold singleOfText at hSingle
    cases hDouble : doubleOfText .float cs with
    | error e =>
      rw [hDouble] at hSingle
      cases hSingle
    | ok x => exact ⟨x, doubleOfText_eq_ok_iff.mp hDouble⟩
  · rintro ⟨x, hRead⟩
    refine ⟨convert .single x, ?_⟩
    rw [singleOfText, doubleOfText_eq_ok_iff.mpr hRead]
    rfl

/-- Of what is read as a decimal, the ordinary texts are read as doubles. -/
theorem Binary.exists_read?_iff_ordinary {d : Decimal} (h : Decimal.read? cs = some d) :
    (∃ x, read? .double cs = some x) ↔ Ordinary cs := by
  constructor
  · rintro ⟨x, hRead⟩
    exact ordinary_of_read? hRead
  · intro hOrdinary
    obtain ⟨w, rfl⟩ := Decimal.exists_written_of_read? h hOrdinary
    exact ⟨_, read?_written w⟩

end

/-- A text that is read as a decimal has no blanks, whether it is trimmed or not. -/
theorem Scalar.trim_of_read? {s : String} {config : Config} {d : Decimal}
    (h : Decimal.read? (numericText config s) = some d) :
    (Text.trim s).toList = numericText config s := by
  unfold numericText at h ⊢
  split
  · rfl
  · next hUntrimmed =>
    rw [if_neg hUntrimmed] at h
    have hTrim := Text.trim_ofList_of_all fun _ => Decimal.isBlank_of_read? h
    rwa [String.ofList_toList] at hTrim

theorem Policy.exists_truthOfText_iff_ordinary {s : String} {d : Decimal}
    (h : Decimal.read? (Text.trim s).toList = some d) :
    (∃ b, lenient.truthOfText s = .ok b) ↔ Ordinary (Text.trim s).toList := by
  constructor
  · rintro ⟨b, hb⟩
    exact ordinary_of_lenient_truthOfText hb
  · intro hOrdinary
    obtain ⟨w, hText⟩ := Decimal.exists_written_of_read? h hOrdinary
    exact exists_lenient_truthOfText_of_numberText (hText ▸ .written w)

/-! ## Cells -/

theorem Scalar.exists_read?_of_accepts {s : String} {reported : Oid} {config : Config}
    (h : (⟨reported, some (.text s), config⟩ : Cell).Accepts .decimal ∨
      (⟨reported, some (.text s), config⟩ : Cell).Accepts (.integral .long)) :
    ∃ d, Decimal.read? (numericText config s) = some d := by
  rw [Cell.accepts_iff, Cell.accepts_iff] at h
  rcases h with ⟨d, hDecimal⟩ | ⟨i, hLong⟩
  · exact ⟨d, Decimal.read?_of_ofText hDecimal⟩
  · exact Integer.exists_read?_of_ofText hLong

/-- A text that is accepted as a decimal, or as an integer of 64 bits, is accepted as a double, as a
single and, under the lenient policy, as a truth value exactly if there is no underscore in it and
no plus sign right behind a minus. -/
theorem number_grammars_agree_iff {s : String} {reported : Oid} {config : Config}
    (h : (⟨reported, some (.text s), config⟩ : Cell).Accepts .decimal ∨
      (⟨reported, some (.text s), config⟩ : Cell).Accepts (.integral .long)) :
    let cell : Cell := ⟨reported, some (.text s), config⟩
    let ordinary := Ordinary (Scalar.numericText config s)
    (cell.Accepts .double ↔ ordinary) ∧ (cell.Accepts .float ↔ ordinary) ∧
      (config.policy = .lenient → (cell.Accepts .boolean ↔ ordinary)) := by
  intro cell ordinary
  obtain ⟨d, hDecimal⟩ := Scalar.exists_read?_of_accepts h
  have hDouble := Binary.exists_read?_iff_ordinary hDecimal
  refine ⟨?_, ?_, fun hLenient => ?_⟩
  · exact Cell.accepts_iff.trans ((exists_congr fun _ => Binary.doubleOfText_eq_ok_iff).trans hDouble)
  · exact Cell.accepts_iff.trans (Binary.exists_singleOfText_iff.trans hDouble)
  · have hTrim := Scalar.trim_of_read? hDecimal
    rw [← hTrim] at hDecimal
    have hBoolean := Policy.exists_truthOfText_iff_ordinary hDecimal
    rw [hTrim, ← hLenient] at hBoolean
    exact Cell.accepts_iff.trans hBoolean

/-- A bare point and a sign in the exponent are accepted by all of them. -/
theorem number_grammars_agree_at_bare_point :
    let cell : Cell := ⟨.text, some (.text " +12.e+1 "), .default⟩
    cell.Accepts .decimal ∧ cell.Accepts .double ∧ cell.Accepts .float ∧ cell.Accepts .boolean := by
  intro cell
  have hDecimal : cell.Accepts .decimal := by
    refine Cell.accepts_iff.mpr ⟨⟨false, 120, 0, by decide, by decide⟩, ?_⟩
    decide
  have hOrdinary : Ordinary (Scalar.numericText .default " +12.e+1 ") := by decide
  obtain ⟨hDouble, hFloat, hBoolean⟩ := number_grammars_agree_iff (Or.inl hDecimal)
  exact ⟨hDecimal, hDouble.mpr hOrdinary, hFloat.mpr hOrdinary, (hBoolean rfl).mpr hOrdinary⟩

/-- Digits with a separator between them: a decimal and an integer, but no floating-point number and
no truth value. -/
theorem separated_digits_not_double :
    let cell : Cell := ⟨.text, some (.text "1_000"), .default⟩
    cell.get .decimal = .ok (.present (Decimal.ofInteger (w := .long) ⟨1000, by decide⟩)) ∧
      cell.get (.integral .long) = .ok (.present ⟨1000, by decide⟩) ∧
      cell.get .double = .error (Target.double.badText "1_000".toList) ∧
      cell.get .float = .error (Target.float.badText "1_000".toList) ∧
      cell.get .boolean = .error (.cannotCoerce "1_000") := by
  decide

end ScalarCell
