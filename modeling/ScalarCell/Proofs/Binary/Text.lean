import ScalarCell.Proofs.Binary.Reader
import ScalarCell.Proofs.Binary.Shortest
import ScalarCell.Proofs.Cell.Reading
import ScalarCell.Proofs.Numeral.Literal
import ScalarCell.Proofs.Text.Blank

/-!
# Floating-point numbers survive their text

Both layouts of the shortest digits denote the same number, and it reads back as the number that was
written (`read?_render`). Which layout is used depends on the exponent of the first digit alone
(`plainForm_render_iff`, `exponentForm_render_iff`). `double_text_transfer` puts this into terms of
cells.
-/

namespace ScalarCell.Binary

open Numeral

/-! ## The two layouts -/

/-- Every place is written. -/
def PlainForm (text : List Char) : Prop :=
  ∃ negative whole fraction, isRun whole = true ∧ AllDigits fraction ∧
    text = signText negative ++ (whole ++ pointed fraction)

/-- One digit before the point, and the exponent `e` with its sign and at least two digits. -/
def ExponentForm (e : ℤ) (text : List Char) : Prop :=
  ∃ negative lead fraction run, lead.isDigit = true ∧ AllDigits fraction ∧ AllDigits run ∧
    2 ≤ run.length ∧ value run = e.natAbs ∧
    text = signText negative ++
      lead :: (pointed fraction ++ 'e' :: (if e < 0 then '-' else '+') :: run)

theorem plainForm_plain (negative : Bool) (c : Scaled) : PlainForm (signText negative ++ c.plain) :=
  ⟨negative, c.wholePart, c.fractionPart, c.isRun_wholePart, c.allDigits_fractionPart,
    by rw [c.plain_eq]⟩

theorem exponentForm_withExponent (negative : Bool) (c : Scaled) :
    ExponentForm c.leadingExponent (signText negative ++ c.withExponent) := by
  obtain ⟨lead, fraction, hDigits⟩ := List.exists_cons_of_ne_nil (digits_ne_nil c.coefficient)
  obtain ⟨hLead, hFraction⟩ := allDigits_cons.mp (hDigits ▸ allDigits_digits c.coefficient)
  have hRun := (isRun_iff.mp (Scaled.isRun_paddedDigits c.leadingExponent.natAbs)).2
  refine ⟨negative, lead, fraction, Scaled.paddedDigits c.leadingExponent.natAbs, hLead, hFraction,
    hRun, Scaled.two_le_length_paddedDigits _, Scaled.value_paddedDigits _, ?_⟩
  rw [c.withExponent_eq, hDigits]
  rfl

theorem not_mem_of_plainForm {text : List Char} (h : PlainForm text) : 'e' ∉ text := by
  obtain ⟨negative, whole, fraction, hWhole, hFraction, rfl⟩ := h
  have hNoDigit : Char.isDigit 'e' ≠ true := by decide
  simp only [List.mem_append, not_or]
  refine ⟨by cases negative <;> decide, fun h => hNoDigit ((isRun_iff.mp hWhole).2 _ h), ?_⟩
  unfold pointed
  split
  · exact List.not_mem_nil
  · rw [List.mem_cons, not_or]
    exact ⟨by decide, fun h => hNoDigit (hFraction _ h)⟩

theorem mem_of_exponentForm {e : ℤ} {text : List Char} (h : ExponentForm e text) : 'e' ∈ text := by
  obtain ⟨negative, lead, fraction, run, -, -, -, -, -, rfl⟩ := h
  simp

/-! ## The number denoted -/

theorem toRat_plain (negative : Bool) (c : Scaled) :
    (Literal.read? (signText negative ++ c.plain)).map Literal.toRat =
      some (if negative then -c.magnitude else c.magnitude) := by
  have hRead := Literal.read?_plain negative c
  rw [← signText] at hRead
  rw [hRead, Option.map_some, Literal.toRat, Literal.magnitude_plain]

theorem toRat_withExponent (negative : Bool) (c : Scaled) :
    (Literal.read? (signText negative ++ c.withExponent)).map Literal.toRat =
      some (if negative then -c.magnitude else c.magnitude) := by
  have hRead := Literal.read?_withExponent negative c
  rw [← signText] at hRead
  rw [hRead, Option.map_some, Literal.toRat, Literal.scaled_withExponent]

section

variable {F : Format}

/-! ## Which layout is written -/

theorem render_finite (x : Finite F) : (finite x).render = signText x.negative ++
    if F.writesPlainly x.shortest.leadingExponent then x.shortest.plain
    else x.shortest.withExponent := rfl

theorem plainForm_render_iff (x : Finite F) :
    PlainForm (finite x).render ↔ F.writesPlainly x.shortest.leadingExponent = true := by
  rw [render_finite]
  split
  · next hPlain => exact iff_of_true (plainForm_plain _ _) hPlain
  · next hExponent =>
    refine iff_of_false (fun hForm => ?_) hExponent
    exact not_mem_of_plainForm hForm (mem_of_exponentForm (exponentForm_withExponent _ _))

theorem exponentForm_render_iff (x : Finite F) :
    ExponentForm x.shortest.leadingExponent (finite x).render ↔
      ¬F.writesPlainly x.shortest.leadingExponent = true := by
  rw [render_finite]
  split
  · next hPlain =>
    refine iff_of_false (fun hForm => ?_) (not_not_intro hPlain)
    exact not_mem_of_plainForm (plainForm_plain _ _) (mem_of_exponentForm hForm)
  · next hExponent => exact iff_of_true (exponentForm_withExponent _ _) hExponent

/-! ## Reading the text -/

theorem isBlank_of_mem_exponentText {e : ℤ} {c : Char} (h : c ∈ Scaled.exponentText e) :
    Text.isBlank c = false := by
  rcases List.mem_cons.mp h with rfl | h
  · rfl
  · rcases List.mem_cons.mp h with rfl | h
    · split <;> rfl
    · exact Text.isBlank_of_isDigit ((isRun_iff.mp (Scaled.isRun_paddedDigits _)).2 c h)

theorem isBlank_of_mem_render (x : Binary F) {c : Char} (h : c ∈ x.render) :
    Text.isBlank c = false := by
  cases x with
  | nan =>
    exact Text.isBlank_of_any "NaN".toList rfl h
  | infinity s =>
    refine (List.mem_append.mp h).elim Text.isBlank_of_mem_sign fun hWord => ?_
    exact Text.isBlank_of_any "Infinity".toList rfl hWord
  | finite y =>
    rw [render_finite] at h
    refine (List.mem_append.mp h).elim Text.isBlank_of_mem_sign fun h => ?_
    split at h
    · exact Text.isBlank_of_mem_plain h
    · rw [Scaled.withExponent_eq] at h
      rcases List.mem_append.mp h with h | h
      · exact Text.isBlank_of_isDigit (allDigits_digits _ c (List.mem_of_mem_take h))
      · refine (List.mem_append.mp h).elim (Text.isBlank_of_mem_pointed fun d hd => ?_)
          isBlank_of_mem_exponentText
        exact allDigits_digits _ d (List.mem_of_mem_drop hd)

/-- The text of a finite number is a literal of its shortest decimal, in either layout. -/
theorem exists_literal_render (x : Finite F) :
    ∃ l, Literal.read? (finite x).render = some l ∧ l.negative = x.negative ∧
      l.scaled.magnitude = x.shortest.magnitude := by
  rw [render_finite]
  split
  · exact ⟨_, Literal.read?_plain x.negative x.shortest, rfl, Literal.magnitude_plain _ _⟩
  · refine ⟨_, Literal.read?_withExponent x.negative x.shortest, rfl, ?_⟩
    rw [Literal.scaled_withExponent]

/-- The text of a finite number, read as a number of any format. -/
theorem read?_render_finite (G : Format) [G.Proper] (x : Finite F) :
    read? G (finite x).render = some (nearest G x.negative x.shortest.magnitude) := by
  obtain ⟨l, hLiteral, hSign, hMagnitude⟩ := exists_literal_render x
  rw [read?_of_literal G hLiteral, hSign, hMagnitude]

theorem read?_render_infinity (G : Format) (s : Bool) :
    read? G (infinity s : Binary F).render = some (infinity s) := by
  cases s <;> rfl

theorem read?_render [F.Proper] (x : Binary F) : read? F x.render = some x := by
  cases x with
  | nan => rfl
  | infinity s => exact read?_render_infinity F s
  | finite y => rw [read?_render_finite, y.nearest_shortest]

end

/-! ## Cells -/

/-- A double that arrives as its text is the same number, whichever the settings. A finite one is
written with the fewest digits that read back: with every place if the first digit stands between
the fourth place of the fraction and the fifteenth of the whole part, and with an exponent
otherwise. Both layouts denote the same number. -/
theorem double_text_transfer (x : Double) (reported other : Oid) (config : Config) :
    let native : Cell := ⟨reported, some (.float8 x), config⟩
    let written : Cell := ⟨other, some (.text (String.ofList x.render)), config⟩
    native.get .string = .ok (.present (String.ofList x.render)) ∧
      written.get .double = .ok (.present x) ∧
      ∀ y, x = finite y →
        let c := y.shortest
        let e := c.leadingExponent
        let denoted := if y.negative then -c.magnitude else c.magnitude
        (nearest .double y.negative c.magnitude = finite y ∧
          ∀ d : Scaled, nearest .double y.negative d.magnitude = finite y →
            (digits c.coefficient).length ≤ (digits d.coefficient).length) ∧
        x.render = signText y.negative ++ (if -4 ≤ e ∧ e < 15 then c.plain else c.withExponent) ∧
        (PlainForm x.render ↔ -4 ≤ e ∧ e < 15) ∧
        (ExponentForm e x.render ↔ ¬(-4 ≤ e ∧ e < 15)) ∧
        (Literal.read? (signText y.negative ++ c.plain)).map Literal.toRat = some denoted ∧
        (Literal.read? (signText y.negative ++ c.withExponent)).map Literal.toRat =
          some denoted := by
  intro native written
  refine ⟨rfl, ?_, ?_⟩
  · have hText := Scalar.numericText_ofList config fun _ => x.isBlank_of_mem_render
    refine Cell.get_eq_present_iff.mpr ?_
    rw [Scalar.get, Scalar.getDouble, hText, doubleOfText, read?_render]
    rfl
  · rintro y rfl c e denoted
    have hPlainly : Format.writesPlainly .double e = true ↔ -4 ≤ e ∧ e < 15 := by
      rw [Format.writesPlainly, Bool.and_eq_true, decide_eq_true_eq, decide_eq_true_eq]
      rfl
    refine ⟨⟨y.nearest_shortest, fun d => y.length_shortest_le⟩, ?_, ?_, ?_,
      toRat_plain y.negative c, toRat_withExponent y.negative c⟩
    · rw [render_finite]
      simp only [hPlainly, c, e]
    · exact (plainForm_render_iff y).trans hPlainly
    · exact (exponentForm_render_iff y).trans (not_congr hPlainly)

/-- The negative double next to zero is written with an exponent and reads back. -/
theorem double_text_transfer_least :
    let x := ofBits .double 0x8000000000000001
    x ≠ nan ∧ x.render = "-5e-324".toList ∧
      (⟨.text, some (.text (String.ofList x.render)), .default⟩ : Cell).get .double =
        .ok (.present x) ∧
      ¬PlainForm x.render := by
  intro x
  have hFinite : x = finite ⟨true, 1, -1074, by decide⟩ := by decide
  obtain ⟨-, hReads, hLayout⟩ := double_text_transfer x .float8 .text .default
  obtain ⟨-, -, hPlain, -⟩ := hLayout _ hFinite
  refine ⟨by decide, by decide +kernel, hReads, fun hForm => ?_⟩
  exact absurd (hPlain.mp hForm) (by decide +kernel)

end ScalarCell.Binary
