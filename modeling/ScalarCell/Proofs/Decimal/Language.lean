import ScalarCell.Proofs.Numeral.Written
import ScalarCell.Proofs.Text.Blank

/-!
# The texts read as decimals

Not every text that is read as a decimal is a written number: the reader passes over underscores, and
it takes an exponent with a minus and a plus sign, one behind the other. Those are the only
exceptions (`exists_written_of_read?`), and there are no blanks in any of these texts
(`isBlank_of_read?`).
-/

namespace ScalarCell.Decimal

open Numeral

variable {cs : List Char} {d : Decimal}

/-! ## Digits and a point -/

theorem Layout.exists_parts {pointed : Bool} (h : Layout pointed cs) (hPlain : '_' ∉ cs) :
    ∃ (whole : List Char) (fraction? : Option (List Char)),
      AllDigits (whole ++ fraction?.getD []) ∧ (pointed = true → fraction? = none) ∧
        cs = whole ++ fraction?.elim [] ('.' :: ·) := by
  induction h with
  | nil => exact ⟨[], none, allDigits_nil, fun _ => rfl, rfl⟩
  | @digit pointed c cs hDigit _ ih =>
    obtain ⟨whole, fraction?, hDigits, hPointed, hText⟩ := ih (List.not_mem_of_not_mem_cons hPlain)
    exact ⟨c :: whole, fraction?, allDigits_cons.mpr ⟨hDigit, hDigits⟩, hPointed,
      congrArg (c :: ·) hText⟩
  | underscore => exact absurd List.mem_cons_self hPlain
  | point _ ih =>
    obtain ⟨fraction, fraction?, hDigits, hPointed, hText⟩ := ih (List.not_mem_of_not_mem_cons hPlain)
    rw [hPointed rfl] at hDigits hText
    refine ⟨[], some fraction, ?_, nofun, ?_⟩
    · rwa [Option.getD_none, List.append_nil] at hDigits
    · rw [hText, Option.elim_none, List.append_nil]
      rfl

theorem layout_of_readPlain? (h : readPlain? cs = some d) :
    ∃ (sign : Sign) (body : List Char), cs = sign.text ++ body ∧ Layout false body ∧
      ∃ c ∈ body, c.isDigit = true := by
  obtain ⟨sign, body, hText, hSplit⟩ := Sign.exists_splitSign cs
  rw [readPlain?, hSplit] at h
  obtain ⟨b, hGather, -⟩ := Option.bind_eq_some_iff.mp h
  obtain ⟨hLayout, hDigit⟩ := layout_of_gather hGather
  exact ⟨sign, body, hText, hLayout, hDigit.resolve_left Bool.false_ne_true⟩

theorem exists_positional_of_readPlain? (h : readPlain? cs = some d) (hPlain : '_' ∉ cs) :
    ∃ x : Positional, x.text = cs := by
  obtain ⟨sign, body, rfl, hLayout, c, hc, hDigit⟩ := layout_of_readPlain? h
  rw [List.mem_append, not_or] at hPlain
  obtain ⟨whole, fraction?, hDigits, -, rfl⟩ := hLayout.exists_parts hPlain.2
  have hNonempty : whole ++ fraction?.getD [] ≠ [] := by
    intro hNothing
    obtain ⟨rfl, hFraction⟩ := List.append_eq_nil_iff.mp hNothing
    cases fraction? with
    | none => cases hc
    | some fraction =>
      obtain rfl : fraction = [] := hFraction
      rw [List.mem_singleton.mp hc] at hDigit
      cases hDigit
  refine ⟨⟨sign, whole, fraction?, isRun_iff.mpr ⟨hNonempty, hDigits⟩⟩, ?_⟩
  rw [Positional.text, Positional.body, Positional.tail_eq]

/-! ## Exponents -/

theorem exists_run_of_readUnsigned? {n : ℕ} (h : readUnsigned? cs = some n) :
    ∃ run, isRun run = true ∧ (cs = run ∨ cs = '+' :: run) := by
  unfold readUnsigned? at h
  split at h
  · next run =>
    dsimp only at h
    split at h
    · next hRun => exact ⟨run, hRun, Or.inr rfl⟩
    · cases h
  · dsimp only at h
    split at h
    · next hRun => exact ⟨cs, hRun, Or.inl rfl⟩
    · cases h

/-- Digits behind one sign or none, or behind a minus and a plus. -/
theorem exists_run_of_readExponent? {p : Bool × ℕ} (h : readExponent? cs = some p) :
    ∃ run, isRun run = true ∧ ((∃ sign : Sign, cs = sign.text ++ run) ∨ cs = '-' :: '+' :: run) := by
  unfold readExponent? at h
  split at h
  · obtain ⟨n, hUnsigned, -⟩ := Option.map_eq_some_iff.mp h
    obtain ⟨run, hRun, hText | hText⟩ := exists_run_of_readUnsigned? hUnsigned
    · exact ⟨run, hRun, Or.inl ⟨.minus, congrArg ('-' :: ·) hText⟩⟩
    · exact ⟨run, hRun, Or.inr (congrArg ('-' :: ·) hText)⟩
  · obtain ⟨n, hUnsigned, -⟩ := Option.map_eq_some_iff.mp h
    obtain ⟨run, hRun, hText | hText⟩ := exists_run_of_readUnsigned? hUnsigned
    · exact ⟨run, hRun, Or.inl ⟨.none, hText⟩⟩
    · exact ⟨run, hRun, Or.inl ⟨.plus, hText⟩⟩

theorem exists_parts_of_readScientific? (h : readScientific? cs = some d) :
    ∃ (base : List Char) (mark : Char) (tail : List Char), cs = base ++ mark :: tail ∧
      isExponentMark mark = true ∧ (∃ e, readPlain? base = some e) ∧
        ∃ p, readExponent? tail = some p := by
  have hWhole : cs.takeWhile (!isExponentMark ·) ++ cs.dropWhile (!isExponentMark ·) = cs :=
    List.takeWhile_append_dropWhile
  have hHead := List.head?_dropWhile_not (!isExponentMark ·) cs
  unfold readScientific? at h
  split at h
  · cases h
  · next mark tail hDrop =>
    rw [hDrop] at hWhole hHead
    obtain ⟨e, hBase, hLater⟩ := Option.bind_eq_some_iff.mp h
    obtain ⟨p, hTail, -⟩ := Option.bind_eq_some_iff.mp hLater
    refine ⟨_, mark, tail, hWhole.symm, ?_, ⟨e, hBase⟩, p, hTail⟩
    simpa using hHead

/-! ## The whole text -/

theorem exists_scientific_of_readScientific? (h : readScientific? cs = some d)
    (hOrdinary : Ordinary cs) : ∃ x : Scientific, x.text = cs := by
  obtain ⟨base, mark, tail, rfl, hMark, ⟨e, hBase⟩, p, hTail⟩ := exists_parts_of_readScientific? h
  obtain ⟨hPlain, hSigns⟩ := hOrdinary
  rw [List.mem_append, not_or] at hPlain
  obtain ⟨x, rfl⟩ := exists_positional_of_readPlain? hBase hPlain.1
  obtain ⟨run, hRun, ⟨sign, rfl⟩ | rfl⟩ := exists_run_of_readExponent? hTail
  · exact ⟨⟨x, mark, sign, run, hMark, hRun⟩, rfl⟩
  · have hExponent := (List.isChain_append.mp hSigns).2.1
    rw [List.isChain_cons_cons, List.isChain_cons_cons] at hExponent
    exact absurd ⟨rfl, rfl⟩ hExponent.2.1

/-- An ordinary text that is read as a decimal is a written number. -/
theorem exists_written_of_read? (h : read? cs = some d) (hOrdinary : Ordinary cs) :
    ∃ w : Written, w.text = cs := by
  unfold read? at h
  split at h
  · next e hPlain =>
    obtain ⟨x, hText⟩ := exists_positional_of_readPlain? hPlain hOrdinary.1
    exact ⟨.positional x, (Written.text_positional x).trans hText⟩
  · obtain ⟨x, hText⟩ := exists_scientific_of_readScientific? h hOrdinary
    exact ⟨.scientific x, (Written.text_scientific x).trans hText⟩

theorem isBlank_of_mem_sign {sign : Sign} {c : Char} (h : c ∈ sign.text) :
    Text.isBlank c = false := by
  rcases Scientific.mem_sign h with rfl | rfl <;> decide

theorem isBlank_of_readPlain? (h : readPlain? cs = some d) {c : Char} (hc : c ∈ cs) :
    Text.isBlank c = false := by
  obtain ⟨sign, body, rfl, hLayout, -⟩ := layout_of_readPlain? h
  rcases List.mem_append.mp hc with hSign | hBody
  · exact isBlank_of_mem_sign hSign
  · rcases hLayout.mem hBody with hDigit | rfl | rfl
    · exact Text.isBlank_of_isDigit hDigit
    · decide
    · decide

theorem isBlank_of_readExponent? {p : Bool × ℕ} (h : readExponent? cs = some p) {c : Char}
    (hc : c ∈ cs) : Text.isBlank c = false := by
  have hDigits : ∀ run, isRun run = true → c ∈ run → Text.isBlank c = false :=
    fun run hRun hMem => Text.isBlank_of_isDigit ((isRun_iff.mp hRun).2 c hMem)
  obtain ⟨run, hRun, ⟨sign, rfl⟩ | rfl⟩ := exists_run_of_readExponent? h
  · exact (List.mem_append.mp hc).elim isBlank_of_mem_sign (hDigits run hRun)
  · rcases List.mem_cons.mp hc with rfl | hc
    · decide
    · rcases List.mem_cons.mp hc with rfl | hc
      · decide
      · exact hDigits run hRun hc

theorem isBlank_of_read? (h : read? cs = some d) {c : Char} (hc : c ∈ cs) :
    Text.isBlank c = false := by
  unfold read? at h
  split at h
  · next e hPlain => exact isBlank_of_readPlain? hPlain hc
  · obtain ⟨base, mark, tail, rfl, hMark, ⟨e, hBase⟩, p, hTail⟩ := exists_parts_of_readScientific? h
    rcases List.mem_append.mp hc with hBefore | hc
    · exact isBlank_of_readPlain? hBase hBefore
    · rcases List.mem_cons.mp hc with rfl | hAfter
      · rw [isExponentMark, Bool.or_eq_true, beq_iff_eq, beq_iff_eq] at hMark
        rcases hMark with rfl | rfl <;> decide
      · exact isBlank_of_readExponent? hTail hAfter

end ScalarCell.Decimal
