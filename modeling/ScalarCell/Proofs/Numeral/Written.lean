import ScalarCell.Proofs.Decimal.Scientific
import ScalarCell.Proofs.Numeral.Literal

/-!
# Written numbers

A `Written` number is digits with or without a point behind an optional sign, and an exponent behind
them or none. These are the texts that are read as literals (`Literal.read?_written`,
`Literal.exists_written_of_read?`), and what is read is the number that is written
(`Literal.magnitude_written`).

A text is `Ordinary` if it has none of the characters and sequences that only the decimal reader lets
pass. Every written number is (`Written.ordinary_text`).
-/

namespace ScalarCell.Numeral

/-- A number the way it is written, with an exponent or without. -/
inductive Written where
  | positional (x : Positional)
  | scientific (x : Scientific)

namespace Written

/-- What stands in front of the exponent. -/
def base : Written → Positional
  | positional x => x
  | scientific x => x.base

/-- The exponent with its mark and its sign. -/
def exponentText : Written → List Char
  | positional _ => []
  | scientific x => x.mark :: (x.sign.text ++ x.places)

def exponent : Written → ℤ
  | positional _ => 0
  | scientific x => x.exponent

variable (w : Written)

def text : List Char := w.base.text ++ w.exponentText

def negative : Bool := w.base.negative

/-- The number without its sign. -/
def magnitude : ℚ := w.base.magnitude * 10 ^ w.exponent

def toRat : ℚ := w.base.toRat * 10 ^ w.exponent

theorem text_positional (x : Positional) : (positional x).text = x.text := List.append_nil _

theorem text_scientific (x : Scientific) : (scientific x).text = x.text := rfl

theorem magnitude_nonneg : 0 ≤ w.magnitude := by
  unfold magnitude Positional.magnitude
  positivity

theorem abs_toRat : |w.toRat| = w.magnitude := by
  have hBase : |w.base.toRat| = w.base.magnitude := by
    have hNonneg : 0 ≤ w.base.magnitude := by
      unfold Positional.magnitude
      positivity
    rw [Positional.toRat]
    split
    · rw [abs_neg, abs_of_nonneg hNonneg]
    · exact abs_of_nonneg hNonneg
  rw [toRat, magnitude, abs_mul, hBase, abs_of_nonneg (by positivity)]

end Written

/-! ## Read as literals -/

namespace Literal

variable (w : Written)

theorem endsNumeral_written : EndsNumeral w.exponentText := by
  cases w with
  | positional x => exact endsNumeral_nil
  | scientific x =>
    intro c hc
    cases hc
    rcases x.mark_eq with hMark | hMark <;> rw [hMark] <;> exact ⟨rfl, by decide⟩

theorem readExponent?_written : readExponent? w.exponentText = some w.exponent := by
  cases w with
  | positional x => rfl
  | scientific x =>
    rw [Written.exponentText, readExponent?, if_pos x.mark_eq]
    exact readInt?_signed x.sign x.isRun_places

theorem read?_written :
    read? w.text = some ⟨w.negative, w.base.whole, w.base.fraction, w.exponent⟩ := by
  rw [Written.text, read?_append w.base (endsNumeral_written w), readExponent?_written]
  rfl

theorem magnitude_written :
    (⟨w.negative, w.base.whole, w.base.fraction, w.exponent⟩ : Literal).scaled.magnitude =
      w.magnitude := by
  simp only [scaled, Scaled.magnitude]
  rw [Written.magnitude, Positional.magnitude, Positional.run, zpow_sub₀ (by norm_num),
    zpow_natCast]
  field_simp

/-! ## Only they -/

theorem exists_splitFraction (cs : List Char) : ∃ fraction? : Option (List Char),
    AllDigits (fraction?.getD []) ∧ (splitFraction cs).1 = fraction?.getD [] ∧
      cs = fraction?.elim [] ('.' :: ·) ++ (splitFraction cs).2 := by
  unfold splitFraction
  split
  · next rest =>
    refine ⟨some (rest.takeWhile Char.isDigit), fun _ => List.mem_takeWhile_imp, rfl, ?_⟩
    rw [Option.elim_some, List.cons_append, List.takeWhile_append_dropWhile]
  · exact ⟨none, allDigits_nil, rfl, rfl⟩

theorem exists_written_of_readExponent? (base : Positional) {tail : List Char} {e : ℤ}
    (h : readExponent? tail = some e) : ∃ w : Written, w.base = base ∧ w.exponentText = tail := by
  cases tail with
  | nil => exact ⟨.positional base, rfl, rfl⟩
  | cons c cs =>
    rw [readExponent?] at h
    split at h
    · next hMark =>
      have hIsMark : Decimal.isExponentMark c = true := by
        rcases hMark with rfl | rfl <;> rfl
      obtain ⟨sign, places, hPlaces, hText, -⟩ := Positional.exists_ofRun_of_readInt? h
      rw [Positional.text_ofRun] at hText
      refine ⟨.scientific ⟨base, c, sign, places, hIsMark, hPlaces⟩, rfl, ?_⟩
      rw [Written.exponentText, hText]
    · cases h

theorem exists_written_of_read? {cs : List Char} {x : Literal} (h : read? cs = some x) :
    ∃ w : Written, w.text = cs := by
  obtain ⟨sign, body, rfl, hSplit⟩ := Sign.exists_splitSign cs
  obtain ⟨fraction?, hDigits, hFraction, hTail⟩ :=
    exists_splitFraction (body.dropWhile Char.isDigit)
  rw [read?, hSplit] at h
  dsimp only at h
  rw [hFraction] at h
  split at h
  · cases h
  · next hSome =>
    obtain ⟨e, hExponent, -⟩ := Option.map_eq_some_iff.mp h
    have hRun : isRun (body.takeWhile Char.isDigit ++ fraction?.getD []) = true := by
      refine isRun_iff.mpr ⟨fun hNothing => hSome ?_,
        allDigits_append.mpr ⟨fun _ => List.mem_takeWhile_imp, hDigits⟩⟩
      obtain ⟨hWhole, hLater⟩ := List.append_eq_nil_iff.mp hNothing
      rw [hWhole, hLater]
      rfl
    obtain ⟨w, hBase, hText⟩ :=
      exists_written_of_readExponent? ⟨sign, body.takeWhile Char.isDigit, fraction?, hRun⟩ hExponent
    have hBody : body.takeWhile Char.isDigit ++ body.dropWhile Char.isDigit = body :=
      List.takeWhile_append_dropWhile
    rw [hTail] at hBody
    refine ⟨w, ?_⟩
    rw [Written.text, hBase, hText, Positional.text, Positional.body, Positional.tail_eq,
      List.append_assoc, List.append_assoc]
    exact congrArg (sign.text ++ ·) hBody

end Literal

/-! ## Ordinary texts -/

/-- No underscore, and no plus sign right behind a minus. -/
def Ordinary (cs : List Char) : Prop :=
  '_' ∉ cs ∧ cs.IsChain fun a b => ¬(a = '-' ∧ b = '+')

instance (cs : List Char) : Decidable (Ordinary cs) := inferInstanceAs (Decidable (_ ∧ _))

theorem isChain_cons_of_plus_not_mem (c : Char) {cs : List Char} (h : '+' ∉ cs) :
    (c :: cs).IsChain fun a b => ¬(a = '-' ∧ b = '+') := by
  induction cs generalizing c with
  | nil => exact .singleton c
  | cons d cs ih =>
    rw [List.mem_cons, not_or] at h
    exact .cons_cons (fun hBoth => h.1 hBoth.2.symm) (ih d h.2)

/-- A plus sign at the front stands behind nothing. -/
theorem Sign.ordinary_append (sign : Sign) {cs : List Char} (hUnderscore : '_' ∉ cs)
    (hPlus : '+' ∉ cs) : Ordinary (sign.text ++ cs) := by
  have hText : '_' ∉ sign.text := by cases sign <;> decide
  refine ⟨fun h => (List.mem_append.mp h).elim hText hUnderscore, ?_⟩
  cases sign with
  | plus => exact isChain_cons_of_plus_not_mem '+' hPlus
  | minus => exact isChain_cons_of_plus_not_mem '-' hPlus
  | none =>
    cases cs with
    | nil => exact .nil
    | cons c cs => exact isChain_cons_of_plus_not_mem c (List.not_mem_of_not_mem_cons hPlus)

theorem Positional.ordinary_text (x : Positional) : Ordinary x.text := by
  refine x.sign.ordinary_append x.underscore_not_mem_body fun hPlus => ?_
  rcases x.mem_body hPlus with hDigit | hPoint
  · cases hDigit
  · cases hPoint

theorem Written.ordinary_text (w : Written) : Ordinary w.text := by
  have hBase := w.base.ordinary_text
  cases w with
  | positional x =>
    rw [text_positional]
    exact hBase
  | scientific x =>
    have hPlaces : Ordinary (x.sign.text ++ x.places) := by
      refine x.sign.ordinary_append ?_ ?_ <;> intro h <;> cases (isRun_iff.mp x.isRun_places).2 _ h
    have hMark : x.mark ≠ '_' ∧ x.mark ≠ '+' ∧ x.mark ≠ '-' := by
      rcases x.mark_eq with hMark | hMark <;> rw [hMark] <;> decide
    refine ⟨?_, List.isChain_append.mpr ⟨hBase.2, List.isChain_cons.mpr ⟨?_, hPlaces.2⟩, ?_⟩⟩
    · rw [text, List.mem_append]
      rintro (h | h)
      · exact hBase.1 h
      · exact (List.mem_cons.mp h).elim (fun hEq => hMark.1 hEq.symm) hPlaces.1
    · exact fun _ _ hBoth => hMark.2.2 hBoth.1
    · rintro a - b hb ⟨-, rfl⟩
      exact hMark.2.1 (Option.some.inj hb)

end ScalarCell.Numeral
