import ScalarCell.Proofs.Integer.Text

/-!
# Integers read from text

A text that is a whole number of at most 64 bits is taken as it is written, and every other text
goes through a decimal. The first way is only a shortcut (`ofText_eq_throughDecimal`), so an integer in a
text is the integer part of a decimal, and the decimal decides what becomes of long texts.

* A whole number that no decimal holds is no number at all, and every other one that does not fit is
  an overflow (`whole_number_overflows_iff`, `overflow_as_bad_text`).
* The fraction is cut off behind the places that the decimal keeps, and it has been rounded to those
  places before. If they are nines and round up, the next integer is read
  (`fraction_cut_off_iff`, `nines_read_as_one`).
-/

namespace ScalarCell

open Numeral
open Decimal (mantissaBound)

/-! ## The way through a decimal -/

theorem Numeral.Positional.rounded?_ofRun (sign : Sign) {run : List Char} (hRun : isRun run = true)
    (hFits : value run < mantissaBound) :
    (ofRun sign run hRun).rounded? = some (value run, 0) := by
  have hAll : (ofRun sign run hRun).run = run := List.append_nil _
  have hRounded := rounded?_of_fits (x := ofRun sign run hRun) (hAll.symm ▸ hFits) (Nat.zero_le _)
  rw [hAll] at hRounded
  exact hRounded

theorem Decimal.applySign_unsignedZero (negative : Bool) (m n : ℕ) :
    applySign (negative && m != 0) (m / n : ℕ) = applySign negative (m / n : ℕ) := by
  by_cases hZero : m = 0
  · subst hZero
    cases negative <;> simp [applySign]
  · rw [bne_iff_ne.mpr hZero, Bool.and_true]

/-- A whole number of 64 bits is read as a decimal as well, with its value and scale 0. -/
theorem Decimal.ofText_of_readInt? {cs : List Char} {i : Integer .long}
    (h : (readInt? cs).bind (Integer.ofInt? .long) = some i) : ofText cs = .ok (ofInteger i) := by
  obtain ⟨n, hInt, hLong⟩ := Option.bind_eq_some_iff.mp h
  obtain ⟨sign, run, hRun, rfl, hInteger⟩ := Positional.exists_ofRun_of_readInt? hInt
  have hValue : i.val = applySign sign.isMinus (value run) :=
    (Integer.ofInt?_eq_some_iff.mp hLong).trans hInteger.symm
  have hAbs : i.val.natAbs = value run := by
    rw [hValue, applySign]
    split <;> omega
  have hFits : value run < mantissaBound := hAbs ▸ (ofInteger i).mantissa_lt
  have hSign : decide (i.val < 0) = (sign.isMinus && value run != 0) := by
    rw [hValue, applySign]
    cases sign.isMinus with
    | true =>
      rw [if_pos rfl, Bool.true_and, Bool.eq_iff_iff, decide_eq_true_eq, bne_iff_ne]
      omega
    | false =>
      rw [if_neg Bool.false_ne_true, Bool.false_and, decide_eq_false_iff_not]
      omega
  have hParts : ofParts? (sign.isMinus && value run != 0) (value run) 0 = some (ofInteger i) :=
    ofParts?_eq_some_iff.mpr ⟨hSign, hAbs, rfl⟩
  have hRead := read?_positional (.ofRun sign run hRun)
  rw [Positional.rounded?_ofRun sign hRun hFits, Option.bind_some] at hRead
  rw [ofText, hRead.trans hParts]

namespace Integer

/-- The integer part of the decimal in the text. -/
def throughDecimal (w : Width) (cs : List Char) : Except Error (Integer w) :=
  match Decimal.ofText cs with
  | .error _ => .error ((Target.integer w).badText cs)
  | .ok d => checkedWithinLong w cs d.truncate

theorem ofText_eq_throughDecimal (w : Width) (cs : List Char) :
    ofText w cs = throughDecimal w cs := by
  unfold ofText throughDecimal
  split
  · next i hi =>
    rw [Decimal.ofText_of_readInt? hi]
    dsimp only
    rw [Decimal.truncate_ofInteger, checkedWithinLong_eq]
  · unfold Decimal.ofText
    cases Decimal.read? cs with
    | none => rfl
    | some d => rfl

theorem throughDecimal_positional (w : Width) (x : Positional) :
    throughDecimal w x.text =
      match x.rounded? with
      | some (m, k) => checked w x.text (applySign x.negative (m / 10 ^ k : ℕ))
      | none => .error ((Target.integer w).badText x.text) := by
  have hRead := Decimal.read?_positional x
  unfold throughDecimal Decimal.ofText
  cases hRounded : x.rounded? with
  | none =>
    rw [hRounded, Option.bind_none] at hRead
    rw [hRead]
  | some p =>
    obtain ⟨m, k⟩ := p
    obtain ⟨d, hd⟩ : ∃ d, Decimal.ofParts? (x.negative && m != 0) m k = some d :=
      ⟨_, dif_pos (Positional.rounded?_bounds hRounded)⟩
    obtain ⟨hSign, hMantissa, hScale⟩ := Decimal.ofParts?_eq_some_iff.mp hd
    have hTruncate : d.truncate = applySign x.negative (m / 10 ^ k : ℕ) := by
      rw [Decimal.truncate, hSign, hMantissa, hScale]
      exact Decimal.applySign_unsignedZero x.negative m (10 ^ k)
    rw [hRounded, Option.bind_some, hd] at hRead
    rw [hRead]
    dsimp only
    rw [checkedWithinLong_eq, hTruncate]

/-- Taking a whole number of 64 bits as it is written changes nothing: it is what the decimal in the
text gives, for that decimal has the same value and no fraction. -/
theorem whole_number_shortcut (w : Width) (cs : List Char) :
    ofText w cs = throughDecimal w cs ∧
      ∀ i, (readInt? cs).bind (ofInt? .long) = some i →
        Decimal.ofText cs = .ok (Decimal.ofInteger i) ∧
          (Decimal.ofInteger i).toRat = i.val ∧ (Decimal.ofInteger i).scale = 0 :=
  ⟨ofText_eq_throughDecimal w cs,
    fun i hi => ⟨Decimal.ofText_of_readInt? hi, Decimal.toRat_ofInteger i, rfl⟩⟩

/-- The least integer of 64 bits, with leading zeros. -/
theorem whole_number_shortcut_least :
    let cs := "-0000000000009223372036854775808".toList
    let least : Integer .long := ⟨-9223372036854775808, by decide⟩
    (readInt? cs).bind (ofInt? .long) = some least ∧
      Decimal.ofText cs = .ok (Decimal.ofInteger least) := by
  intro cs least
  have hLeast : (readInt? cs).bind (ofInt? .long) = some least := by decide
  exact ⟨hLeast, ((whole_number_shortcut .long cs).2 least hLeast).1⟩

end Integer

theorem Target.badText_ne_overflow (t : Target) (cs shown : List Char) :
    t.badText cs ≠ t.overflow shown := by
  intro h
  cases h

/-! ## Whole numbers that do not fit -/

namespace Integer

variable {w : Width} {shown : List Char} {n : ℤ}

theorem checked_eq_ok_iff {i : Integer w} : checked w shown n = .ok i ↔ i.val = n := by
  rw [← ofInt?_eq_some_iff, checked]
  cases ofInt? w n with
  | none => simp only [overflow, reduceCtorEq]
  | some j => rw [Except.ok.injEq, Option.some.injEq]

theorem not_holds_of_natAbs (h : mantissaBound ≤ n.natAbs) : ¬w.Holds n := by
  intro hHolds
  have hLong := Width.holds_long hHolds
  simp only [Width.Holds, Width.bound, mantissaBound] at *
  omega

theorem natAbs_applySign (negative : Bool) (m : ℕ) : (applySign negative m).natAbs = m := by
  cases negative with
  | true => exact Int.natAbs_neg _
  | false => rfl

theorem ofText_run (w : Width) (sign : Sign) {run : List Char} (hRun : isRun run = true) :
    ofText w (sign.text ++ run) =
      if value run < mantissaBound then
        checked w (sign.text ++ run) (applySign sign.isMinus (value run))
      else .error ((Target.integer w).badText (sign.text ++ run)) := by
  have hThrough := throughDecimal_positional w (.ofRun sign run hRun)
  rw [Positional.text_ofRun] at hThrough
  rw [ofText_eq_throughDecimal, hThrough]
  by_cases hFits : value run < mantissaBound
  · rw [if_pos hFits, Positional.rounded?_ofRun sign hRun hFits]
    dsimp only
    rw [pow_zero, Nat.div_one]
    rfl
  · have hNone : (Positional.ofRun sign run hRun).rounded? = none := if_pos (not_lt.mp hFits)
    rw [if_neg hFits, hNone]

/-- A whole number in a text is read exactly if the width holds it, and is an overflow otherwise, as
long as a decimal holds it. Beyond that the text counts as no number. -/
theorem whole_number_overflows_iff (w : Width) (sign : Sign) {run : List Char}
    (hRun : isRun run = true) :
    let cs := sign.text ++ run
    let n := applySign sign.isMinus (value run)
    let overflow := (Target.integer w).overflow cs
    overflow.sqlState = "22003" ∧
      (((∀ i, ofText w cs = .ok i ↔ i.val = n) ∧ (¬w.Holds n → ofText w cs = .error overflow)) ↔
        value run < mantissaBound) ∧
      (mantissaBound ≤ value run → ofText w cs = .error ((Target.integer w).badText cs)) := by
  intro cs n overflow
  have hRead : ofText w cs = _ := ofText_run w sign hRun
  by_cases hFits : value run < mantissaBound
  · rw [if_pos hFits] at hRead
    refine ⟨rfl, iff_of_true ⟨fun i => ?_, fun hBeyond => ?_⟩ hFits,
      fun hTooLarge => absurd hFits (not_lt.mpr hTooLarge)⟩
    · rw [hRead]
      exact checked_eq_ok_iff
    · rw [hRead]
      exact checked_of_not_holds hBeyond
  · rw [if_neg hFits] at hRead
    refine ⟨rfl, iff_of_false (fun hClaim => ?_) hFits, fun _ => hRead⟩
    have hBeyond : ¬w.Holds n := by
      apply not_holds_of_natAbs
      rw [natAbs_applySign]
      exact not_lt.mp hFits
    have hOverflow := hClaim.2 hBeyond
    rw [hRead] at hOverflow
    exact (Target.integer w).badText_ne_overflow cs cs (Except.error.inj hOverflow)

/-- Forty-one digits, most of them leading zeros, that no byte holds. -/
theorem whole_number_overflows_at_300 :
    let run := (List.replicate 38 '0') ++ "300".toList
    isRun run = true ∧ ofText .byte ('-' :: run) =
      .error ((Target.integer .byte).overflow ('-' :: run)) := by
  intro run
  have hRun : isRun run = true := by decide
  have hFits : value run < mantissaBound := by decide
  have hBeyond : ¬Width.byte.Holds (applySign Sign.minus.isMinus (value run)) := by decide
  obtain ⟨-, hClaim, -⟩ := whole_number_overflows_iff .byte .minus hRun
  exact ⟨hRun, (hClaim.mpr hFits).2 hBeyond⟩

/-- The least whole number that no decimal holds: too large for 64 bits, but no overflow. -/
theorem overflow_as_bad_text :
    let cs := "79228162514264337593543950336".toList
    readInt? cs = some mantissaBound ∧ ¬Width.long.Holds mantissaBound ∧
      ofText .long cs = .error ((Target.integer .long).badText cs) ∧
      ofText .long cs ≠ .error ((Target.integer .long).overflow cs) := by
  decide

end Integer

/-! ## Fractions -/

namespace Integer

theorem truncate_neg (r : ℚ) : truncate (-r) = -truncate r := by
  rw [truncate, truncate, Rat.neg_num, Rat.neg_den, Int.neg_tdiv]

theorem truncate_div (m n : ℕ) : truncate (m / n) = (m / n : ℕ) := by
  have hNonneg : 0 ≤ ((m : ℚ) / n).num := Rat.num_nonneg.mpr (by positivity)
  rw [truncate, Int.tdiv_eq_ediv_of_nonneg hNonneg, ← Rat.floor_def', Rat.floor_natCast_div_natCast,
    Int.natCast_div]

end Integer

namespace Numeral.Positional

/-- The digits of the fraction that a decimal keeps are nines, and the next one rounds them up. -/
def RoundsToNext (x : Positional) : Prop :=
  (∀ c ∈ x.fraction.take x.keptPlaces, c = '9') ∧
    ∃ c ∈ (x.fraction.drop x.keptPlaces).head?, 5 ≤ value [c]

instance (x : Positional) : Decidable x.RoundsToNext := inferInstanceAs (Decidable (_ ∧ _))

variable {x : Positional}

theorem not_roundsToNext_of_kept (h : x.keptPlaces = x.fraction.length) : ¬x.RoundsToNext := by
  rintro ⟨-, c, hc, -⟩
  rw [List.drop_eq_nil_of_le h.ge] at hc
  cases hc

theorem roundsToNext_iff (h : x.keptPlaces < x.fraction.length) :
    x.RoundsToNext ↔ value (x.fraction.take x.keptPlaces) + 1 = 10 ^ x.keptPlaces ∧
      5 ≤ value [x.fraction[x.keptPlaces]] := by
  have hNines := value_eq_pow_sub_one_iff (x.allDigits_take (k := x.keptPlaces))
  rw [List.length_take_of_le h.le] at hNines
  rw [RoundsToNext, ← hNines, List.drop_eq_getElem_cons h, List.head?_cons]
  simp only [Option.mem_some_iff, exists_eq_left']

/-- Digits next to the bound of the mantissa are no nines, and carrying them to the bound leaves an
integer part of 64 bits alone. -/
theorem div_of_carry {whole later k : ℕ} (hWhole : whole ≤ Width.long.bound)
    (hLater : later < 10 ^ k) (hCut : whole * 10 ^ k + later + 1 = mantissaBound) :
    later + 1 ≠ 10 ^ k ∧ (mantissaBound + 4) / 10 / 10 ^ (k - 1) = whole := by
  -- With fewer than two places the digits would stay far below the bound.
  have hPlaces : 2 ≤ k := by
    by_contra hFew
    have hOne : k = 0 ∨ k = 1 := by omega
    simp only [mantissaBound, Width.bound] at *
    rcases hOne with rfl | rfl <;> omega
  obtain ⟨j, rfl⟩ : ∃ j, k = j + 2 := ⟨k - 2, by omega⟩
  have hUnit : 10 ^ (j + 2) = 100 * 10 ^ j := by ring
  have hPred : 10 ^ (j + 2 - 1) = 10 * 10 ^ j := by
    rw [show j + 2 - 1 = j + 1 from rfl]
    ring
  have hProduct : whole * (100 * 10 ^ j) = 100 * (whole * 10 ^ j) := by ring
  have hLow : whole * (10 * 10 ^ j) = 10 * (whole * 10 ^ j) := by ring
  have hHigh : (whole + 1) * (10 * 10 ^ j) = 10 * (whole * 10 ^ j) + 10 * 10 ^ j := by ring
  rw [hUnit] at hLater hCut ⊢
  rw [hProduct] at hCut
  rw [hPred]
  simp only [mantissaBound, Width.bound] at *
  refine ⟨by omega, Nat.div_eq_of_lt_le ?_ ?_⟩
  · rw [hLow]
    omega
  · rw [hHigh]
    omega

theorem div_of_roundedAt (hMore : x.keptPlaces < x.fraction.length) :
    x.roundedAt x.keptPlaces / 10 ^ x.keptPlaces =
      value x.whole + if x.RoundsToNext then 1 else 0 := by
  have hLater : value (x.fraction.take x.keptPlaces) < 10 ^ x.keptPlaces :=
    value_take_lt hMore.le
  have hUnit : 0 < 10 ^ x.keptPlaces := by positivity
  rw [roundedAt_eq hMore, cutAt_eq hMore.le, Nat.add_assoc, Nat.mul_comm,
    Nat.mul_add_div hUnit, Nat.add_right_inj]
  by_cases hNext : x.RoundsToNext
  · obtain ⟨hNines, hUp⟩ := (roundsToNext_iff hMore).mp hNext
    rw [if_pos hNext, if_pos hUp, hNines, Nat.div_self hUnit]
  · rw [if_neg hNext, Nat.div_eq_zero_iff_lt hUnit]
    rw [roundsToNext_iff hMore] at hNext
    split
    · next hUp =>
      have hOther : value (x.fraction.take x.keptPlaces) + 1 ≠ 10 ^ x.keptPlaces :=
        fun hNines => hNext ⟨hNines, hUp⟩
      omega
    · exact hLater

/-- A mantissa that reaches its bound by rounding is rounded at the place before, and the integer
part stays as it is. -/
theorem div_of_roundedAt_pred (hWhole : value x.whole ≤ Width.long.bound)
    (hMore : x.keptPlaces < x.fraction.length)
    (hCarry : mantissaBound ≤ x.roundedAt x.keptPlaces) :
    x.keptPlaces ≠ 0 ∧ ¬x.RoundsToNext ∧
      x.roundedAt (x.keptPlaces - 1) / 10 ^ (x.keptPlaces - 1) = value x.whole := by
  have hBelow : value x.whole + 1 < mantissaBound := by
    simp only [mantissaBound, Width.bound] at *
    omega
  have hSome : x.keptPlaces ≠ 0 := by
    intro hZero
    have hFirst : 0 < x.fraction.length := hZero ▸ hMore
    rw [hZero, roundedAt_eq hFirst, cutAt_zero] at hCarry
    split at hCarry <;> omega
  have hCut := cutAt_keptPlaces_lt (Nat.lt_of_succ_lt hBelow)
  obtain ⟨hFull, hPred⟩ := roundedAt_pred_of_carry (Nat.pos_of_ne_zero hSome) hMore hCut hCarry
  rw [cutAt_eq hMore.le] at hFull
  obtain ⟨hNines, hDiv⟩ := div_of_carry hWhole (value_take_lt hMore.le) hFull
  refine ⟨hSome, fun hNext => hNines ((roundsToNext_iff hMore).mp hNext).1, ?_⟩
  rw [hPred, hDiv]

/-- The integer part of the decimal that is read. -/
theorem div_of_rounded? (hWhole : value x.whole ≤ Width.long.bound) :
    ∃ m k, x.rounded? = some (m, k) ∧
      m / 10 ^ k = value x.whole + if x.RoundsToNext then 1 else 0 := by
  have hFits : value x.whole < mantissaBound := by
    simp only [mantissaBound, Width.bound] at *
    omega
  rw [rounded?, if_neg (not_le.mpr hFits)]
  rcases x.keptPlaces_le_length.eq_or_lt with hAll | hMore
  · refine ⟨value x.run, x.keptPlaces, if_pos hAll, ?_⟩
    rw [if_neg (not_roundsToNext_of_kept hAll), hAll, value_run_div, Nat.add_zero]
  · rw [if_neg hMore.ne]
    by_cases hRound : x.roundedAt x.keptPlaces < mantissaBound
    · exact ⟨_, _, if_pos hRound, div_of_roundedAt hMore⟩
    · obtain ⟨hSome, hStay, hDiv⟩ := div_of_roundedAt_pred hWhole hMore (not_lt.mp hRound)
      refine ⟨x.roundedAt (x.keptPlaces - 1), x.keptPlaces - 1, ?_, ?_⟩
      · rw [if_neg hRound, if_neg hSome]
      · rw [hDiv, if_neg hStay, Nat.add_zero]

/-- The whole part is the number rounded toward zero. -/
theorem integerPart_eq_truncate (x : Positional) : x.integerPart = Integer.truncate x.toRat := by
  have hMagnitude : Integer.truncate x.magnitude = value x.whole := by
    have hUnit : (10 ^ x.fraction.length : ℚ) = (10 ^ x.fraction.length : ℕ) := by push_cast; rfl
    rw [magnitude, hUnit, Integer.truncate_div, value_run_div]
  rw [integerPart, toRat, applySign]
  split
  · rw [Integer.truncate_neg, hMagnitude]
  · rw [hMagnitude]

theorem isBlank_of_mem_text {c : Char} (h : c ∈ x.text) : Text.isBlank c = false := by
  rcases x.mem_text h with hDigit | rfl | rfl | rfl
  · exact Text.isBlank_of_isDigit hDigit
  · rfl
  · rfl
  · rfl

end Numeral.Positional

namespace Integer

variable {w : Width} {x : Positional}

theorem ofText_of_whole_le (hWhole : value x.whole ≤ Width.long.bound) :
    ofText w x.text =
      checked w x.text
        (applySign x.negative (value x.whole + if x.RoundsToNext then 1 else 0 : ℕ)) := by
  obtain ⟨m, k, hRounded, hDiv⟩ := Positional.div_of_rounded? hWhole
  rw [ofText_eq_throughDecimal, throughDecimal_positional, hRounded]
  dsimp only
  rw [hDiv]

/-- An integer next to one that the width does not hold, further from zero, is not held either. -/
theorem not_holds_applySign_succ {negative : Bool} {m : ℕ} (h : ¬w.Holds (applySign negative m)) :
    ¬w.Holds (applySign negative (m + 1 : ℕ)) := by
  cases negative <;> cases w <;> simp only [applySign, Width.Holds, Width.bound] at * <;> omega

theorem ofText_exact_iff (w : Width) (hLong : Width.long.Holds x.integerPart) :
    ((∀ i : Integer w, i.val = x.integerPart → ofText w x.text = .ok i) ∧
        (¬w.Holds x.integerPart → ofText w x.text = .error ((Target.integer w).overflow x.text))) ↔
      (w.Holds x.integerPart → ¬x.RoundsToNext) := by
  have hWhole : value x.whole ≤ Width.long.bound := by
    have hAbs := natAbs_applySign x.negative (value x.whole)
    rw [Positional.integerPart, Width.Holds] at hLong
    omega
  have hRead := ofText_of_whole_le (w := w) hWhole
  by_cases hNext : x.RoundsToNext
  · rw [if_pos hNext] at hRead
    constructor
    · rintro ⟨hExact, -⟩ hHolds -
      have hOk := hRead.symm.trans (hExact ⟨x.integerPart, hHolds⟩ rfl)
      have hSame : x.integerPart = applySign x.negative (value x.whole + 1 : ℕ) :=
        checked_eq_ok_iff.mp hOk
      have hAbs := congrArg Int.natAbs hSame
      rw [Positional.integerPart, natAbs_applySign, natAbs_applySign] at hAbs
      omega
    · intro hNone
      have hBeyond : ¬w.Holds x.integerPart := fun hHolds => hNone hHolds hNext
      exact ⟨fun i hi => absurd (hi ▸ i.inRange) hBeyond,
        fun _ => hRead.trans (checked_of_not_holds (not_holds_applySign_succ hBeyond))⟩
  · rw [if_neg hNext] at hRead
    refine iff_of_true ⟨fun i hi => hRead.trans (checked_eq_ok_iff.mpr hi), fun hBeyond => ?_⟩
      fun _ => hNext
    exact hRead.trans (checked_of_not_holds hBeyond)

end Integer

namespace Cell

/-- A text with a fraction reads as the integer in front of its point, and as an overflow if the
width does not hold that, unless the fraction is rounded up to the next integer before it is cut
off. -/
theorem fraction_cut_off_iff (x : Positional) (hLong : Width.long.Holds x.integerPart)
    (reported : Oid) (config : Config) :
    let written : Cell := ⟨reported, some (.text (String.ofList x.text)), config⟩
    x.integerPart = Integer.truncate x.toRat ∧ ∀ w : Width,
      ((∀ i : Integer w, i.val = x.integerPart → written.get (.integral w) = .ok (.present i)) ∧
          (¬w.Holds x.integerPart →
            written.get (.integral w) = .error ((Target.integer w).overflow x.text))) ↔
        (w.Holds x.integerPart → ¬x.RoundsToNext) := by
  intro written
  refine ⟨x.integerPart_eq_truncate, fun w => ?_⟩
  have hText : Scalar.numericText config (String.ofList x.text) = x.text :=
    Scalar.numericText_ofList config fun _ => x.isBlank_of_mem_text
  have hGet : (Scalar.text (String.ofList x.text)).get config (.integral w) =
      Integer.ofText w x.text := congrArg (Integer.ofText w) hText
  rw [← Integer.ofText_exact_iff w hLong, ← hGet]
  refine and_congr (forall_congr' fun i => imp_congr_right fun _ => ?_)
    (imp_congr_right fun _ => ?_)
  · exact get_eq_present_iff
  · exact get_eq_error_iff

/-- Cut off toward zero, and out of the range of a byte. -/
theorem fraction_cut_off_at_300_75 :
    let written : Cell := ⟨.text, some (.text "-300.75"), .default⟩
    written.get (.integral .short) = .ok (.present ⟨-300, by decide⟩) ∧
      written.get (.integral .byte) =
        .error ((Target.integer .byte).overflow "-300.75".toList) := by
  intro written
  let x : Positional := ⟨.minus, "300".toList, some "75".toList, by decide⟩
  have hLong : Width.long.Holds x.integerPart := by decide
  have hFits : Numeral.value x.run < mantissaBound := by decide
  have hStay : ¬x.RoundsToNext :=
    Positional.not_roundsToNext_of_kept (Positional.keptPlaces_eq_length hFits (by decide))
  have hBeyond : ¬Width.byte.Holds x.integerPart := by decide
  have hPart : -300 = x.integerPart := by decide
  obtain ⟨-, hRead⟩ := fraction_cut_off_iff x hLong .text .default
  exact ⟨((hRead .short).mpr fun _ => hStay).1 ⟨-300, by decide⟩ hPart,
    ((hRead .byte).mpr fun _ => hStay).2 hBeyond⟩

/-- The fraction is below one, and yet the text reads as one. -/
theorem nines_read_as_one :
    let nines := List.replicate 29 '9'
    let x : Positional := ⟨.none, ['0'], some nines, by decide⟩
    let written : Cell := ⟨.text, some (.text (String.ofList x.text)), .default⟩
    x.text = "0.99999999999999999999999999999".toList ∧ x.integerPart = 0 ∧
      written.get (.integral .long) = .ok (.present ⟨1, by decide⟩) ∧
      written.get (.integral .long) ≠ .ok (.present ⟨0, by decide⟩) := by
  decide

end Cell

end ScalarCell
