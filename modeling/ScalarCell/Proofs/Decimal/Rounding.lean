import Mathlib.Data.List.TakeWhile
import Mathlib.Data.Nat.Find
import ScalarCell.Conversion.Fractional
import ScalarCell.Proofs.Decimal.Reader
import ScalarCell.Proofs.Numeral.Positional

/-!
# Numbers without an exponent as decimals

A number written place by place is read as the decimal nearest to it at the place `keptPlaces`, the
last one for which the mantissa and the scale have room; a mantissa that reaches its bound by
rounding moves on to the place before. `Positional.rounded?` says so without any reader, and
`readPlain?_positional` that the reader does this; `ofText_positional` is the whole outcome,
failures included. A number whose digits all fit a mantissa is not cut short by it: it is read as it
stands, or rounded to as many places as a scale allows (`rounded?_of_run_lt`).
-/

namespace ScalarCell

open Decimal (mantissaBound maxScale)

namespace Numeral.Positional

variable (x : Positional)

/-- How many digits behind the point a decimal has room for. -/
def keptPlaces : ℕ :=
  Nat.findGreatest (fun k => x.cutAt k < mantissaBound) (min maxScale x.fraction.length)

/-- The mantissa and the scale of the decimal nearest to the magnitude, if there is room for its
integer part. -/
def rounded? : Option (ℕ × ℕ) :=
  let k := x.keptPlaces
  if mantissaBound ≤ value x.whole then none
  else if k = x.fraction.length then some (value x.run, k)
  else if x.roundedAt k < mantissaBound then some (x.roundedAt k, k)
  else if k = 0 then none
  else some (x.roundedAt (k - 1), k - 1)

/-! ## The places kept -/

theorem keptPlaces_le_maxScale : x.keptPlaces ≤ maxScale :=
  (Nat.findGreatest_le _).trans (Nat.min_le_left _ _)

theorem keptPlaces_le_length : x.keptPlaces ≤ x.fraction.length :=
  (Nat.findGreatest_le _).trans (Nat.min_le_right _ _)

variable {x}

theorem cutAt_keptPlaces_lt (hWhole : value x.whole < mantissaBound) :
    x.cutAt x.keptPlaces < mantissaBound := by
  have hZero : x.cutAt 0 < mantissaBound := x.cutAt_zero.symm ▸ hWhole
  exact Nat.findGreatest_spec (P := fun k => x.cutAt k < mantissaBound) (Nat.zero_le _) hZero

/-- One more digit would not fit. -/
theorem mantissaBound_le_cutAt (hMore : x.keptPlaces < x.fraction.length)
    (hRoom : x.keptPlaces < maxScale) : mantissaBound ≤ x.cutAt (x.keptPlaces + 1) :=
  not_lt.mp (Nat.findGreatest_is_greatest (P := fun k => x.cutAt k < mantissaBound)
    (Nat.lt_succ_self _) (Nat.le_min.mpr ⟨hRoom, hMore⟩))

variable (x) in
theorem cutAt_le_value_run (k : ℕ) :
    x.cutAt k * 10 ^ (x.fraction.length - k) ≤ value x.run := by
  rw [x.value_run_eq k]
  exact Nat.le_add_right _ _

theorem keptPlaces_eq_min (hFits : value x.run < mantissaBound) :
    x.keptPlaces = min maxScale x.fraction.length := by
  refine le_antisymm (Nat.findGreatest_le _) ?_
  have hPos : 0 < 10 ^ (x.fraction.length - min maxScale x.fraction.length) := by positivity
  have hCut := x.cutAt_le_value_run (min maxScale x.fraction.length)
  exact Nat.le_findGreatest (P := fun k => x.cutAt k < mantissaBound) le_rfl
    ((Nat.le_mul_of_pos_right _ hPos).trans_lt (hCut.trans_lt hFits))

theorem keptPlaces_eq_length (hFits : value x.run < mantissaBound)
    (hScale : x.fraction.length ≤ maxScale) : x.keptPlaces = x.fraction.length :=
  (keptPlaces_eq_min hFits).trans (min_eq_right hScale)

theorem value_whole_lt (hFits : value x.run < mantissaBound) : value x.whole < mantissaBound := by
  rw [← x.value_run_div]
  exact (Nat.div_le_self _ _).trans_lt hFits

/-- A number that fits as it stands is not rounded. -/
theorem rounded?_of_fits (hFits : value x.run < mantissaBound)
    (hScale : x.fraction.length ≤ maxScale) :
    x.rounded? = some (value x.run, x.fraction.length) := by
  have hAll := keptPlaces_eq_length hFits hScale
  rw [rounded?, if_neg (not_le.mpr (value_whole_lt hFits)), if_pos hAll, hAll]

/-- If all digits fit a mantissa, only the scale makes the number round, and rounding does not reach
the bound. -/
theorem rounded?_of_run_lt (hFits : value x.run < mantissaBound)
    (hScale : maxScale < x.fraction.length) :
    x.rounded? = some (x.roundedAt maxScale, maxScale) := by
  have hKept : x.keptPlaces = maxScale :=
    (keptPlaces_eq_min hFits).trans (min_eq_left hScale.le)
  obtain ⟨n, hn⟩ : ∃ n, x.fraction.length - maxScale = n + 1 :=
    ⟨x.fraction.length - maxScale - 1, by omega⟩
  have hRound : x.roundedAt maxScale < mantissaBound := by
    have hCut := x.cutAt_le_value_run maxScale
    have hPos : 0 < 10 ^ n := by positivity
    have hTen : x.cutAt maxScale * 10 ≤ x.cutAt maxScale * 10 ^ (n + 1) := by
      rw [pow_succ']
      exact Nat.mul_le_mul_left _ (Nat.le_mul_of_pos_right _ hPos)
    have hStep : x.roundedAt maxScale ≤ x.cutAt maxScale + 1 := by
      rw [roundedAt_eq hScale]
      split <;> omega
    rw [hn] at hCut
    simp only [mantissaBound] at *
    omega
  rw [rounded?, hKept, if_neg (not_le.mpr (value_whole_lt hFits)), if_neg hScale.ne, if_pos hRound]

/-! ## A mantissa that reaches its bound -/

/-- Only a cut next to the bound is carried to it, and by its last digit it then rounds up at the
place before, too. -/
theorem roundedAt_pred_of_carry {k : ℕ} (hPos : 0 < k) (hk : k < x.fraction.length)
    (hCut : x.cutAt k < mantissaBound) (hCarry : mantissaBound ≤ x.roundedAt k) :
    x.cutAt k + 1 = mantissaBound ∧ x.roundedAt (k - 1) = (mantissaBound + 4) / 10 := by
  obtain ⟨j, rfl⟩ : ∃ j, k = j + 1 := ⟨k - 1, by omega⟩
  have hj : j < x.fraction.length := Nat.lt_of_succ_lt hk
  have hDigit : value [x.fraction[j]] ≤ 9 :=
    value_singleton_le (x.allDigits_fraction _ (List.getElem_mem hj))
  have hNext := cutAt_succ hj
  rw [roundedAt_eq hk] at hCarry
  rw [Nat.add_sub_cancel, roundedAt_eq hj]
  simp only [mantissaBound] at *
  split at hCarry
  · split <;> omega
  · omega

theorem rounded?_bounds {m k : ℕ} (h : x.rounded? = some (m, k)) :
    m < mantissaBound ∧ k ≤ maxScale := by
  have hScale := x.keptPlaces_le_maxScale
  unfold rounded? at h
  dsimp only at h
  split at h
  · cases h
  · next hWhole =>
    have hCut := cutAt_keptPlaces_lt (not_le.mp hWhole)
    split at h
    · next hAll =>
      cases h
      rw [hAll, cutAt_length] at hCut
      exact ⟨hCut, hScale⟩
    · next hLess =>
      have hMore := lt_of_le_of_ne x.keptPlaces_le_length hLess
      split at h
      · next hRound =>
        cases h
        exact ⟨hRound, hScale⟩
      · next hCarry =>
        split at h
        · cases h
        · next hPos =>
          cases h
          have hPred := (roundedAt_pred_of_carry (Nat.pos_of_ne_zero hPos) hMore hCut
            (not_lt.mp hCarry)).2
          refine ⟨hPred ▸ ?_, (Nat.sub_le _ _).trans hScale⟩
          decide

end Numeral.Positional

namespace Decimal

open Numeral

theorem ofParts?_eq_some_iff {negative : Bool} {m k : ℕ} {d : Decimal} :
    ofParts? negative m k = some d ↔ d.negative = negative ∧ d.mantissa = m ∧ d.scale = k := by
  obtain ⟨sign, mantissa, scale, hMantissa, hScale⟩ := d
  unfold ofParts?
  constructor
  · intro h
    split at h
    · cases h
      exact ⟨rfl, rfl, rfl⟩
    · cases h
  · rintro ⟨rfl, rfl, rfl⟩
    exact dif_pos ⟨hMantissa, hScale⟩

variable (x : Positional)

/-! ## The reader -/

theorem roundedBy_eq_rounded? {a : Gathered} (hWhole : value x.whole < mantissaBound)
    (hMantissa : a.mantissa = x.cutAt x.keptPlaces) (hScale : a.scale = x.keptPlaces) :
    (a.roundedBy (x.fraction.drop x.keptPlaces)).map (fun b => (b.mantissa, b.scale)) =
      x.rounded? := by
  have hCut := Positional.cutAt_keptPlaces_lt hWhole
  unfold Positional.rounded?
  dsimp only
  rw [if_neg (not_le.mpr hWhole)]
  rcases x.keptPlaces_le_length.eq_or_lt with hAll | hMore
  · rw [if_pos hAll, List.drop_eq_nil_of_le hAll.ge, Gathered.roundedBy, Option.map_some, hMantissa,
      hScale]
    rw [hAll, Positional.cutAt_length]
  · rw [if_neg hMore.ne, List.drop_eq_getElem_cons hMore, Gathered.roundedBy]
    have hRound := Positional.roundedAt_eq hMore
    by_cases hUp : 5 ≤ digitValue x.fraction[x.keptPlaces]
    · have hNext : x.roundedAt x.keptPlaces = x.cutAt x.keptPlaces + 1 := by
        rw [hRound]
        exact congrArg _ (if_pos hUp)
      rw [if_pos hUp, Gathered.roundUp, hMantissa, hNext]
      by_cases hFits : x.cutAt x.keptPlaces + 1 < mantissaBound
      · rw [if_pos hFits, if_pos hFits, Option.map_some, hScale]
      · rw [if_neg hFits, if_neg hFits, hScale]
        by_cases hZero : x.keptPlaces = 0
        · rw [if_pos hZero, if_pos hZero, Option.map_none]
        · obtain ⟨hFull, hPred⟩ := Positional.roundedAt_pred_of_carry (Nat.pos_of_ne_zero hZero)
            hMore hCut (hNext ▸ not_lt.mp hFits)
          rw [if_neg hZero, if_neg hZero, Option.map_some, hFull, hPred]
    · have hDown : x.roundedAt x.keptPlaces = x.cutAt x.keptPlaces := by
        rw [hRound]
        exact congrArg _ (if_neg hUp)
      rw [if_neg hUp, hDown, if_pos hCut, Option.map_some, hMantissa, hScale]

section

variable {x} {a : Gathered}

/-- The first digit not kept makes the mantissa too large, unless the scale is used up before it. -/
theorem mantissaBound_le_push (hMantissa : a.mantissa = x.cutAt x.keptPlaces)
    (hScale : a.scale = x.keptPlaces) {c : Char} (hc : c ∈ (x.fraction.drop x.keptPlaces).head?)
    (hLeft : a.scale < maxScale) : mantissaBound ≤ (a.push (digitValue c)).mantissa := by
  rw [hScale] at hLeft
  have hMore : x.keptPlaces < x.fraction.length := by
    by_contra hAll
    rw [List.drop_eq_nil_of_le (not_lt.mp hAll)] at hc
    cases hc
  rw [List.drop_eq_getElem_cons hMore] at hc
  cases hc
  have hBeyond := Positional.mantissaBound_le_cutAt hMore hLeft
  rw [Positional.cutAt_succ hMore, ← hMantissa] at hBeyond
  exact hBeyond

variable (hWhole : value x.whole < mantissaBound) (hMantissa : a.mantissa = value x.whole)
  (hPoint : a.hasPoint = false) (hScale : a.scale = 0)

include hWhole hMantissa hPoint hScale

theorem gatherLarge_point_fraction :
    (gatherLarge a ('.' :: x.fraction)).map (fun b => (b.mantissa, b.scale)) = x.rounded? := by
  have hLength := x.keptPlaces_le_length
  have hSplit := List.take_append_drop x.keptPlaces x.fraction
  have hTake : (x.fraction.take x.keptPlaces).length = x.keptPlaces :=
    List.length_take_of_le hLength
  have hGathered : (a.withPoint.pushRun (x.fraction.take x.keptPlaces)).mantissa =
      x.cutAt x.keptPlaces := by
    rw [Gathered.mantissa_pushRun, hTake, Positional.cutAt_eq hLength, ← hMantissa]
    rfl
  have hPlaces : (a.withPoint.pushRun (x.fraction.take x.keptPlaces)).scale = x.keptPlaces := by
    rw [Gathered.scale_pushRun, hTake, Gathered.withPoint, if_pos rfl, hScale, Nat.zero_add]
  have hRoom : a.withPoint.isFull = false := by
    rw [Gathered.isFull, Gathered.withPoint, hScale]
    rfl
  have hFits := Positional.cutAt_keptPlaces_lt hWhole
  rw [← hGathered] at hFits
  have hRead := gatherLarge_fraction rfl hRoom (hSplit.symm ▸ x.allDigits_fraction) hFits
    (hPlaces.trans_le x.keptPlaces_le_maxScale) fun _ => mantissaBound_le_push hGathered hPlaces
  rw [hSplit] at hRead
  rw [gatherLarge_point hPoint, hRead]
  exact roundedBy_eq_rounded? x hWhole hGathered hPlaces

/-- Behind the digits of the whole part, the reader rounds to what the numeral says. -/
theorem gatherLarge_tail :
    (gatherLarge a x.tail).map (fun b => (b.mantissa, b.scale)) = x.rounded? := by
  cases hFraction : x.fraction? with
  | none =>
    have hTail : x.tail = [] := by rw [Positional.tail, hFraction]
    have hNil : x.fraction = [] := by rw [Positional.fraction, hFraction, Option.getD_none]
    have hKept : x.keptPlaces = 0 := by
      have hLength := x.keptPlaces_le_length
      rw [hNil] at hLength
      exact Nat.le_zero.mp hLength
    have hRounds := roundedBy_eq_rounded? x (a := a) hWhole
      (by rw [hMantissa, hKept, x.cutAt_zero]) (hScale.trans hKept.symm)
    rw [hNil, List.drop_nil] at hRounds
    rw [hTail]
    exact hRounds
  | some later =>
    have hTail : x.tail = '.' :: x.fraction := by
      rw [Positional.tail, Positional.fraction, hFraction]
      rfl
    rw [hTail]
    exact gatherLarge_point_fraction hWhole hMantissa hPoint hScale

end

/-- The reader gathers and rounds to what the numeral says. -/
theorem gatherLarge_body :
    (gatherLarge .empty x.body).map (fun a => (a.mantissa, a.scale)) = x.rounded? := by
  have hMantissa : (Gathered.empty.pushRun x.whole).mantissa = value x.whole := by
    rw [Gathered.mantissa_pushRun, Gathered.empty, Nat.zero_mul, Nat.zero_add]
  have hTail : '_' ∉ x.tail := fun h => x.underscore_not_mem_body (List.mem_append_right _ h)
  rw [Positional.body, gatherLarge_whole rfl (by decide) x.allDigits_whole hTail, hMantissa]
  by_cases hWhole : value x.whole < mantissaBound
  · rw [if_pos hWhole]
    exact gatherLarge_tail hWhole hMantissa (Gathered.hasPoint_pushRun _ _)
      (Gathered.scale_pushRun _ _)
  · rw [if_neg hWhole, Positional.rounded?, if_pos (not_lt.mp hWhole), Option.map_none]

theorem readPlain?_positional :
    readPlain? x.text = x.rounded?.bind fun p => ofParts? (x.negative && p.1 != 0) p.1 p.2 := by
  have hLength : x.body.length ≤ x.text.length := by
    rw [Positional.text, List.length_append]
    exact Nat.le_add_left _ _
  have hEarly : Early (longLength ≤ x.text.length) .empty x.body.length :=
    early_empty fun hShort => hLength.trans_lt (not_le.mp (of_decide_eq_false hShort))
  rw [readPlain?, x.splitSign_text]
  dsimp only
  rw [gather_eq_gatherLarge x.underscore_not_mem_body (Or.inr x.exists_digit_mem_body) hEarly,
    ← gatherLarge_body, Option.bind_map]
  rfl

variable {x} in
theorem exists_readPlain?_of_rounded? {m k : ℕ} (h : x.rounded? = some (m, k)) :
    ∃ d, readPlain? x.text = some d ∧ d.mantissa = m ∧ d.scale = k ∧
      d.negative = (x.negative && m != 0) := by
  obtain ⟨d, hd⟩ : ∃ d, ofParts? (x.negative && m != 0) m k = some d :=
    ⟨_, dif_pos (Positional.rounded?_bounds h)⟩
  obtain ⟨hSign, hMantissa, hScale⟩ := ofParts?_eq_some_iff.mp hd
  refine ⟨d, ?_, hMantissa, hScale, hSign⟩
  rw [readPlain?_positional, h, Option.bind_some, hd]

/-! ## The whole outcome -/

theorem not_isExponentMark_of_mem_text {c : Char} (h : c ∈ x.text) :
    isExponentMark c = false := by
  rcases x.mem_text h with hDigit | rfl | rfl | rfl
  · rw [Bool.eq_false_iff]
    intro hMark
    rcases Bool.or_eq_true_iff.mp hMark with hLetter | hLetter
    · rw [eq_of_beq hLetter] at hDigit
      cases hDigit
    · rw [eq_of_beq hLetter] at hDigit
      cases hDigit
  · rfl
  · rfl
  · rfl

theorem readScientific?_positional : readScientific? x.text = none := by
  have hNoMark : ∀ c ∈ x.text, (!isExponentMark c) = true := fun c hc => by
    rw [not_isExponentMark_of_mem_text x hc, Bool.not_false]
  rw [readScientific?, List.dropWhile_eq_nil_iff.mpr hNoMark]

theorem read?_positional :
    read? x.text = x.rounded?.bind fun p => ofParts? (x.negative && p.1 != 0) p.1 p.2 := by
  rw [read?, readPlain?_positional, readScientific?_positional]
  split
  · next d hd => exact hd.symm
  · next hNone => exact hNone.symm

end Decimal

end ScalarCell
