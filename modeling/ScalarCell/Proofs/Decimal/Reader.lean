import Mathlib.Data.List.TakeWhile
import Mathlib.Tactic.Linarith
import Mathlib.Tactic.Positivity
import ScalarCell.Decimal.Reader
import ScalarCell.Proofs.Numeral.Run

/-!
# The states of the decimal reader on digits

On a text without underscores the two gathering states do the same, so the one for large mantissas
speaks for both (`gather_eq_gatherLarge`). It gathers the digits before the point as long as they
fit (`gatherLarge_whole`), and behind the point it keeps digits until one would not fit or the scale is
used up, and rounds by the first that it leaves out (`gatherLarge_fraction`).
-/

namespace ScalarCell.Decimal

open Numeral

namespace Gathered

/-- A run of digits, gathered one by one. -/
def pushRun (a : Gathered) (cs : List Char) : Gathered :=
  cs.foldl (fun b c => b.push (digitValue c)) a

theorem pushRun_cons (a : Gathered) (c : Char) (cs : List Char) :
    a.pushRun (c :: cs) = (a.push (digitValue c)).pushRun cs := List.foldl_cons

theorem mantissa_pushRun (a : Gathered) (cs : List Char) :
    (a.pushRun cs).mantissa = a.mantissa * 10 ^ cs.length + value cs := by
  induction cs generalizing a with
  | nil => exact (Nat.mul_one _).symm
  | cons c cs ih =>
    rw [pushRun_cons, ih, value_cons, List.length_cons]
    simp only [push, digitValue]
    ring

theorem hasPoint_pushRun (a : Gathered) (cs : List Char) :
    (a.pushRun cs).hasPoint = a.hasPoint := by
  induction cs generalizing a with
  | nil => rfl
  | cons c cs ih => rw [pushRun_cons, ih, push]

theorem scale_pushRun (a : Gathered) (cs : List Char) :
    (a.pushRun cs).scale = if a.hasPoint then a.scale + cs.length else a.scale := by
  induction cs generalizing a with
  | nil => simp only [pushRun, List.foldl_nil, List.length_nil, Nat.add_zero, ite_self]
  | cons c cs ih =>
    rw [pushRun_cons, ih, push, List.length_cons]
    dsimp only
    split
    · omega
    · rfl

theorem mantissa_le_pushRun (a : Gathered) (cs : List Char) :
    a.mantissa ≤ (a.pushRun cs).mantissa := by
  have hPos : 0 < 10 ^ cs.length := by positivity
  rw [mantissa_pushRun]
  exact (Nat.le_mul_of_pos_right a.mantissa hPos).trans (Nat.le_add_right _ _)

/-- Rounds by the first of the digits left out. -/
def roundedBy (a : Gathered) : List Char → Option Gathered
  | [] => some a
  | c :: _ => if 5 ≤ digitValue c then a.roundUp else some a

end Gathered

variable {a : Gathered} {c : Char} {cs : List Char}

/-! ## One character -/

theorem finish_of_allDigits (h : AllDigits cs) : finish a cs = a.roundedBy cs := by
  cases cs with
  | nil => rfl
  | cons c cs =>
    obtain ⟨hDigit, hLater⟩ := allDigits_cons.mp h
    have hAll : (cs.all fun d => d.isDigit || d == '_') = true :=
      List.all_eq_true.mpr fun d hd => by rw [hLater d hd, Bool.true_or]
    simp only [finish, Gathered.roundedBy, hDigit, hAll, Bool.or_true, Bool.true_and, if_true,
      decide_eq_true_eq]

theorem dropWhile_underscore (h : '_' ∉ cs) : cs.dropWhile (· == '_') = cs := by
  cases cs with
  | nil => rfl
  | cons c cs =>
    have hOther : c ≠ '_' := fun he => h (he ▸ List.mem_cons_self)
    exact List.dropWhile_cons_of_neg (by simpa using hOther)

/-- One step of the state for large mantissas at a digit. -/
theorem gatherLarge_digit (hDigit : c.isDigit = true) (hLater : '_' ∉ cs) :
    gatherLarge a (c :: cs) =
      if mantissaBound ≤ (a.push (digitValue c)).mantissa then
        if a.hasPoint then finish a (c :: cs) else none
      else if (a.push (digitValue c)).isFull then finish (a.push (digitValue c)) cs
      else gatherLarge (a.push (digitValue c)) cs := by
  rw [gatherLarge, if_pos hDigit, dropWhile_underscore hLater]
  rfl

theorem gatherLarge_point (h : a.hasPoint = false) :
    gatherLarge a ('.' :: cs) = gatherLarge a.withPoint cs := by
  have hNot : Char.isDigit '.' = false := rfl
  simp [gatherLarge, hNot, h]

/-! ## The two gathering states -/

/-- The mantissa is small, and if the text is short, the `rest` characters to come can neither make
it large nor use up the scale. -/
def Early (long : Bool) (a : Gathered) (rest : ℕ) : Prop :=
  a.mantissa < largeMantissa ∧
    (long = false → (a.mantissa + 1) * 10 ^ rest ≤ 10 ^ (longLength - 1) ∧
      a.scale + rest < longLength)

theorem early_empty {long : Bool} {rest : ℕ} (h : long = false → rest < longLength) :
    Early long .empty rest := by
  refine ⟨by decide, fun hShort => ?_⟩
  have hRest := h hShort
  refine ⟨?_, by simpa [Gathered.empty] using hRest⟩
  rw [Gathered.empty, Nat.zero_add, Nat.one_mul]
  exact Nat.pow_le_pow_right (by decide) (Nat.le_pred_of_lt hRest)

theorem Early.withPoint {long : Bool} {rest : ℕ} (h : Early long a (rest + 1)) :
    Early long a.withPoint rest := by
  refine ⟨h.1, fun hShort => ?_⟩
  obtain ⟨hFits, hPlaces⟩ := h.2 hShort
  refine ⟨le_trans ?_ hFits, (Nat.lt_succ_self _).trans hPlaces⟩
  exact Nat.mul_le_mul_left _ (Nat.pow_le_pow_right (by decide) (Nat.le_succ _))

theorem Early.push_lt {long : Bool} {rest digit : ℕ} (h : Early long a rest) (hDigit : digit ≤ 9) :
    (a.push digit).mantissa < mantissaBound := by
  have hSmall := h.1
  simp only [Gathered.push, largeMantissa, mantissaBound] at *
  omega

/-- A short text stays early, and never fills the scale. -/
theorem Early.push {rest digit : ℕ} (h : Early false a (rest + 1)) (hDigit : digit ≤ 9) :
    Early false (a.push digit) rest ∧ (a.push digit).isFull = false := by
  obtain ⟨hFits, hPlaces⟩ := h.2 rfl
  have hScale : (a.push digit).scale + rest < longLength := by
    have hStep : (a.push digit).scale ≤ a.scale + 1 := by
      simp only [Gathered.push]
      split <;> omega
    omega
  have hMantissa : ((a.push digit).mantissa + 1) * 10 ^ rest ≤ 10 ^ (longLength - 1) := by
    refine le_trans ?_ hFits
    rw [pow_succ, Nat.mul_comm (10 ^ rest), ← Nat.mul_assoc]
    refine Nat.mul_le_mul_right _ ?_
    simp only [Gathered.push]
    omega
  refine ⟨⟨?_, fun _ => ⟨hMantissa, hScale⟩⟩, ?_⟩
  · have hBelow : (a.push digit).mantissa + 1 ≤ 10 ^ (longLength - 1) :=
      (Nat.le_mul_of_pos_right _ (by positivity)).trans hMantissa
    exact (Nat.lt_of_succ_le hBelow).trans_le (by decide)
  · have hRoom : ¬maxScale ≤ (a.push digit).scale := by
      simp only [maxScale, longLength] at *
      omega
    rw [Gathered.isFull, decide_eq_false hRoom, Bool.and_false]

/-- Without underscores the state for small mantissas does what the other one does. -/
theorem gather_eq_gatherLarge {long : Bool} (hPlain : '_' ∉ cs)
    (hDigit : a.hasDigit = true ∨ ∃ c ∈ cs, c.isDigit = true) (hEarly : Early long a cs.length) :
    gather long a cs = gatherLarge a cs := by
  induction cs generalizing a with
  | nil =>
    have hHas : a.hasDigit = true := hDigit.resolve_right fun ⟨c, hc, _⟩ => by cases hc
    rw [gather, if_pos hHas, gatherLarge]
  | cons c cs ih =>
    have hOther : c ≠ '_' := fun he => hPlain (he ▸ List.mem_cons_self)
    have hLater : '_' ∉ cs := fun hc => hPlain (List.mem_cons_of_mem c hc)
    by_cases hFirst : c.isDigit = true
    · have hNine : digitValue c ≤ 9 := value_singleton_le hFirst
      have hHas : (a.push (digitValue c)).hasDigit = true := rfl
      rw [gatherLarge_digit hFirst hLater, if_neg (not_le.mpr (hEarly.push_lt hNine)), gather,
        if_pos hFirst]
      dsimp only
      cases long with
      | true =>
        rw [Bool.true_and, Bool.true_and]
        split
        · rfl
        · split
          · rfl
          · next hSmall =>
            have hNext : (a.push (digitValue c)).mantissa < largeMantissa := by
              simpa using hSmall
            exact ih hLater (Or.inl hHas) ⟨hNext, nofun⟩
      | false =>
        obtain ⟨hNext, hRoom⟩ := hEarly.push hNine
        rw [hRoom, Bool.false_and, Bool.false_and, if_neg Bool.false_ne_true,
          if_neg Bool.false_ne_true, if_neg Bool.false_ne_true]
        exact ih hLater (Or.inl hHas) hNext
    · have hRest : a.hasDigit = true ∨ ∃ d ∈ cs, d.isDigit = true :=
        hDigit.imp_right fun hSome => ((List.exists_mem_cons_iff _ _ _).mp hSome).resolve_left hFirst
      rw [gather, gatherLarge, if_neg hFirst, if_neg hFirst]
      split
      · exact ih hLater hRest hEarly.withPoint
      · simp only [hOther, false_and, if_false]

/-! ## Digits before the point and behind it -/

/-- Before the point every digit has to fit. -/
theorem gatherLarge_whole (hPoint : a.hasPoint = false) (hFits : a.mantissa < mantissaBound)
    (hDigits : AllDigits cs) {rest : List Char} (hRest : '_' ∉ rest) :
    gatherLarge a (cs ++ rest) =
      if (a.pushRun cs).mantissa < mantissaBound then gatherLarge (a.pushRun cs) rest else none := by
  induction cs generalizing a with
  | nil => exact (if_pos hFits).symm
  | cons c cs ih =>
    obtain ⟨hDigit, hLater⟩ := allDigits_cons.mp hDigits
    have hPlain : '_' ∉ cs ++ rest := by
      intro hc
      rcases List.mem_append.mp hc with hc | hc
      · cases hLater '_' hc
      · exact hRest hc
    have hNextPoint : (a.push (digitValue c)).hasPoint = false := hPoint
    have hRoom : (a.push (digitValue c)).isFull = false := by
      rw [Gathered.isFull, hNextPoint, Bool.false_and]
    rw [List.cons_append, gatherLarge_digit hDigit hPlain, hRoom, Gathered.pushRun_cons]
    split
    · next hTooLarge =>
      have hStays := hTooLarge.trans (Gathered.mantissa_le_pushRun _ cs)
      rw [hPoint, if_neg Bool.false_ne_true, if_neg (not_lt.mpr hStays)]
    · next hNext =>
      rw [if_neg Bool.false_ne_true]
      exact ih hNextPoint (not_le.mp hNext) hLater

/-- Behind the point digits are kept up to one that does not fit, or for which the scale has no room
left, and that digit rounds. -/
theorem gatherLarge_fraction {kept left : List Char} (hPoint : a.hasPoint = true)
    (hRoom : a.isFull = false) (hDigits : AllDigits (kept ++ left))
    (hFits : (a.pushRun kept).mantissa < mantissaBound) (hScale : (a.pushRun kept).scale ≤ maxScale)
    (hStop : ∀ c ∈ left.head?, (a.pushRun kept).scale < maxScale →
      mantissaBound ≤ ((a.pushRun kept).push (digitValue c)).mantissa) :
    gatherLarge a (kept ++ left) = (a.pushRun kept).roundedBy left := by
  induction kept generalizing a with
  | nil =>
    cases left with
    | nil => rfl
    | cons c left =>
      obtain ⟨hDigit, hLater⟩ := allDigits_cons.mp hDigits
      have hBelow : a.scale < maxScale := by
        rw [Gathered.isFull, hPoint, Bool.true_and, decide_eq_false_iff_not] at hRoom
        exact not_le.mp hRoom
      have hPlain : '_' ∉ left := fun hc => by cases hLater '_' hc
      have hBeyond : mantissaBound ≤ (a.push (digitValue c)).mantissa := hStop c rfl hBelow
      rw [List.nil_append, gatherLarge_digit hDigit hPlain, if_pos hBeyond, if_pos hPoint]
      exact finish_of_allDigits hDigits
  | cons c kept ih =>
    rw [List.cons_append, allDigits_cons] at hDigits
    obtain ⟨hDigit, hLater⟩ := hDigits
    rw [Gathered.pushRun_cons] at hFits hScale hStop ⊢
    have hFirst := (Gathered.mantissa_le_pushRun _ kept).trans_lt hFits
    have hNextPoint : (a.push (digitValue c)).hasPoint = true := hPoint
    have hPlain : '_' ∉ kept ++ left := fun hc => by cases hLater '_' hc
    rw [List.cons_append, gatherLarge_digit hDigit hPlain, if_neg (not_le.mpr hFirst)]
    split
    · next hFull =>
      -- The scale is used up, so this was the last digit kept.
      have hNone : kept = [] := by
        rw [Gathered.isFull, hNextPoint, Bool.true_and, decide_eq_true_eq] at hFull
        rw [Gathered.scale_pushRun, hNextPoint, if_pos rfl] at hScale
        exact List.eq_nil_of_length_eq_zero (by omega)
      subst hNone
      exact finish_of_allDigits hLater
    · next hMore =>
      exact ih hNextPoint (Bool.eq_false_iff.mpr hMore) hLater hFits hScale hStop

/-! ## The characters of a number -/

/-- Digits and underscores, and one point at most; none if there has been one before. -/
inductive Layout : Bool → List Char → Prop where
  | nil (pointed : Bool) : Layout pointed []
  | digit {pointed : Bool} {c : Char} {cs : List Char} (hDigit : c.isDigit = true)
    (hLater : Layout pointed cs) : Layout pointed (c :: cs)
  | underscore {pointed : Bool} {cs : List Char} (hLater : Layout pointed cs) :
    Layout pointed ('_' :: cs)
  | point {cs : List Char} (hLater : Layout true cs) : Layout false ('.' :: cs)

namespace Layout

variable {pointed : Bool}

theorem mem (h : Layout pointed cs) {d : Char} (hd : d ∈ cs) :
    d.isDigit = true ∨ d = '.' ∨ d = '_' := by
  induction h with
  | nil => cases hd
  | digit hDigit _ ih =>
    rcases List.mem_cons.mp hd with rfl | hLater
    · exact Or.inl hDigit
    · exact ih hLater
  | underscore _ ih =>
    rcases List.mem_cons.mp hd with rfl | hLater
    · exact Or.inr (Or.inr rfl)
    · exact ih hLater
  | point _ ih =>
    rcases List.mem_cons.mp hd with rfl | hLater
    · exact Or.inr (Or.inl rfl)
    · exact ih hLater

theorem of_all (h : ∀ c ∈ cs, c.isDigit = true ∨ c = '_') : Layout pointed cs := by
  induction cs with
  | nil => exact .nil pointed
  | cons c cs ih =>
    have hLater := ih fun d hd => h d (List.mem_cons_of_mem c hd)
    rcases h c List.mem_cons_self with hDigit | rfl
    · exact .digit hDigit hLater
    · exact .underscore hLater

theorem of_dropWhile (h : Layout pointed (cs.dropWhile (· == '_'))) : Layout pointed cs := by
  induction cs with
  | nil => exact h
  | cons c cs ih =>
    by_cases hFirst : c = '_'
    · subst hFirst
      exact .underscore (ih h)
    · rwa [List.dropWhile_cons_of_neg (by simpa using hFirst)] at h

end Layout

section

variable {b : Gathered}

theorem layout_of_finish {pointed : Bool} (h : finish a cs = some b) : Layout pointed cs := by
  cases cs with
  | nil => exact .nil pointed
  | cons c cs =>
    rw [finish] at h
    split at h
    · next hFirst =>
      split at h
      · next hRest =>
        refine .of_all fun d hd => ?_
        rcases List.mem_cons.mp hd with rfl | hLater
        · simpa [or_comm] using hFirst
        · simpa using List.all_eq_true.mp hRest d hLater
      · cases h
    · cases h

theorem layout_of_gatherLarge (h : gatherLarge a cs = some b) : Layout a.hasPoint cs := by
  induction cs generalizing a with
  | nil => exact .nil a.hasPoint
  | cons c cs ih =>
    rw [gatherLarge] at h
    split at h
    · next hDigit =>
      split at h
      · split at h
        · exact layout_of_finish h
        · cases h
      · dsimp only at h
        split at h
        · exact .digit hDigit (.of_dropWhile (layout_of_finish h))
        · have hLater := ih h
          exact .digit hDigit hLater
    · split at h
      · next hPoint =>
        obtain ⟨rfl, hFirst⟩ := hPoint
        rw [Bool.not_eq_true'] at hFirst
        exact hFirst ▸ .point (ih h)
      · split at h
        · next hUnderscore =>
          subst hUnderscore
          exact .underscore (ih h)
        · cases h

/-- What the reader accepts is laid out as a number, with a digit in it. -/
theorem layout_of_gather {long : Bool} (h : gather long a cs = some b) :
    Layout a.hasPoint cs ∧ (a.hasDigit = true ∨ ∃ c ∈ cs, c.isDigit = true) := by
  induction cs generalizing a with
  | nil =>
    rw [gather] at h
    split at h
    · next hDigit => exact ⟨.nil a.hasPoint, Or.inl hDigit⟩
    · cases h
  | cons c cs ih =>
    rw [gather] at h
    split at h
    · next hDigit =>
      dsimp only at h
      refine ⟨.digit hDigit ?_, Or.inr ⟨c, List.mem_cons_self, hDigit⟩⟩
      split at h
      · exact layout_of_finish h
      · split at h
        · have hLater := layout_of_gatherLarge h
          exact hLater
        · exact (ih h).1
    · have hLater : (a.hasDigit = true ∨ ∃ d ∈ cs, d.isDigit = true) →
          (a.hasDigit = true ∨ ∃ d ∈ c :: cs, d.isDigit = true) :=
        Or.imp_right fun hSome => List.exists_mem_cons_of_exists hSome
      split at h
      · next hPoint =>
        obtain ⟨rfl, hFirst⟩ := hPoint
        rw [Bool.not_eq_true'] at hFirst
        obtain ⟨hLayout, hSome⟩ := ih h
        exact ⟨hFirst ▸ .point hLayout, hLater hSome⟩
      · split at h
        · next hUnderscore =>
          obtain ⟨rfl, hDigit⟩ := hUnderscore
          exact ⟨.underscore (ih h).1, Or.inl hDigit⟩
        · cases h

end

/-- No digit, no point and no underscore. -/
def IsForeign (c : Char) : Prop := c.isDigit = false ∧ c ≠ '.' ∧ c ≠ '_'

/-- No state gets past a character of no number. -/
theorem gather_of_foreign {long : Bool} {d : Char} (hd : IsForeign d) (h : d ∈ cs) :
    gather long a cs = none := by
  rw [Option.eq_none_iff_forall_ne_some]
  intro b hb
  obtain ⟨hDigit, hPoint, hUnderscore⟩ := hd
  rcases (layout_of_gather hb).1.mem h with hIs | rfl | rfl
  · rw [hDigit] at hIs
    cases hIs
  · exact hPoint rfl
  · exact hUnderscore rfl

end ScalarCell.Decimal
