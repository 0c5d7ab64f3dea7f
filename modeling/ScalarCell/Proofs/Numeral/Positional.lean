import Mathlib.Data.Rat.Floor
import Mathlib.Tactic.FieldSimp
import Mathlib.Tactic.Linarith
import Mathlib.Tactic.Positivity
import ScalarCell.Proofs.Numeral.Plain

/-!
# Numbers written place by place

A `Positional` is a number as it is written without an exponent, `[sign] whole [. fraction]`, with
any number of digits on either side of the point and at least one in all.

* `toRat` is the number that is written, `integerPart` what stands before its point.
* `cutAt k` keeps the digits down to the place `k` behind the point and `roundedAt k` rounds to that
  place, halves up; the first digit left out decides between the two (`roundedAt_eq`).
* `ofScaled` is a scaled number with all its places, which are the same number
  (`magnitude_ofScaled`).
-/

namespace ScalarCell.Numeral

/-- What may stand in front of a number. -/
inductive Sign where
  | none
  | plus
  | minus
deriving DecidableEq

namespace Sign

def text : Sign → List Char
  | none => []
  | plus => ['+']
  | minus => ['-']

def isMinus : Sign → Bool
  | minus => true
  | _ => false

theorem exists_splitSign (cs : List Char) :
    ∃ (sign : Sign) (rest : List Char), cs = sign.text ++ rest ∧
      splitSign cs = (sign.isMinus, rest) := by
  unfold splitSign
  split
  · exact ⟨plus, _, rfl, rfl⟩
  · exact ⟨minus, _, rfl, rfl⟩
  · exact ⟨none, _, rfl, rfl⟩

/-- A sign is taken off as it stands in front of anything but another one. -/
theorem splitSign_append (sign : Sign) {cs : List Char}
    (h : ∀ c ∈ cs.head?, c ≠ '+' ∧ c ≠ '-') :
    splitSign (sign.text ++ cs) = (sign.isMinus, cs) := by
  cases sign with
  | plus => rfl
  | minus => rfl
  | none =>
    rw [text, List.nil_append]
    unfold splitSign
    split
    · exact absurd rfl (h '+' rfl).1
    · exact absurd rfl (h '-' rfl).2
    · rfl

theorem splitSign_append_of_not_mem (sign : Sign) {cs : List Char} (hPlus : '+' ∉ cs)
    (hMinus : '-' ∉ cs) : splitSign (sign.text ++ cs) = (sign.isMinus, cs) := by
  refine sign.splitSign_append fun c hc => ?_
  have hMem := List.mem_of_mem_head? hc
  constructor <;> rintro rfl
  · exact hPlus hMem
  · exact hMinus hMem

end Sign

theorem readInt?_signed (sign : Sign) {run : List Char} (hRun : isRun run = true) :
    readInt? (sign.text ++ run) = some (applySign sign.isMinus (value run)) := by
  have hDigits := (isRun_iff.mp hRun).2
  have hSplit : splitSign (sign.text ++ run) = (sign.isMinus, run) := by
    apply sign.splitSign_append_of_not_mem <;> intro h <;> cases hDigits _ h
  rw [readInt?, hSplit]
  exact if_pos hRun

/-- A number without an exponent, the way it is written. -/
structure Positional where
  sign : Sign
  whole : List Char
  /-- The digits behind the point, if there is a point. -/
  fraction? : Option (List Char)
  isRun_run : isRun (whole ++ fraction?.getD []) = true

namespace Positional

variable (x : Positional)

def negative : Bool := x.sign.isMinus

def fraction : List Char := x.fraction?.getD []

/-- All digits, without the point. -/
def run : List Char := x.whole ++ x.fraction

/-- The point with the digits behind it. -/
def tail : List Char :=
  match x.fraction? with
  | none => []
  | some fraction => '.' :: fraction

def body : List Char := x.whole ++ x.tail

def text : List Char := x.sign.text ++ x.body

/-- The number without its sign. -/
def magnitude : ℚ := value x.run / 10 ^ x.fraction.length

def toRat : ℚ := if x.negative then -x.magnitude else x.magnitude

def integerPart : ℤ := applySign x.negative (value x.whole)

/-- The digits down to place `k` behind the point as one number. -/
def cutAt (k : ℕ) : ℕ := value (x.whole ++ x.fraction.take k)

/-- The magnitude in units of the place `k` behind the point, to the nearest one, halves up. -/
def roundedAt (k : ℕ) : ℕ := ⌊x.magnitude * 10 ^ k + 1 / 2⌋₊

/-- A run of digits behind a sign, without a point. -/
def ofRun (sign : Sign) (run : List Char) (h : isRun run = true) : Positional :=
  ⟨sign, run, Option.none, by rwa [Option.getD_none, List.append_nil]⟩

/-- A scaled number with all its places. -/
def ofScaled (negative : Bool) (c : Scaled) : Positional :=
  ⟨if negative then .minus else .none, c.wholePart,
    if c.fractionPart.isEmpty then Option.none else some c.fractionPart, by
      rw [isRun_iff]
      refine ⟨List.append_ne_nil_of_left_ne_nil (isRun_iff.mp c.isRun_wholePart).1 _,
        allDigits_append.mpr ⟨(isRun_iff.mp c.isRun_wholePart).2, ?_⟩⟩
      split
      · exact allDigits_nil
      · exact c.allDigits_fractionPart⟩

/-! ## Digits and characters -/

theorem allDigits_run : AllDigits x.run := (isRun_iff.mp x.isRun_run).2

theorem allDigits_whole : AllDigits x.whole := (allDigits_append.mp x.allDigits_run).1

theorem allDigits_fraction : AllDigits x.fraction := (allDigits_append.mp x.allDigits_run).2

theorem tail_eq : x.tail = x.fraction?.elim [] ('.' :: ·) := by
  unfold tail
  cases x.fraction? <;> rfl

theorem mem_tail {c : Char} (h : c ∈ x.tail) : c.isDigit = true ∨ c = '.' := by
  have hFraction := x.allDigits_fraction
  unfold tail at h
  unfold fraction at hFraction
  cases hPoint : x.fraction? with
  | none =>
    rw [hPoint] at h
    cases h
  | some later =>
    rw [hPoint] at h hFraction
    exact (List.mem_cons.mp h).symm.imp_left (hFraction c)

theorem mem_body {c : Char} (h : c ∈ x.body) : c.isDigit = true ∨ c = '.' :=
  (List.mem_append.mp h).elim (fun hWhole => Or.inl (x.allDigits_whole c hWhole)) x.mem_tail

theorem underscore_not_mem_body : '_' ∉ x.body := by
  intro h
  rcases x.mem_body h with hDigit | hPoint
  · cases hDigit
  · cases hPoint

theorem mem_text {c : Char} (h : c ∈ x.text) :
    c.isDigit = true ∨ c = '.' ∨ c = '+' ∨ c = '-' := by
  rcases List.mem_append.mp h with hSign | hBody
  · cases hKind : x.sign with
    | none =>
      rw [hKind] at hSign
      cases hSign
    | plus =>
      rw [hKind] at hSign
      exact Or.inr (Or.inr (Or.inl (List.mem_singleton.mp hSign)))
    | minus =>
      rw [hKind] at hSign
      exact Or.inr (Or.inr (Or.inr (List.mem_singleton.mp hSign)))
  · exact (x.mem_body hBody).imp_right Or.inl

/-- Some character is a digit, on one side of the point or the other. -/
theorem exists_digit_mem_body : ∃ c ∈ x.body, c.isDigit = true := by
  obtain ⟨c, hc⟩ := List.exists_mem_of_ne_nil _ (isRun_iff.mp x.isRun_run).1
  refine ⟨c, ?_, x.allDigits_run c hc⟩
  rcases List.mem_append.mp hc with hWhole | hFraction
  · exact List.mem_append_left _ hWhole
  · refine List.mem_append_right _ ?_
    unfold tail
    cases hPoint : x.fraction? with
    | none =>
      rw [hPoint] at hFraction
      cases hFraction
    | some later =>
      rw [hPoint] at hFraction
      exact List.mem_cons_of_mem _ hFraction

theorem splitSign_text_append (rest : List Char) :
    splitSign (x.text ++ rest) = (x.negative, x.body ++ rest) := by
  rw [text, List.append_assoc]
  refine x.sign.splitSign_append fun c hc => ?_
  obtain ⟨d, hd, -⟩ := x.exists_digit_mem_body
  rw [List.head?_append_of_ne_nil _ (List.ne_nil_of_mem hd)] at hc
  rcases x.mem_body (List.mem_of_mem_head? hc) with hDigit | rfl
  · constructor <;> rintro rfl <;> cases hDigit
  · decide

theorem splitSign_text : splitSign x.text = (x.negative, x.body) := by
  have hSplit := x.splitSign_text_append []
  rwa [List.append_nil, List.append_nil] at hSplit

/-- With a digit before the point, and no point without digits behind it. -/
theorem exists_of_parts (negative : Bool) {whole fraction : List Char}
    (hWhole : isRun whole = true) (hFraction : AllDigits fraction) :
    ∃ x : Positional, x.text = (if negative then ['-'] else []) ++ (whole ++ pointed fraction) ∧
      x.negative = negative ∧ x.whole = whole ∧ x.fraction = fraction := by
  have hRun : isRun (whole ++ fraction) = true :=
    isRun_iff.mpr ⟨List.append_ne_nil_of_left_ne_nil (isRun_iff.mp hWhole).1 _,
      allDigits_append.mpr ⟨(isRun_iff.mp hWhole).2, hFraction⟩⟩
  cases fraction with
  | nil =>
    refine ⟨⟨if negative then .minus else .none, whole, none, hRun⟩, ?_, ?_, rfl, rfl⟩
    · cases negative <;> rfl
    · cases negative <;> rfl
  | cons c cs =>
    refine ⟨⟨if negative then .minus else .none, whole, some (c :: cs), hRun⟩, ?_, ?_, rfl, rfl⟩
    · cases negative <;> rfl
    · cases negative <;> rfl

theorem text_ofRun (sign : Sign) (run : List Char) (h : isRun run = true) :
    (ofRun sign run h).text = sign.text ++ run := by
  rw [text, body, tail, ofRun, List.append_nil]

/-- What is read as a whole number is a run of digits, perhaps behind a sign. -/
theorem exists_ofRun_of_readInt? {cs : List Char} {n : ℤ} (h : readInt? cs = some n) :
    ∃ sign run, ∃ hRun : isRun run = true,
      (ofRun sign run hRun).text = cs ∧ (ofRun sign run hRun).integerPart = n := by
  obtain ⟨sign, run, hText, hSplit⟩ := Sign.exists_splitSign cs
  rw [readInt?, hSplit] at h
  dsimp only at h
  split at h
  · next hRun => exact ⟨sign, run, hRun, (text_ofRun _ _ hRun).trans hText.symm, Option.some.inj h⟩
  · cases h

/-! ## Scaled numbers -/

section

variable (negative : Bool) (c : Scaled)

theorem negative_ofScaled : (ofScaled negative c).negative = negative := by
  cases negative <;> rfl

theorem fraction_ofScaled : (ofScaled negative c).fraction = c.fractionPart := by
  rw [fraction, ofScaled]
  dsimp only
  split
  · next hEmpty => exact (List.isEmpty_iff.mp hEmpty).symm
  · rfl

theorem length_fraction_ofScaled :
    (ofScaled negative c).fraction.length = (-c.exponent).toNat := by
  rw [fraction_ofScaled, c.length_fractionPart]

theorem value_run_ofScaled :
    value (ofScaled negative c).run = c.coefficient * 10 ^ c.exponent.toNat := by
  rw [run, fraction_ofScaled, ← c.value_parts]
  rfl

theorem text_ofScaled :
    (ofScaled negative c).text = (if negative then ['-'] else []) ++ c.plain := by
  have hSign : (ofScaled negative c).sign.text = if negative then ['-'] else [] := by
    cases negative <;> rfl
  have hTail : (ofScaled negative c).tail = pointed c.fractionPart := by
    unfold tail pointed ofScaled
    dsimp only
    cases c.fractionPart.isEmpty <;> rfl
  rw [text, hSign, body, hTail, c.plain_eq]
  rfl

theorem magnitude_ofScaled : (ofScaled negative c).magnitude = c.magnitude := by
  have hPower : (10 : ℚ) ^ c.exponent = 10 ^ c.exponent.toNat / 10 ^ (-c.exponent).toNat := by
    rw [← zpow_natCast, ← zpow_natCast, ← zpow_sub₀ (by norm_num)]
    exact congrArg _ (by omega)
  rw [magnitude, value_run_ofScaled, length_fraction_ofScaled, Scaled.magnitude, hPower]
  push_cast
  ring

end

/-! ## Cut and rounded -/

theorem cutAt_zero : x.cutAt 0 = value x.whole := by
  rw [cutAt, List.take_zero, List.append_nil]

theorem cutAt_length : x.cutAt x.fraction.length = value x.run := by
  rw [cutAt, List.take_length, run]

theorem value_run_div : value x.run / 10 ^ x.fraction.length = value x.whole := by
  rw [run, value_append, Nat.mul_comm, Nat.mul_add_div (by positivity),
    Nat.div_eq_of_lt (value_lt_pow x.allDigits_fraction), Nat.add_zero]

variable {x} {k : ℕ}

theorem allDigits_take : AllDigits (x.fraction.take k) :=
  fun c hc => x.allDigits_fraction c (List.mem_of_mem_take hc)

theorem value_take_lt (hk : k ≤ x.fraction.length) : value (x.fraction.take k) < 10 ^ k := by
  have hBelow := value_lt_pow (x.allDigits_take (k := k))
  rwa [List.length_take_of_le hk] at hBelow

theorem cutAt_eq (hk : k ≤ x.fraction.length) :
    x.cutAt k = value x.whole * 10 ^ k + value (x.fraction.take k) := by
  rw [cutAt, value_append, List.length_take, Nat.min_eq_left hk]

theorem cutAt_succ (hk : k < x.fraction.length) :
    x.cutAt (k + 1) = x.cutAt k * 10 + value [x.fraction[k]] := by
  rw [cutAt, List.take_succ_eq_append_getElem hk, ← List.append_assoc, value_append]
  rfl

theorem value_run_eq (k : ℕ) :
    value x.run = x.cutAt k * 10 ^ (x.fraction.length - k) + value (x.fraction.drop k) := by
  rw [run, cutAt, ← List.length_drop, ← value_append, List.append_assoc, List.take_append_drop]

/-- What the cut leaves out is a fraction of the last place kept, and its first digit says whether
that is half of one or more. -/
theorem exists_left_out (hk : k < x.fraction.length) :
    ∃ q : ℚ, x.magnitude * 10 ^ k = x.cutAt k + q ∧
      (value [x.fraction[k]] : ℚ) / 10 ≤ q ∧ q < (value [x.fraction[k]] + 1) / 10 := by
  have hDrop : x.fraction.drop k = x.fraction[k] :: x.fraction.drop (k + 1) :=
    List.drop_eq_getElem_cons hk
  have hRest : value (x.fraction.drop (k + 1)) < 10 ^ (x.fraction.drop (k + 1)).length :=
    value_lt_pow fun c hc => x.allDigits_fraction c (List.mem_of_mem_drop hc)
  have hRun := x.value_run_eq k
  rw [hDrop, value_cons] at hRun
  rw [List.length_drop] at hRest hRun
  obtain ⟨n, hn⟩ : ∃ n, x.fraction.length = k + 1 + n := ⟨x.fraction.length - (k + 1), by omega⟩
  have hPlaces : x.fraction.length - k = n + 1 := by omega
  have hLater : x.fraction.length - (k + 1) = n := by omega
  rw [hPlaces, hLater] at hRun
  rw [hLater] at hRest
  have hRestRat : (value (x.fraction.drop (k + 1)) : ℚ) < 10 ^ n := by exact_mod_cast hRest
  have hUnit : (0 : ℚ) < 10 ^ n := by positivity
  refine ⟨value [x.fraction[k]] / 10 + value (x.fraction.drop (k + 1)) / 10 ^ (n + 1), ?_, ?_, ?_⟩
  · rw [magnitude, hRun, hn]
    push_cast
    field_simp
    ring
  · exact le_add_of_nonneg_right (by positivity)
  · have hBelow : (value (x.fraction.drop (k + 1)) : ℚ) / 10 ^ (n + 1) < 1 / 10 := by
      rw [div_lt_div_iff₀ (by positivity) (by norm_num), pow_succ]
      linarith
    linarith

/-- The first digit left out rounds. -/
theorem roundedAt_eq (hk : k < x.fraction.length) :
    x.roundedAt k = x.cutAt k + if 5 ≤ value [x.fraction[k]] then 1 else 0 := by
  obtain ⟨q, hMagnitude, hLow, hHigh⟩ := exists_left_out hk
  have hDigit : (value [x.fraction[k]] : ℚ) ≤ 9 := by
    exact_mod_cast value_singleton_le (x.allDigits_fraction _ (List.getElem_mem hk))
  have hNonneg : (0 : ℚ) ≤ value [x.fraction[k]] := Nat.cast_nonneg _
  have hCut : (0 : ℚ) ≤ x.cutAt k := Nat.cast_nonneg _
  rw [roundedAt, hMagnitude, Nat.floor_eq_iff (by linarith)]
  split
  · next hUp =>
    have hFive : (5 : ℚ) ≤ value [x.fraction[k]] := by exact_mod_cast hUp
    push_cast
    constructor <;> linarith
  · next hDown =>
    have hFour : (value [x.fraction[k]] : ℚ) ≤ 4 := by
      exact_mod_cast Nat.lt_succ_iff.mp (not_le.mp hDown)
    push_cast
    constructor <;> linarith

end Positional

end ScalarCell.Numeral
