import Mathlib.Tactic.FieldSimp
import ScalarCell.Numeral.Literal
import ScalarCell.Proofs.Numeral.Magnitude
import ScalarCell.Proofs.Numeral.Positional

/-!
# Written numbers read as literals

A sign, a run of digits and a fraction are read as they stand, up to what follows them
(`read?_numeral`). So both layouts of a scaled number read back as literals of its magnitude: the
one with all places written (`read?_plain`) and the one with an exponent (`read?_withExponent`).
-/

namespace ScalarCell.Numeral

/-- Nothing at the front that would go on a numeral. -/
def EndsNumeral (tail : List Char) : Prop := ∀ c ∈ tail.head?, c.isDigit = false ∧ c ≠ '.'

theorem endsNumeral_nil : EndsNumeral [] := fun _ h => by cases h

theorem takeWhile_isDigit_append {run rest : List Char} (hRun : AllDigits run)
    (hRest : ∀ c ∈ rest.head?, c.isDigit = false) :
    (run ++ rest).takeWhile Char.isDigit = run ∧ (run ++ rest).dropWhile Char.isDigit = rest := by
  rw [List.takeWhile_append_of_pos hRun, List.dropWhile_append_of_pos hRun]
  cases rest with
  | nil => simp
  | cons c rest =>
    have hHead := hRest c rfl
    simp [hHead]

namespace Literal

theorem splitFraction_append (x : Positional) {rest : List Char} (hRest : EndsNumeral rest) :
    splitFraction (x.tail ++ rest) = (x.fraction, rest) := by
  have hDigits := x.allDigits_fraction
  unfold Positional.tail
  unfold Positional.fraction at hDigits ⊢
  cases hPoint : x.fraction? with
  | none =>
    rw [List.nil_append, Option.getD_none]
    unfold splitFraction
    split
    · exact absurd rfl (hRest '.' rfl).2
    · rfl
  | some fraction =>
    rw [hPoint, Option.getD_some] at hDigits
    obtain ⟨hTake, hDrop⟩ := takeWhile_isDigit_append hDigits fun c hc => (hRest c hc).1
    rw [List.cons_append, splitFraction, hTake, hDrop]
    rfl

/-- A numeral is read up to what follows it. -/
theorem read?_append (x : Positional) {rest : List Char} (hRest : EndsNumeral rest) :
    read? (x.text ++ rest) =
      (readExponent? rest).map fun exponent => ⟨x.negative, x.whole, x.fraction, exponent⟩ := by
  have hTail : ∀ c ∈ (x.tail ++ rest).head?, c.isDigit = false := by
    unfold Positional.tail
    cases x.fraction? with
    | none => exact fun c hc => (hRest c hc).1
    | some fraction =>
      intro c hc
      cases hc
      rfl
  obtain ⟨hTake, hDrop⟩ := takeWhile_isDigit_append x.allDigits_whole hTail
  have hSome : (x.whole.isEmpty && x.fraction.isEmpty) = false := by
    have hNonempty : x.whole ++ x.fraction ≠ [] := (isRun_iff.mp x.isRun_run).1
    rw [Bool.eq_false_iff, Ne, Bool.and_eq_true, List.isEmpty_iff, List.isEmpty_iff]
    exact fun hBoth => hNonempty (List.append_eq_nil_iff.mpr hBoth)
  rw [read?, x.splitSign_text_append, Positional.body, List.append_assoc]
  dsimp only
  rw [hTake, hDrop, splitFraction_append x hRest]
  dsimp only
  rw [hSome]
  rfl

/-- With a digit before the point, and no point without digits behind it. -/
theorem read?_numeral (negative : Bool) {whole fraction tail : List Char}
    (hWhole : isRun whole = true) (hFraction : AllDigits fraction) (hTail : EndsNumeral tail) :
    read? ((if negative then ['-'] else []) ++ (whole ++ (pointed fraction ++ tail))) =
      (readExponent? tail).map fun exponent => ⟨negative, whole, fraction, exponent⟩ := by
  obtain ⟨x, hText, hSign, hWhole', hFraction'⟩ :=
    Positional.exists_of_parts negative hWhole hFraction
  have hRead := read?_append x hTail
  rw [hText, hSign, hWhole', hFraction', List.append_assoc, List.append_assoc] at hRead
  exact hRead

/-! ## Every place written -/

theorem read?_plain (negative : Bool) (c : Scaled) :
    read? ((if negative then ['-'] else []) ++ c.plain) =
      some ⟨negative, c.wholePart, c.fractionPart, 0⟩ := by
  have hRead := read?_numeral negative c.isRun_wholePart c.allDigits_fractionPart endsNumeral_nil
  rw [List.append_nil] at hRead
  rw [c.plain_eq, hRead]
  rfl

theorem magnitude_plain (negative : Bool) (c : Scaled) :
    (⟨negative, c.wholePart, c.fractionPart, 0⟩ : Literal).scaled.magnitude = c.magnitude := by
  have hValue : (value (c.wholePart ++ c.fractionPart) : ℚ) =
      c.coefficient * 10 ^ c.exponent.toNat := by
    rw [c.value_parts]
    exact_mod_cast rfl
  have hPlaces : (0 : ℤ) - c.fractionPart.length = c.exponent - c.exponent.toNat := by
    rw [c.length_fractionPart]
    omega
  simp only [scaled, Scaled.magnitude]
  rw [hValue, hPlaces, zpow_sub₀ (by norm_num), zpow_natCast]
  field_simp

end Literal

/-! ## With an exponent -/

namespace Scaled

theorem isRun_paddedDigits (n : ℕ) : isRun (paddedDigits n) = true := by
  unfold paddedDigits
  split
  · exact isRun_iff.mpr ⟨List.cons_ne_nil _ _, allDigits_cons.mpr ⟨rfl, allDigits_digits n⟩⟩
  · exact isRun_digits n

theorem value_paddedDigits (n : ℕ) : value (paddedDigits n) = n := by
  unfold paddedDigits
  split
  · have hZero : '0' :: digits n = List.replicate 1 '0' ++ digits n := rfl
    rw [hZero, value_replicate_zero_append, value_digits]
  · exact value_digits n

theorem two_le_length_paddedDigits (n : ℕ) : 2 ≤ (paddedDigits n).length := by
  have hPos := length_digits_pos n
  unfold paddedDigits
  split
  · rw [List.length_cons]
    omega
  · next hLarge =>
    by_contra hShort
    have hLess := (Nat.length_toDigits_le_iff (n := n) (by decide) one_pos).mp
      (Nat.lt_succ_iff.mp (not_le.mp hShort))
    exact hLarge hLess

/-- The exponent with its sign and at least two digits. -/
def exponentText (e : ℤ) : List Char :=
  'e' :: (if e < 0 then '-' else '+') :: paddedDigits e.natAbs

theorem withExponent_eq (c : Scaled) : c.withExponent =
    (digits c.coefficient).take 1 ++
      (pointed ((digits c.coefficient).drop 1) ++ exponentText c.leadingExponent) := by
  rw [← List.append_assoc]
  rfl

end Scaled

theorem readExponent?_exponentText (e : ℤ) :
    Literal.readExponent? (Scaled.exponentText e) = some e := by
  have hRun := Scaled.isRun_paddedDigits e.natAbs
  have hValue := Scaled.value_paddedDigits e.natAbs
  rw [Scaled.exponentText, Literal.readExponent?, if_pos (Or.inl rfl)]
  split
  · next hNegative =>
    rw [readInt?, splitSign]
    dsimp only
    rw [hRun, if_pos rfl, hValue, applySign, if_pos rfl]
    exact congrArg some (by omega)
  · next hPositive =>
    rw [readInt?, splitSign]
    dsimp only
    rw [hRun, if_pos rfl, hValue, applySign, if_neg (by decide)]
    exact congrArg some (by omega)

theorem endsNumeral_exponentText (e : ℤ) : EndsNumeral (Scaled.exponentText e) := by
  intro c hc
  cases hc
  exact ⟨rfl, by decide⟩

theorem Literal.read?_withExponent (negative : Bool) (c : Scaled) :
    read? ((if negative then ['-'] else []) ++ c.withExponent) =
      some ⟨negative, (digits c.coefficient).take 1, (digits c.coefficient).drop 1,
        c.leadingExponent⟩ := by
  have hPos := length_digits_pos c.coefficient
  have hWhole : isRun ((digits c.coefficient).take 1) = true := by
    refine isRun_iff.mpr ⟨?_, fun d hd => allDigits_digits _ d (List.mem_of_mem_take hd)⟩
    rw [← List.length_pos_iff, List.length_take]
    omega
  have hFraction : AllDigits ((digits c.coefficient).drop 1) :=
    fun d hd => allDigits_digits _ d (List.mem_of_mem_drop hd)
  rw [c.withExponent_eq, read?_numeral negative hWhole hFraction (endsNumeral_exponentText _),
    readExponent?_exponentText]
  rfl

theorem Literal.scaled_withExponent (negative : Bool) (c : Scaled) :
    (⟨negative, (digits c.coefficient).take 1, (digits c.coefficient).drop 1,
      c.leadingExponent⟩ : Literal).scaled = c := by
  have hPos := length_digits_pos c.coefficient
  have hPlace : c.leadingExponent - ((digits c.coefficient).length - 1 : ℕ) = c.exponent := by
    unfold Scaled.leadingExponent
    omega
  simp only [scaled]
  rw [List.take_append_drop, value_digits, List.length_drop, hPlace]

end ScalarCell.Numeral
