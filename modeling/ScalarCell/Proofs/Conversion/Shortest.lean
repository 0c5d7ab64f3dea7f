import ScalarCell.Proofs.Binary.Reader
import ScalarCell.Proofs.Binary.Shortest
import ScalarCell.Proofs.Cell.Reading
import ScalarCell.Proofs.Decimal.Places

/-!
# Floating-point numbers as decimals

A finite number becomes the decimal that its shortest digits write. They are too few to exceed a
mantissa unless the integer part does (`Binary.Finite.value_run_written_lt`), so if the number is not
an overflow, then only the scale makes it round (`Decimal.exists_readPlain?_of_run_lt`).
`floats_as_written` puts this into terms of cells, for doubles and for singles with their own digits.
-/

namespace ScalarCell

open Decimal (mantissaBound maxScale roundedTo)
open Numeral

/-! ## Reading digits that fit -/

/-- If all digits fit a mantissa, the number is read to the places of the scale. -/
theorem Decimal.exists_readPlain?_of_run_lt {x : Positional} (hFits : value x.run < mantissaBound) :
    ∃ d, readPlain? x.text = some d ∧ d.scale = min maxScale x.fraction.length ∧
      d.toRat = roundedTo maxScale x.toRat := by
  rcases le_or_gt x.fraction.length maxScale with hScale | hScale
  · obtain ⟨d, hRead, -, hPlaces, hValue⟩ := exists_readPlain?_of_fits hFits hScale
    refine ⟨d, hRead, hPlaces.trans (min_eq_right hScale).symm, ?_⟩
    rw [← hValue, roundedTo_toRat]
  · obtain ⟨d, hRead, hMantissa, hPlaces, hSign⟩ :=
      exists_readPlain?_of_rounded? (Positional.rounded?_of_run_lt hFits hScale)
    refine ⟨d, hRead, hPlaces.trans (min_eq_left hScale.le).symm, ?_⟩
    have hNonneg : 0 ≤ x.magnitude := by
      rw [Positional.magnitude]
      positivity
    rw [toRat_of_unsignedZero (hMantissa ▸ hSign), hMantissa, hPlaces, Positional.toRat,
      roundedTo_signed _ _ hNonneg]
    rfl

theorem Numeral.Positional.roundedTo_toRat (x : Positional) {k : ℕ} (h : x.fraction.length ≤ k) :
    roundedTo k x.toRat = x.toRat :=
  Decimal.roundedTo_places x.negative (value x.run) h

/-- An integer part that does not fit is not read at all. -/
theorem Decimal.readPlain?_eq_none_of_le_whole {x : Positional}
    (hWhole : mantissaBound ≤ value x.whole) : readPlain? x.text = none := by
  rw [readPlain?_positional, Positional.rounded?, if_pos hWhole, Option.bind_none]

/-! ## The shortest digits -/

namespace Binary.Finite

variable {F : Format} (y : Finite F)

/-- The number as its shortest digits write it, with every place. -/
def written : Positional := .ofScaled y.negative y.shortest

theorem text_written : y.written.text = (finite y).plain := Positional.text_ofScaled _ _

theorem read?_text_written [F.Proper] : read? F y.written.text = some (finite y) := by
  rw [written, Positional.text_ofScaled, read?_plain, y.nearest_shortest]

variable {y} in
/-- The digits in front of the point are all digits, or there are only few digits. -/
theorem value_run_written_lt [F.Proper] (hDigits : F.mantissaBound < 10 ^ 16)
    (hWhole : value y.written.whole < mantissaBound) : value y.written.run < mantissaBound := by
  have hLength : y.written.fraction.length = (-y.shortest.exponent).toNat :=
    Positional.length_fraction_ofScaled _ _
  rcases le_total 0 y.shortest.exponent with hUnits | hPlaces
  · have hNone : y.written.fraction.length = 0 := by omega
    rwa [← y.written.value_run_div, hNone, pow_zero, Nat.div_one] at hWhole
  · have hRun : value y.written.run = y.shortest.coefficient := by
      rw [written, Positional.value_run_ofScaled, Int.toNat_of_nonpos hPlaces, pow_zero, mul_one]
    have hFew : y.shortest.coefficient < 10 ^ 17 := y.coefficient_shortest_lt hDigits
    rw [hRun]
    exact hFew.trans (by decide)

end Binary.Finite

/-! ## The conversion -/

namespace Decimal

variable {F : Binary.Format} {y : Binary.Finite F}

theorem ofBinary_eq_overflow (hWhole : mantissaBound ≤ value y.written.whole) :
    ofBinary (.finite y) = .error (Target.decimal.overflow y.written.text) := by
  have hRead := readPlain?_eq_none_of_le_whole hWhole
  rw [y.text_written] at hRead ⊢
  rw [ofBinary, Binary.isFinite, if_pos rfl, hRead]

theorem exists_ofBinary [F.Proper] (hDigits : F.mantissaBound < 10 ^ 16)
    (hWhole : value y.written.whole < mantissaBound) :
    ∃ d, ofBinary (.finite y) = .ok d ∧ d.scale = min maxScale y.written.fraction.length ∧
      d.toRat = roundedTo maxScale y.written.toRat := by
  obtain ⟨d, hRead, hScale, hValue⟩ :=
    exists_readPlain?_of_run_lt (Binary.Finite.value_run_written_lt hDigits hWhole)
  rw [y.text_written] at hRead
  refine ⟨d, ?_, hScale, hValue⟩
  rw [ofBinary, Binary.isFinite, if_pos rfl, hRead]

end Decimal

/-! ## Cells -/

/-- As a decimal, the cell is `y` the way its shortest digits write it. They read back as `y`, and no
decimal with fewer digits does. An integer part that does not fit a mantissa is an overflow. Otherwise
the decimal has the digits of the fraction up to the twenty-eighth, where a half rounds away from
zero. -/
structure Cell.ReadsAsWritten {F : Binary.Format} (c : Cell) (y : Binary.Finite F) : Prop where
  text_eq : y.written.text = (Binary.finite y).plain
  magnitude_eq : y.written.magnitude = y.shortest.magnitude
  reads_back : Binary.read? F y.written.text = some (.finite y)
  shortest : ∀ e : Scaled, Binary.nearest F y.negative e.magnitude = .finite y →
    (digits y.shortest.coefficient).length ≤ (digits e.coefficient).length
  overflow_iff : c.get .decimal = .error (Target.decimal.overflow y.written.text) ↔
    2 ^ 96 ≤ Numeral.value y.written.whole
  ok_iff : (∃ d, c.get .decimal = .ok (.present d)) ↔ Numeral.value y.written.whole < 2 ^ 96
  scale_eq : ∀ d : Decimal, c.get .decimal = .ok (.present d) →
    d.scale = min 28 y.written.fraction.length
  rounded : ∀ d : Decimal, c.get .decimal = .ok (.present d) → d.toRat = roundedTo 28 y.written.toRat
  exact : ∀ d : Decimal, c.get .decimal = .ok (.present d) → y.written.fraction.length ≤ 28 →
    d.toRat = y.written.toRat

theorem Scalar.readsAsWritten {F : Binary.Format} [F.Proper] {v : Scalar} {config : Config}
    {y : Binary.Finite F} (hDigits : F.mantissaBound < 10 ^ 16)
    (h : v.getDecimal config = Decimal.ofBinary (.finite y)) (reported : Oid) :
    Cell.ReadsAsWritten ⟨reported, some v, config⟩ y := by
  rcases le_or_gt mantissaBound (value y.written.whole) with hWhole | hWhole
  · have hError : (⟨reported, some v, config⟩ : Cell).get .decimal =
        .error (Target.decimal.overflow y.written.text) :=
      Cell.get_eq_error_iff.mpr (h.trans (Decimal.ofBinary_eq_overflow hWhole))
    have hNone : ∀ d : Decimal, (⟨reported, some v, config⟩ : Cell).get .decimal ≠ .ok (.present d) :=
      fun d hd => by cases hError.symm.trans hd
    exact {
      text_eq := y.text_written
      magnitude_eq := Positional.magnitude_ofScaled _ _
      reads_back := y.read?_text_written
      shortest := fun e => y.length_shortest_le
      overflow_iff := iff_of_true hError hWhole
      ok_iff := iff_of_false (fun hOk => hNone _ hOk.choose_spec) (not_lt.mpr hWhole)
      scale_eq := fun d hd => absurd hd (hNone d)
      rounded := fun d hd => absurd hd (hNone d)
      exact := fun d hd => absurd hd (hNone d) }
  · obtain ⟨d, hd, hScale, hValue⟩ := Decimal.exists_ofBinary hDigits hWhole
    have hOk : (⟨reported, some v, config⟩ : Cell).get .decimal = .ok (.present d) :=
      Cell.get_eq_present_iff.mpr (h.trans hd)
    have hSame : ∀ e : Decimal, (⟨reported, some v, config⟩ : Cell).get .decimal = .ok (.present e) →
        e = d := fun e he => congrArg Nullable.value (Except.ok.inj (he.symm.trans hOk))
    exact {
      text_eq := y.text_written
      magnitude_eq := Positional.magnitude_ofScaled _ _
      reads_back := y.read?_text_written
      shortest := fun e => y.length_shortest_le
      overflow_iff := iff_of_false (fun hError => by cases hOk.symm.trans hError) (not_le.mpr hWhole)
      ok_iff := iff_of_true ⟨d, hOk⟩ hWhole
      scale_eq := fun e he => hSame e he ▸ hScale
      rounded := fun e he => hSame e he ▸ hValue
      exact := fun e he hFits =>
        hSame e he ▸ hValue.trans (y.written.roundedTo_toRat hFits) }

/-- The single 0.1 is the decimal 0.1, although it is not the double 0.1. -/
example : (⟨.float4, some (.float4 (.ofBits .single 0x3dcccccd)), .default⟩ : Cell).get .decimal =
    .ok (.present ⟨false, 1, 1, by decide, by decide⟩) := by decide +kernel

end ScalarCell
