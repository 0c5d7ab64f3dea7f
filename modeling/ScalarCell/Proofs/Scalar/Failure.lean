import ScalarCell.Proofs.Conversion.Width
import ScalarCell.Proofs.Decimal.Double
import ScalarCell.Proofs.Reads.SingleRead
import ScalarCell.Proofs.Scalar.Truth

/-!
# How a reading can fail

What a cell fails with is known from its value and from the kind of reading (`failure_profile`). The
text and the value itself are always there. A truth value can only be missing, an integer can also be
out of range, and a floating-point number is missing for booleans and texts alone: every decimal has
a finite one of either format, so its conversion never overflows (`Decimal.exists_toDouble?`,
`Decimal.exists_toSingle?`). All failures are data exceptions, so a caller can tell them by their
category or their code (`Cell.isDataException_of_get`).
-/

namespace ScalarCell

/-! ## Data exceptions -/

/-- A failure of the data, with a code of class 22. -/
def Error.IsDataException (e : Error) : Prop := e.category = .data ∧ ∃ rest, e.sqlState = "22" ++ rest

namespace Error

theorem isDataException_cannotCoerce (shown : String) : (cannotCoerce shown).IsDataException :=
  ⟨rfl, "018", rfl⟩

theorem isDataException_numericOverflow (name shown : String) :
    (numericOverflow name shown).IsDataException := ⟨rfl, "003", rfl⟩

theorem isDataException_badValue (name text : String) :
    (badValue name text).IsDataException := ⟨rfl, "000", rfl⟩

theorem isDataException_unsupportedConversion (backend name : String) :
    (unsupportedConversion backend name).IsDataException := ⟨rfl, "000", rfl⟩

end Error

/-! ## Integers -/

theorem Wide.narrow_eq_error {x : Wide} {w : Width} {e : Error} (h : x.narrow w = .error e) :
    ∃ name, (Target.integer w).Named name ∧ ((∃ shown, e = .numericOverflow name shown) ∨
      ∃ text, x = .noNumber text ∧ e = .badValue name (String.ofList text)) := by
  refine ⟨_, (Target.integer w).named_name, ?_⟩
  cases x with
  | number shown n =>
    by_cases hFits : w.Holds n
    · rw [narrow, Integer.checked_of_holds hFits] at h
      cases h
    · rw [narrow, Integer.checked_of_not_holds hFits] at h
      exact Or.inl ⟨String.ofList shown, (Except.error.inj h).symm⟩
  | beyond shown => exact Or.inl ⟨String.ofList shown, (Except.error.inj h).symm⟩
  | noNumber text => exact Or.inr ⟨text, rfl, (Except.error.inj h).symm⟩

theorem Wide.ofDouble_ne_noNumber (x : Binary.Double) (text : List Char) :
    ofDouble x ≠ .noNumber text := by
  unfold ofDouble
  split <;> exact nofun

theorem Wide.eq_of_ofText_eq_noNumber {cs text : List Char} (h : ofText cs = .noNumber text) :
    text = cs := by
  unfold ofText at h
  split at h
  · cases h
  · split at h
    · exact (Wide.noNumber.inj h).symm
    · cases h

namespace Scalar

variable {v : Scalar} {config : Config} {e : Error}

/-- Only a text can be no number at all. -/
theorem exists_text_of_wide {shown : List Char} (h : v.wide config = .noNumber shown) :
    ∃ s, v = .text s ∧ shown = numericText config s := by
  cases v with
  | text s => exact ⟨s, rfl, Wide.eq_of_ofText_eq_noNumber h⟩
  | float4 x => exact absurd h (Wide.ofDouble_ne_noNumber _ _)
  | float8 x => exact absurd h (Wide.ofDouble_ne_noNumber _ _)
  | bool b => cases h
  | int2 n => cases h
  | int4 n => cases h
  | int8 n => cases h
  | numeric d => cases h

theorem getIntegral_eq_error {w : Width} (h : v.getIntegral config w = .error e) :
    ∃ name, (Target.integer w).Named name ∧ ((∃ shown, e = .numericOverflow name shown) ∨
      ∃ s, v = .text s ∧ e = .badValue name (String.ofList (numericText config s))) := by
  by_cases hWraps : w = .byte ∧ ∃ m, v = .int2 m
  · obtain ⟨rfl, m, rfl⟩ := hWraps
    cases h
  · have hChecked : w = .byte → ∀ m, v ≠ .int2 m := fun hByte m hm => hWraps ⟨hByte, m, hm⟩
    rw [getIntegral_eq_narrow config hChecked] at h
    obtain ⟨name, hName, hError⟩ := Wide.narrow_eq_error h
    refine ⟨name, hName, hError.imp_right ?_⟩
    rintro ⟨shown, hWide, he⟩
    obtain ⟨s, hText, rfl⟩ := exists_text_of_wide hWide
    exact ⟨s, hText, he⟩

end Scalar

/-! ## Floating-point numbers -/

namespace Decimal

open Binary

theorem exists_toDouble? (d : Decimal) :
    ∃ x : Finite .double, d.toDouble? = some (.finite x) ∧ x.magnitude ≤ 2 ^ (100 : ℤ) := by
  obtain ⟨x, -, hx, -, -, hError⟩ := d.exists_doubles
  refine ⟨x, hx, ?_⟩
  have hDecimal : |d.toRat| ≤ 10 ^ 29 := by
    rw [abs_toRat]
    exact d.moderate_magnitude.le
  have hApart : |d.toRat| / 2 ^ 48 ≤ |d.toRat| := div_le_self (abs_nonneg _) (by norm_num)
  rw [← x.abs_toRat]
  calc |x.toRat| = |(x.toRat - d.toRat) + d.toRat| := by rw [sub_add_cancel]
    _ ≤ |x.toRat - d.toRat| + |d.toRat| := abs_add_le _ _
    _ ≤ |d.toRat| + |d.toRat| := by linarith
    _ ≤ 2 ^ (100 : ℤ) := by norm_num; linarith

theorem exists_toSingle? (d : Decimal) :
    ∃ y : Finite .single, d.toSingle? = some (.finite y) := by
  obtain ⟨x, hx, hBound⟩ := d.exists_toDouble?
  have hRoom : (2 : ℚ) ^ (100 : ℤ) < Format.single.overflow := by
    norm_num [Format.overflow, Format.mantissaBound, Format.single]
  rw [toSingle?, hx, Option.map_some, convert]
  rcases nearest_finite_or_infinity (F := .single) x.negative x.magnitude with
    ⟨y, -, hFinite⟩ | hInfinity
  · exact ⟨y, congrArg some hFinite⟩
  · have hOverflow := ((nearest_eq_infinity_iff x.magnitude_nonneg).mp hInfinity).2
    exact absurd (hBound.trans_lt hRoom) (not_lt.mpr hOverflow)

theorem ofText_eq_error {cs : List Char} {e : Error} (h : ofText cs = .error e) :
    e = Target.decimal.badText cs := by
  unfold ofText at h
  split at h
  · cases h
  · exact (Except.error.inj h).symm

theorem ofBinary_eq_error {F : Format} {x : Binary F} {e : Error} (h : ofBinary x = .error e) :
    (x.isFinite = false ∧ e = .badValue "BigDecimal" (String.ofList x.render)) ∨
      (x.isFinite = true ∧ ∃ shown, e = .numericOverflow "BigDecimal" shown) := by
  unfold ofBinary at h
  split at h
  · next hFinite =>
    split at h
    · cases h
    · exact Or.inr ⟨hFinite, String.ofList x.plain, (Except.error.inj h).symm⟩
  · next hOther => exact Or.inl ⟨Bool.eq_false_iff.mpr hOther, (Except.error.inj h).symm⟩

end Decimal

namespace Binary

theorem doubleOfText_eq_error {t : Target} {cs : List Char} {e : Error}
    (h : doubleOfText t cs = .error e) : e = t.badText cs := by
  unfold doubleOfText at h
  split at h
  · cases h
  · exact (Except.error.inj h).symm

theorem exists_doubleOfDecimal (d : Decimal) :
    ∃ x : Finite .double, doubleOfDecimal d = .ok (.finite x) := by
  obtain ⟨x, hx, -⟩ := d.exists_toDouble?
  exact ⟨x, by rw [doubleOfDecimal, hx]⟩

theorem exists_singleOfDecimal (d : Decimal) :
    ∃ y : Finite .single, singleOfDecimal d = .ok (.finite y) := by
  obtain ⟨y, hy⟩ := d.exists_toSingle?
  exact ⟨y, by rw [singleOfDecimal, hy]⟩

theorem singleOfText_eq_error {cs : List Char} {e : Error} (h : singleOfText cs = .error e) :
    e = Target.float.badText cs := by
  unfold singleOfText at h
  cases hDouble : doubleOfText .float cs with
  | ok x =>
    rw [hDouble] at h
    cases h
  | error f =>
    rw [hDouble] at h
    cases h
    exact doubleOfText_eq_error hDouble

end Binary

namespace Scalar

/-- A value that is no number of the target of this name, and the failure that says so. -/
inductive NoNumber (config : Config) (name : String) : Scalar → Error → Prop where
  | bool (b : Bool) : NoNumber config name (.bool b) (.unsupportedConversion "bool" name)
  | text (s : String) :
    NoNumber config name (.text s) (.badValue name (String.ofList (numericText config s)))

/-- Whether a floating-point number is finite. No other value is one. -/
def isFinite? : Scalar → Option Bool
  | float4 x => some x.isFinite
  | float8 x => some x.isFinite
  | _ => none

variable {v : Scalar} {config : Config} {e : Error}

theorem NoNumber.isDataException {name : String} (h : v.NoNumber config name e) :
    e.IsDataException := by
  cases h with
  | bool b => exact Error.isDataException_unsupportedConversion "bool" name
  | text s => exact Error.isDataException_badValue name _

theorem getFloat_eq_error (h : v.getFloat config = .error e) : v.NoNumber config "float" e := by
  cases v with
  | bool b =>
    cases h
    exact .bool b
  | text s =>
    obtain rfl := Binary.singleOfText_eq_error h
    exact .text s
  | int2 n => cases h
  | int4 n => cases h
  | int8 n => cases h
  | float4 x => cases h
  | float8 x => cases h
  | numeric d =>
    obtain ⟨y, hOk⟩ := Binary.exists_singleOfDecimal d
    cases hOk.symm.trans h

theorem getDouble_eq_error (h : v.getDouble config = .error e) : v.NoNumber config "double" e := by
  cases v with
  | bool b =>
    cases h
    exact .bool b
  | text s =>
    obtain rfl := Binary.doubleOfText_eq_error h
    exact .text s
  | int2 n => cases h
  | int4 n => cases h
  | int8 n => cases h
  | float4 x => cases h
  | float8 x => cases h
  | numeric d =>
    obtain ⟨x, hOk⟩ := Binary.exists_doubleOfDecimal d
    cases hOk.symm.trans h

theorem getDecimal_eq_error (h : v.getDecimal config = .error e) :
    v.NoNumber config "BigDecimal" e ∨
      (v.isFinite? = some false ∧ e = .badValue "BigDecimal" v.toText) ∨
      (v.isFinite? = some true ∧ ∃ shown, e = .numericOverflow "BigDecimal" shown) := by
  cases v with
  | bool b =>
    cases h
    exact Or.inl (.bool b)
  | text s =>
    obtain rfl := Decimal.ofText_eq_error h
    exact Or.inl (.text s)
  | float4 x =>
    exact Or.inr ((Decimal.ofBinary_eq_error h).imp (And.imp_left (congrArg some))
      (And.imp_left (congrArg some)))
  | float8 x =>
    exact Or.inr ((Decimal.ofBinary_eq_error h).imp (And.imp_left (congrArg some))
      (And.imp_left (congrArg some)))
  | int2 n => cases h
  | int4 n => cases h
  | int8 n => cases h
  | numeric d => cases h

theorem isDataException_of_get {k : Kind} (h : v.get config k = .error e) : e.IsDataException := by
  cases k with
  | string => cases h
  | object => cases h
  | boolean =>
    rcases v.okOrNotCoercible_getBoolean config with ⟨b, hOk⟩ | ⟨shown, hError⟩
    · cases hOk.symm.trans h
    · rw [Except.error.inj (h.symm.trans hError)]
      exact Error.isDataException_cannotCoerce shown
  | integral w =>
    obtain ⟨name, -, ⟨shown, rfl⟩ | ⟨s, -, rfl⟩⟩ := getIntegral_eq_error h
    · exact Error.isDataException_numericOverflow name shown
    · exact Error.isDataException_badValue name _
  | float => exact (getFloat_eq_error h).isDataException
  | double => exact (getDouble_eq_error h).isDataException
  | decimal =>
    rcases getDecimal_eq_error h with hNone | ⟨-, rfl⟩ | ⟨-, shown, rfl⟩
    · exact hNone.isDataException
    · exact Error.isDataException_badValue "BigDecimal" _
    · exact Error.isDataException_numericOverflow "BigDecimal" shown

end Scalar

/-! ## Cells -/

variable {c : Cell} {k : Kind} {e : Error}

theorem Cell.exists_value_of_get (h : c.get k = .error e) :
    ∃ v, c.value = some v ∧ v.get c.config k = .error e := by
  obtain ⟨o, value, config⟩ := c
  cases value with
  | none => cases h
  | some v => exact ⟨v, rfl, get_eq_error_iff.mp h⟩

theorem Cell.isDataException_of_get (h : c.get k = .error e) : e.IsDataException := by
  obtain ⟨v, -, hGet⟩ := exists_value_of_get h
  exact Scalar.isDataException_of_get hGet

/-- The first read fails exactly as the cell does. -/
theorem Input.read_ofCell_eq_error_iff :
    ((Input.ofCell c).read k).1 = .error e ↔ c.get k = .error e := by
  rw [read_of_unread rfl, Cell.firstReply, ofCell]
  exact map_eq_error_iff

/-- Everything a reading of a cell can fail with. Text and whole objects never fail, and a truth value
is missing or there. An integer is out of the range of its width, or a text is none. A floating-point
number is missing for a boolean and for a text that is none, and is always there and finite for a
decimal. A decimal can also be missing because a floating-point number is not finite, or does not fit.
Each failure names its own target, and every one of them, also at the first read of an input, is a
data exception. -/
theorem failure_profile (reported : Oid) (value : Option Scalar) (config : Config) :
    let c : Cell := ⟨reported, value, config⟩
    (∃ r, c.get .string = .ok r) ∧ c.get .object = .ok ⟨value, value.isNone⟩ ∧
      (∀ e, c.get .boolean = .error e → ∃ shown, e = .cannotCoerce shown) ∧
      (∀ w e, c.get (.integral w) = .error e → ∃ name, (Target.integer w).Named name ∧
        ((∃ shown, e = .numericOverflow name shown) ∨
          ∃ s, value = some (.text s) ∧
            e = .badValue name (String.ofList (Scalar.numericText config s)))) ∧
      (∀ e, c.get .float = .error e → ∃ v, value = some v ∧ v.NoNumber config "float" e) ∧
      (∀ e, c.get .double = .error e → ∃ v, value = some v ∧ v.NoNumber config "double" e) ∧
      (∀ d : Decimal,
        (∃ y, d.toSingle? = some (.finite y)) ∧ ∃ x, d.toDouble? = some (.finite x)) ∧
      (∀ d, value = some (.numeric d) → (∃ y, c.get .float = .ok (.present (.finite y))) ∧
        ∃ x, c.get .double = .ok (.present (.finite x))) ∧
      (∀ e, c.get .decimal = .error e → ∃ v, value = some v ∧
        (v.NoNumber config "BigDecimal" e ∨
          (v.isFinite? = some false ∧ e = .badValue "BigDecimal" v.toText) ∨
          (v.isFinite? = some true ∧ ∃ shown, e = .numericOverflow "BigDecimal" shown))) ∧
      (∀ k e, c.get k = .error e → e.IsDataException) ∧
      ∀ k e, ((Input.ofCell c).read k).1 = .error e → e.IsDataException := by
  intro c
  refine ⟨?_, ?_, ?_, ?_, ?_, ?_, ?_, ?_, ?_, fun _ _ h => Cell.isDataException_of_get h,
    fun _ _ h => Cell.isDataException_of_get (Input.read_ofCell_eq_error_iff.mp h)⟩
  · cases value with
    | none => exact ⟨_, rfl⟩
    | some v => exact ⟨.present v.toText, rfl⟩
  · cases value <;> rfl
  · intro e h
    obtain ⟨v, -, hGet⟩ := Cell.exists_value_of_get h
    rcases v.okOrNotCoercible_getBoolean config with ⟨b, hOk⟩ | ⟨shown, hError⟩
    · cases hOk.symm.trans hGet
    · exact ⟨shown, Except.error.inj (hGet.symm.trans hError)⟩
  · intro w e h
    obtain ⟨v, hValue, hGet⟩ := Cell.exists_value_of_get h
    obtain ⟨name, hName, hError⟩ := Scalar.getIntegral_eq_error hGet
    refine ⟨name, hName, hError.imp_right ?_⟩
    rintro ⟨s, rfl, he⟩
    exact ⟨s, hValue, he⟩
  · intro e h
    obtain ⟨v, hValue, hGet⟩ := Cell.exists_value_of_get h
    exact ⟨v, hValue, Scalar.getFloat_eq_error hGet⟩
  · intro e h
    obtain ⟨v, hValue, hGet⟩ := Cell.exists_value_of_get h
    exact ⟨v, hValue, Scalar.getDouble_eq_error hGet⟩
  · intro d
    obtain ⟨x, hDouble, -⟩ := d.exists_toDouble?
    exact ⟨d.exists_toSingle?, x, hDouble⟩
  · rintro d rfl
    obtain ⟨y, hSingle⟩ := Binary.exists_singleOfDecimal d
    obtain ⟨x, hDouble⟩ := Binary.exists_doubleOfDecimal d
    exact ⟨⟨y, Cell.get_eq_present_iff.mpr hSingle⟩, ⟨x, Cell.get_eq_present_iff.mpr hDouble⟩⟩
  · intro e h
    obtain ⟨v, hValue, hGet⟩ := Cell.exists_value_of_get h
    exact ⟨v, hValue, Scalar.getDecimal_eq_error hGet⟩

/-- One failure of each sort, and the decimal of the largest magnitude. -/
theorem failure_profile_at_failures :
    let word : Cell := ⟨.text, some (.text "maybe"), .default⟩
    let flag : Cell := ⟨.bool, some (.bool true), .default⟩
    let infinite : Cell := ⟨.float8, some (.float8 (.infinity true)), .default⟩
    let greatest : Decimal := ⟨true, Decimal.mantissaBound - 1, 0, by decide, by decide⟩
    let decimal : Cell := ⟨.numeric, some (.numeric greatest), .default⟩
    (∃ e, word.get .boolean = .error e ∧ ∃ shown, e = .cannotCoerce shown) ∧
      (∃ e, decimal.get (.integral .long) = .error e ∧
        ((∃ shown, e = .numericOverflow "long" shown) ∨
          ∃ s, decimal.value = some (.text s) ∧
            e = .badValue "long" (String.ofList (Scalar.numericText .default s)))) ∧
      (∃ e, flag.get .float = .error e ∧
        ∃ v, flag.value = some v ∧ v.NoNumber .default "float" e) ∧
      (∃ e, word.get .double = .error e ∧
        ∃ v, word.value = some v ∧ v.NoNumber .default "double" e) ∧
      (∃ y, decimal.get .float = .ok (.present (.finite y))) ∧
      (∃ e, infinite.get .decimal = .error e ∧ e.IsDataException) ∧
      ∃ e, ((Input.ofCell word).read (.integral .int)).1 = .error e ∧ e.IsDataException := by
  intro word flag infinite greatest decimal
  obtain ⟨-, -, hBoolean, -, -, hDouble, -, -, -, -, hFirst⟩ :=
    failure_profile .text (some (.text "maybe")) .default
  obtain ⟨-, -, -, hLong, -, -, -, hFinite, -⟩ :=
    failure_profile .numeric (some (.numeric greatest)) .default
  obtain ⟨-, -, -, -, hFloat, -⟩ := failure_profile .bool (some (.bool true)) .default
  obtain ⟨-, -, -, -, -, -, -, -, -, hData, -⟩ :=
    failure_profile .float8 (some (.float8 (.infinity true))) .default
  have hWord : word.get .boolean = .error (.cannotCoerce "maybe") := by decide
  have hRange : decimal.get (.integral .long) =
      .error (.numericOverflow "long" "-79228162514264337593543950335") := by decide
  have hFlag : flag.get .float = .error (.unsupportedConversion "bool" "float") := rfl
  have hText : word.get .double = .error (.badValue "double" "maybe") := by decide
  have hInfinite : infinite.get .decimal = .error (.badValue "BigDecimal" "-Infinity") := by decide
  have hRead : ((Input.ofCell word).read (.integral .int)).1 = .error (.badValue "int" "maybe") :=
    Input.read_ofCell_eq_error_iff.mpr (by decide)
  obtain ⟨name, hName, hLongError⟩ := hLong .long _ hRange
  cases hName
  exact ⟨⟨_, hWord, hBoolean _ hWord⟩, ⟨_, hRange, hLongError⟩, ⟨_, hFlag, hFloat _ hFlag⟩,
    ⟨_, hText, hDouble _ hText⟩, (hFinite greatest rfl).1, ⟨_, hInfinite, hData .decimal _ hInfinite⟩,
    ⟨_, hRead, hFirst (.integral .int) _ hRead⟩⟩

end ScalarCell
