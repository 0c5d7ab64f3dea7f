import ScalarCell.Proofs.Cell.Reading

/-!
# One integer at four widths

The integral views of a value are one conversion, which does not know the width, and a check at the
end. `Scalar.wide` is that conversion, `Wide.narrow` the check, and `getIntegral_eq_narrow` says
that the views are made so. Only the byte of an `int2` is not: it keeps the low eight bits.
`integral_getters_agree` draws the consequences for cells. `Target.Named` lists the names that the
failures give to the targets.
-/

namespace ScalarCell

/-! ## Names of targets -/

/-- The names of the targets, as a caller reads them in a message. -/
inductive Target.Named : Target → String → Prop where
  | byte : Named (.integer .byte) "byte"
  | short : Named (.integer .short) "short"
  | int : Named (.integer .int) "int"
  | long : Named (.integer .long) "long"
  | float : Named .float "float"
  | double : Named .double "double"
  | decimal : Named .decimal "BigDecimal"

theorem Target.named_name (t : Target) : t.Named t.name := by
  cases t with
  | integer w => cases w <;> constructor
  | _ => constructor

/-- The failure of a text that is no number of the target of this name. -/
def Error.badValue (name text : String) : Error :=
  .dataConversion ("bad value for type " ++ name ++ ": " ++ text)

/-! ## The check at the end -/

theorem Width.holds_long {w : Width} {n : Int} (h : w.Holds n) : Width.long.Holds n := by
  cases w <;> simp only [Width.Holds, Width.bound] at * <;> omega

namespace Integer

variable {w : Width} {shown : List Char} {n : Int}

theorem checked_of_holds (h : w.Holds n) : checked w shown n = .ok ⟨n, h⟩ := by
  rw [checked, ofInt?, dif_pos h]

theorem checked_of_not_holds (h : ¬w.Holds n) :
    checked w shown n = .error ((Target.integer w).overflow shown) := by
  rw [checked, ofInt?, dif_neg h, overflow]

/-- What does not fit 64 bits fits no narrower width either. -/
theorem checkedWithinLong_eq : checkedWithinLong w shown n = checked w shown n := by
  by_cases hLong : Width.long.Holds n
  · rw [checkedWithinLong, ofInt?, dif_pos hLong]
  · rw [checkedWithinLong, ofInt?, dif_neg hLong, overflow,
      checked_of_not_holds fun h => hLong (Width.holds_long h)]

theorem lowByte_emod (n : Int) : (lowByte n).val % 256 = n % 256 := by
  simp only [lowByte]
  omega

theorem eq_lowByte {b : Integer .byte} (h : b.val % 256 = n % 256) : b = lowByte n := by
  have hRange := b.inRange
  simp only [Width.Holds, Width.bound] at hRange
  cases b with
  | mk val inRange =>
    have hValue : val = (n + 128) % 256 - 128 := by
      dsimp only at h hRange
      omega
    subst hValue
    rfl

theorem ofBool_eq (b : Bool) : ofBool w b = ⟨if b then 1 else 0, by
    cases w <;> cases b <;> decide⟩ := by
  cases b <;> rfl

end Integer

/-! ## The conversion without a width -/

/-- What a value is as an integer. -/
inductive Wide where
  /-- The integer, and the text that stands for it if it does not fit. -/
  | number (shown : List Char) (n : Int)
  /-- Too large for every width. -/
  | beyond (shown : List Char)
  | noNumber (text : List Char)

namespace Wide

def narrow (w : Width) : Wide → Except Error (Integer w)
  | number shown n => Integer.checked w shown n
  | beyond shown => .error ((Target.integer w).overflow shown)
  | noNumber text => .error ((Target.integer w).badText text)

def ofDouble (x : Binary.Double) : Wide :=
  if Integer.beyondLong x then beyond x.plain
  else number x.plain (Integer.saturate .long x.trunc).val

def ofText (cs : List Char) : Wide :=
  match (Numeral.readInt? cs).bind (Integer.ofInt? .long) with
  | some i => number cs i.val
  | none =>
    match Decimal.read? cs with
    | none => noNumber cs
    | some d => number cs d.truncate

theorem narrow_ofDouble (w : Width) (x : Binary.Double) :
    (ofDouble x).narrow w = Integer.ofDouble w x := by
  unfold ofDouble Integer.ofDouble
  split <;> rfl

theorem narrow_ofText (w : Width) (cs : List Char) :
    (ofText cs).narrow w = Integer.ofText w cs := by
  unfold ofText Integer.ofText
  cases (Numeral.readInt? cs).bind (Integer.ofInt? .long) with
  | some i => rfl
  | none =>
    cases Decimal.read? cs with
    | none => rfl
    | some d => exact Integer.checkedWithinLong_eq.symm

end Wide

namespace Scalar

def wide (config : Config) : Scalar → Wide
  | bool b => .number [] (if b then 1 else 0)
  | int2 n => .number n.text n.val
  | int4 n => .number n.text n.val
  | int8 n => .number n.text n.val
  | float4 x => .ofDouble (x.convert .double)
  | float8 x => .ofDouble x
  | numeric d => .number d.text d.truncate
  | text s => .ofText (numericText config s)

theorem getIntegral_eq_narrow (config : Config) {w : Width} {v : Scalar}
    (hChecked : w = .byte → ∀ m, v ≠ .int2 m) :
    v.getIntegral config w = (v.wide config).narrow w := by
  cases v with
  | bool b =>
    rw [getIntegral, Integer.ofBool_eq, wide, Wide.narrow, Integer.checked_of_holds]
  | int2 n =>
    cases w with
    | byte => exact absurd rfl (hChecked rfl n)
    | short => rfl
    | int => rfl
    | long => rfl
  | int4 n => rfl
  | int8 n => rfl
  | float4 x => exact (Wide.narrow_ofDouble w _).symm
  | float8 x => exact (Wide.narrow_ofDouble w x).symm
  | numeric d => exact Integer.checkedWithinLong_eq
  | text s => exact (Wide.narrow_ofText w _).symm

end Scalar

/-! ## Two widths of one conversion -/

namespace Wide

variable {x : Wide}

theorem narrow_of_long_ok {n : Integer .long} (hLong : x.narrow .long = .ok n) (w : Width) :
    (∀ i : Integer w, i.val = n.val → x.narrow w = .ok i) ∧
      (¬w.Holds n.val → ∃ shown, x.narrow w = .error ((Target.integer w).overflow shown)) := by
  cases x with
  | number shown m =>
    have hValue : m = n.val := by
      by_cases hFits : Width.long.Holds m
      · rw [narrow, Integer.checked_of_holds hFits] at hLong
        cases hLong
        rfl
      · rw [narrow, Integer.checked_of_not_holds hFits] at hLong
        cases hLong
    subst hValue
    refine ⟨fun i hi => ?_, fun hFits => ⟨shown, Integer.checked_of_not_holds hFits⟩⟩
    rw [narrow, Integer.checked_of_holds (hi ▸ i.inRange)]
    cases i
    cases hi
    rfl
  | beyond shown => cases hLong
  | noNumber text => cases hLong

theorem narrow_of_long_error {e : Error} (hLong : x.narrow .long = .error e) (w : Width) :
    ∃ shown,
      (e = (Target.integer .long).overflow shown ∧
        x.narrow w = .error ((Target.integer w).overflow shown)) ∨
      (e = (Target.integer .long).badText shown ∧
        x.narrow w = .error ((Target.integer w).badText shown)) := by
  cases x with
  | number shown m =>
    by_cases hFits : Width.long.Holds m
    · rw [narrow, Integer.checked_of_holds hFits] at hLong
      cases hLong
    · rw [narrow, Integer.checked_of_not_holds hFits] at hLong
      cases hLong
      have hNarrower : ¬w.Holds m := fun h => hFits (Width.holds_long h)
      exact ⟨shown, Or.inl ⟨rfl, Integer.checked_of_not_holds hNarrower⟩⟩
  | beyond shown =>
    cases hLong
    exact ⟨shown, Or.inl ⟨rfl, rfl⟩⟩
  | noNumber text =>
    cases hLong
    exact ⟨text, Or.inr ⟨rfl, rfl⟩⟩

end Wide

/-! ## Cells -/

/-- All integral getters of a cell follow from the widest one: the same integer if it fits, with the
same word on whether it stands for NULL, an overflow that names the narrower target if it does not,
and a failure of the same cause for a failure. The byte of an `int2` alone never fails and keeps the
integer modulo 256. -/
theorem integral_getters_agree (c : Cell) :
    (∀ w, (w = .byte → ∀ m, c.value ≠ some (.int2 m)) → ∃ name, (Target.integer w).Named name ∧
      match c.get (.integral .long) with
      | .ok n =>
        (∀ i : Integer w, i.val = n.value.val → c.get (.integral w) = .ok ⟨i, n.isNull⟩) ∧
          (¬w.Holds n.value.val →
            ∃ shown, c.get (.integral w) = .error (.numericOverflow name shown))
      | .error e => ∃ shown,
        (e = .numericOverflow "long" shown ∧
          c.get (.integral w) = .error (.numericOverflow name shown)) ∨
        (e = .badValue "long" shown ∧ c.get (.integral w) = .error (.badValue name shown))) ∧
    ∀ m, c.value = some (.int2 m) →
      (∃ n, c.get (.integral .long) = .ok (.present n) ∧ n.val = m.val) ∧
        ∃ b : Integer .byte, c.get (.integral .byte) = .ok (.present b) ∧
          b.val % 256 = m.val % 256 ∧
          ∀ b' : Integer .byte, b'.val % 256 = m.val % 256 → b' = b := by
  obtain ⟨reported, value, config⟩ := c
  constructor
  · intro w hChecked
    refine ⟨(Target.integer w).name, (Target.integer w).named_name, ?_⟩
    cases value with
    | none =>
      constructor
      · rintro ⟨n, hRange⟩ (rfl : n = 0)
        rfl
      · intro hZero
        exact absurd (Integer.zero w).inRange hZero
    | some v =>
      have hWide : v.getIntegral config .long = (v.wide config).narrow .long :=
        Scalar.getIntegral_eq_narrow config nofun
      have hNarrow : v.getIntegral config w = (v.wide config).narrow w :=
        Scalar.getIntegral_eq_narrow config fun hByte m h => hChecked hByte m (congrArg some h)
      cases hLong : (v.wide config).narrow .long with
      | ok n =>
        obtain ⟨hFits, hOverflows⟩ := Wide.narrow_of_long_ok hLong w
        have hWidest : (⟨reported, some v, config⟩ : Cell).get (.integral .long) =
            .ok (.present n) := Cell.get_eq_present_iff.mpr (hWide.trans hLong)
        rw [hWidest]
        refine ⟨fun i hi => Cell.get_eq_present_iff.mpr (hNarrow.trans (hFits i hi)), fun h => ?_⟩
        obtain ⟨shown, hShown⟩ := hOverflows h
        exact ⟨String.ofList shown, Cell.get_eq_error_iff.mpr (hNarrow.trans hShown)⟩
      | error e =>
        have hWidest : (⟨reported, some v, config⟩ : Cell).get (.integral .long) = .error e :=
          Cell.get_eq_error_iff.mpr (hWide.trans hLong)
        rw [hWidest]
        obtain ⟨shown, ⟨hCause, hShown⟩ | ⟨hCause, hShown⟩⟩ := Wide.narrow_of_long_error hLong w
        · exact ⟨_, Or.inl ⟨hCause, Cell.get_eq_error_iff.mpr (hNarrow.trans hShown)⟩⟩
        · exact ⟨_, Or.inr ⟨hCause, Cell.get_eq_error_iff.mpr (hNarrow.trans hShown)⟩⟩
  · rintro m rfl
    constructor
    · have hLong : Width.long.Holds m.val := Width.holds_long m.inRange
      refine ⟨⟨m.val, hLong⟩, Cell.get_eq_present_iff.mpr ?_, rfl⟩
      exact Integer.checked_of_holds hLong
    · refine ⟨Integer.lowByte m.val, rfl, Integer.lowByte_emod m.val, fun b hb => ?_⟩
      exact Integer.eq_lowByte hb

/-- An `int8` that does not fit a byte, and an `int2` that wraps. -/
theorem integral_getters_agree_at_300 :
    let wide : Cell := ⟨.int8, some (.int8 ⟨300, by decide⟩), .default⟩
    let wrapped : Cell := ⟨.int2, some (.int2 ⟨300, by decide⟩), .default⟩
    (∀ m, wide.value ≠ some (.int2 m)) ∧ ¬Width.byte.Holds 300 ∧
      (∃ shown, wide.get (.integral .byte) = .error (.numericOverflow "byte" shown)) ∧
      wrapped.value = some (.int2 ⟨300, by decide⟩) ∧
      wrapped.get (.integral .byte) = .ok (.present ⟨44, by decide⟩) := by
  intro wide wrapped
  have hNotInt2 : ∀ m, wide.value ≠ some (.int2 m) := by
    intro m h
    cases h
  have hTooLarge : ¬Width.byte.Holds 300 := by decide
  obtain ⟨hAgree, -⟩ := integral_getters_agree wide
  obtain ⟨name, hName, -, hOverflow⟩ := hAgree .byte fun _ => hNotInt2
  cases hName
  obtain ⟨-, hWraps⟩ := integral_getters_agree wrapped
  obtain ⟨-, b, hByte, -, hUnique⟩ := hWraps ⟨300, by decide⟩ rfl
  have hLow : (⟨44, by decide⟩ : Integer .byte) = b := hUnique _ (by decide)
  exact ⟨hNotInt2, hTooLarge, hOverflow hTooLarge, rfl, hLow ▸ hByte⟩

end ScalarCell
