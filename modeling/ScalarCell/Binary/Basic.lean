/-!
# Binary floating-point numbers

A `Binary.Format` fixes a precision and a range of exponents; `Binary F` is a number of that
format: a finite one, an infinity, or not a number.

* A finite number is `mantissa · 2 ^ exponent` with a sign. `Format.Canonical` picks one spelling
  for each magnitude, so two finite numbers are equal exactly if sign and magnitude are. Zero keeps
  its sign.
* `Binary.nan` is one value: the payload of a NaN is not kept.
* `toBits` and `ofBits` are the interchange encoding: sign, exponent field, fraction.
-/

namespace ScalarCell

/-- `precision` bits of mantissa, last places from `2 ^ minExponent` to `2 ^ maxExponent`. Decimal
numbers of `decimals` digits survive being stored. -/
structure Binary.Format where
  precision : Nat
  minExponent : Int
  maxExponent : Int
  decimals : Nat

namespace Binary

def Format.single : Format := ⟨24, -149, 104, 6⟩

def Format.double : Format := ⟨53, -1074, 971, 15⟩

namespace Format

/-- The least mantissa that fills the precision. -/
def fullMantissa (F : Format) : Nat := Nat.pow 2 (F.precision - 1)

def mantissaBound (F : Format) : Nat := Nat.pow 2 F.precision

/-- The mantissa fills the precision, unless the exponent is the least one already. -/
def Canonical (F : Format) (mantissa : Nat) (exponent : Int) : Prop :=
  mantissa < F.mantissaBound ∧ F.minExponent ≤ exponent ∧ exponent ≤ F.maxExponent ∧
    (F.fullMantissa ≤ mantissa ∨ exponent = F.minExponent)

instance (F : Format) (mantissa : Nat) (exponent : Int) :
    Decidable (F.Canonical mantissa exponent) :=
  inferInstanceAs (Decidable (_ ∧ _ ∧ _ ∧ (_ ∨ _)))

end Format

structure Finite (F : Format) where
  negative : Bool
  mantissa : Nat
  exponent : Int
  canonical : F.Canonical mantissa exponent
deriving DecidableEq

end Binary

inductive Binary (F : Binary.Format) where
  | nan
  | infinity (negative : Bool)
  | finite (x : Binary.Finite F)
deriving DecidableEq

namespace Binary

abbrev Single : Type := Binary .single

abbrev Double : Type := Binary .double

variable {F : Format}

/-! ## Values -/

namespace Finite

def magnitude (x : Finite F) : Rat := (x.mantissa : Rat) * (2 : Rat) ^ x.exponent

def toRat (x : Finite F) : Rat := if x.negative then -x.magnitude else x.magnitude

end Finite

def toRat? : Binary F → Option Rat
  | finite x => some x.toRat
  | _ => none

def isNaN : Binary F → Bool
  | nan => true
  | _ => false

def isFinite : Binary F → Bool
  | finite _ => true
  | _ => false

/-- Numerical equality: no NaN equals anything, and the two zeros are equal. -/
def numEq : Binary F → Binary F → Bool
  | finite x, finite y => x.toRat == y.toRat
  | infinity s, infinity t => s == t
  | _, _ => false

/-- Numerical order: a NaN is neither below nor above anything. -/
def less : Binary F → Binary F → Bool
  | finite x, finite y => x.toRat < y.toRat
  | finite _, infinity t => !t
  | infinity s, finite _ => s
  | infinity s, infinity t => s && !t
  | _, _ => false

def atLeast (x y : Binary F) : Bool := y.less x || x.numEq y

/-- The finite number with these parts. Parts that are not canonical come from rounding past the
largest finite number, so they stand for an infinity. -/
def ofParts (F : Format) (negative : Bool) (mantissa : Nat) (exponent : Int) : Binary F :=
  if h : F.Canonical mantissa exponent then finite ⟨negative, mantissa, exponent, h⟩
  else infinity negative

def zero (F : Format) (negative : Bool) : Binary F := ofParts F negative 0 F.minExponent

/-! ## Interchange encoding -/

/-- The exponent field of infinities and NaNs, which has all its bits set. -/
def Format.topField (F : Format) : Nat := (F.maxExponent - F.minExponent).toNat + 2

/-- The weight of the sign bit. -/
def Format.signWeight (F : Format) : Nat := (F.topField + 1) * F.fullMantissa

def Format.withSign (F : Format) (negative : Bool) (rest : Nat) : Nat :=
  if negative then F.signWeight + rest else rest

/-- The exponent field and the fraction run on: a full mantissa carries one into the field. -/
def toBits : Binary F → Nat
  | nan => F.topField * F.fullMantissa + F.fullMantissa / 2
  | infinity s => F.withSign s (F.topField * F.fullMantissa)
  | finite x =>
    F.withSign x.negative ((x.exponent - F.minExponent).toNat * F.fullMantissa + x.mantissa)

def ofBits (F : Format) (bits : Nat) : Binary F :=
  let negative := decide (F.signWeight ≤ bits)
  let field := bits / F.fullMantissa % (F.topField + 1)
  let fraction := bits % F.fullMantissa
  if field = F.topField then
    if fraction = 0 then infinity negative else nan
  else if field = 0 then
    ofParts F negative fraction F.minExponent
  else
    ofParts F negative (F.fullMantissa + fraction) (F.minExponent + (field - 1 : Nat))

end Binary

end ScalarCell
