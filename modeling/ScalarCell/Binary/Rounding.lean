import ScalarCell.Binary.Basic

/-!
# Rounding to a binary format

* `nearest F negative x` is the number of `F` nearest to `x`, or to `-x` if `negative`, for a
  rational `x ≥ 0`; of two equally near it is the one with the even mantissa, and what rounds past
  the largest finite number is infinite.
* `convert` carries a number over to another format, `ofInt` an integer into one.
* `trunc` is the integer part, rounded toward zero.
-/

namespace ScalarCell.Binary

/-- The exponent `e` with `2 ^ e ≤ x < 2 ^ (e + 1)`, for positive `x`. -/
def binaryExponent (x : Rat) : Int :=
  let e : Int := (Nat.log2 x.num.natAbs : Int) - Nat.log2 x.den
  if x < (2 : Rat) ^ e then e - 1 else e

/-- The exponent of the last place that `F` keeps of a positive `x`. -/
def Format.lastPlace (F : Format) (x : Rat) : Int :=
  max F.minExponent (binaryExponent x + 1 - F.precision)

/-- The natural number nearest to `x ≥ 0`, the even one of two equally near. -/
def nearestEven (x : Rat) : Nat :=
  let n := x.floor.toNat
  let rest := x - n
  if rest < 1 / 2 then n
  else if 1 / 2 < rest then n + 1
  else n + n % 2

/-- The magnitude is rounded in the last place it keeps; a mantissa that thereby outgrows the
precision is a power of two, which has its canonical spelling one exponent up. -/
def nearest (F : Format) (negative : Bool) (x : Rat) : Binary F :=
  if x = 0 then zero F negative
  else
    let q := F.lastPlace x
    let m := nearestEven (x / (2 : Rat) ^ q)
    if m = F.mantissaBound then ofParts F negative F.fullMantissa (q + 1)
    else ofParts F negative m q

def ofInt (F : Format) (n : Int) : Binary F := nearest F (n < 0) (n.natAbs : Rat)

def convert (G : Format) {F : Format} : Binary F → Binary G
  | nan => nan
  | infinity s => infinity s
  | finite x => nearest G x.negative x.magnitude

def trunc {F : Format} : Binary F → Binary F
  | nan => nan
  | infinity s => infinity s
  | finite x => nearest F x.negative (x.magnitude.floor : Rat)

end ScalarCell.Binary
