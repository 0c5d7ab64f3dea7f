import ScalarCell.Binary.Rounding
import ScalarCell.Decimal.Basic

/-!
# Decimals as doubles

`toDouble?` works in double precision throughout: each step is exact and then rounded to the nearest
double. Integer part and fraction are converted apart and added; the sum is then cut back to the
scale, by rounding it to a whole multiple of `10 ^ -scale`. The result is not always the double
nearest to the decimal. A decimal without a fraction is an integer first, which has to fit 128 bits.

`toSingle?` rounds that double once more.
-/

namespace ScalarCell.Decimal

open Binary

/-- The value of `x ≥ 0` after rounding to a double; every `x` here is far below the largest one. -/
def stored (x : Rat) : Rat :=
  match nearest .double false x with
  | .finite y => y.magnitude
  | _ => 0

/-- `power · base ^ n` by repeated squaring, each product rounded; `fuel` bounds the binary digits
of `n`. -/
def powerFrom (power base : Rat) (n : Nat) : Nat → Rat
  | 0 => power
  | fuel + 1 =>
    let next := if n % 2 = 1 then stored (power * base) else power
    if n / 2 = 0 then next else powerFrom next (stored (base * base)) (n / 2) fuel

/-- Ten to the power of a scale; five binary digits hold every scale. -/
def scalePower (scale : Nat) : Rat := powerFrom 1 10 scale 5

/-- Two to the power of 127. -/
def wideBound : Int := 170141183460469231731687303715884105728

/-- The integer part, if 128 bits with a sign hold it. -/
def toWide? (d : Decimal) : Option Int :=
  if -wideBound ≤ d.truncate ∧ d.truncate < wideBound then some d.truncate else none

def toDouble? (d : Decimal) : Option Double :=
  if d.scale = 0 then
    d.toWide?.map (Binary.ofInt .double)
  else
    let unit := Nat.pow 10 d.scale
    let whole := stored (d.mantissa / unit : Nat)
    let fraction := stored (stored (d.mantissa % unit : Nat) / stored (unit : Nat))
    if fraction = 0 then
      some (nearest .double d.negative whole)
    else
      let power := scalePower d.scale
      let places := (stored (stored (whole + fraction) * power) + 1 / 2).floor
      some (nearest .double d.negative ((places : Rat) / power))

def toSingle? (d : Decimal) : Option Single := d.toDouble?.map (convert .single)

end ScalarCell.Decimal
