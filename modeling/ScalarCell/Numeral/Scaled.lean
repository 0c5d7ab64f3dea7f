import ScalarCell.Numeral.Whole

/-!
# Whole numbers scaled by a power of ten

`Scaled` is `coefficient · 10 ^ exponent` with `coefficient` a natural number, and the two ways to
lay one out in digits.

* `Scaled.plain` writes every place down to the units or to the last place of the fraction.
* `Scaled.withExponent` writes one digit before the point, then the exponent with a sign and at
  least two digits.
-/

namespace ScalarCell.Numeral

structure Scaled where
  coefficient : Nat
  exponent : Int
deriving DecidableEq

namespace Scaled

def magnitude (x : Scaled) : Rat := (x.coefficient : Rat) * (10 : Rat) ^ x.exponent

/-- The exponent of the first digit's place. -/
def leadingExponent (x : Scaled) : Int := (digits x.coefficient).length - 1 + x.exponent

def plain (x : Scaled) : List Char :=
  let run := digits x.coefficient
  let places := (-x.exponent).toNat
  if 0 ≤ x.exponent then
    run ++ List.replicate x.exponent.toNat '0'
  else if places < run.length then
    run.take (run.length - places) ++ '.' :: run.drop (run.length - places)
  else
    '0' :: '.' :: (List.replicate (places - run.length) '0' ++ run)

/-- At least two digits. -/
def paddedDigits (n : Nat) : List Char := if n < 10 then '0' :: digits n else digits n

def withExponent (x : Scaled) : List Char :=
  let run := digits x.coefficient
  let tail := run.drop 1
  let e := x.leadingExponent
  run.take 1 ++ (if tail.isEmpty then [] else '.' :: tail) ++
    'e' :: (if e < 0 then '-' else '+') :: paddedDigits e.natAbs

end Scaled

end ScalarCell.Numeral
