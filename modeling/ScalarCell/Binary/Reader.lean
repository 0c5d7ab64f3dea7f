import ScalarCell.Binary.Rounding
import ScalarCell.Numeral.Literal
import ScalarCell.Text.Case

/-!
# Floating-point numbers from text

`read?` accepts decimal literals and the words `inf`, `infinity` and `nan` in any case, the words
with an optional sign, and gives the nearest number of the format.
-/

namespace ScalarCell.Binary

open Numeral

/-- The number nearest to `± c`. A power of ten beyond every number of the format, or below half of
the least one, is not worked out. -/
def nearestScaled (F : Format) (negative : Bool) (c : Scaled) : Binary F :=
  if c.coefficient = 0 then zero F negative
  else if F.maxExponent + F.precision ≤ c.leadingExponent then infinity negative
  else if c.leadingExponent + 1 < F.minExponent then zero F negative
  else nearest F negative c.magnitude

/-- The words for what is not a finite number. -/
def readWord? (F : Format) (negative : Bool) (cs : List Char) : Option (Binary F) :=
  if Text.sameLetters cs "inf".toList || Text.sameLetters cs "infinity".toList then
    some (infinity negative)
  else if Text.sameLetters cs "nan".toList then some nan
  else none

def read? (F : Format) (cs : List Char) : Option (Binary F) :=
  let (negative, body) := splitSign cs
  match readWord? F negative body with
  | some x => some x
  | none => (Literal.read? cs).map fun x => nearestScaled F x.negative x.scaled

/-! ## Texts read -/

example : read? .double "0.1".toList = some (ofBits .double 0x3fb999999999999a) := by decide +kernel

example : read? .double "-Infinity".toList = some (infinity true) := by decide

example : read? .double "1e-400".toList = some (zero .double false) := by decide +kernel

example : read? .double "1_0".toList = none := by decide

end ScalarCell.Binary
