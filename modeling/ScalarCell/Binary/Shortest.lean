import ScalarCell.Binary.Rounding
import ScalarCell.Numeral.Scaled

/-!
# The shortest decimal that reads back

`shortest x` is the decimal number with the fewest digits whose nearest number of the format is
`x`, the nearest to `x` of those, and the greater of two equally near ones.

The grids of multiples of `10 ^ g` are searched from the coarsest that matters to finer ones. On
each only the two neighbours of `x` are tried: if any point of the grid reads back as `x`, one of
them does. A finite number `m · 2 ^ q` with `q < 0` lies on the grid of `10 ^ q`, and on the grid of
units otherwise, so the search ends there at the latest, on `x` itself.
-/

namespace ScalarCell.Binary

open Numeral

namespace Finite

variable {F : Format}

/-- Reading the decimal number gives the finite number. -/
def readsBack (x : Finite F) (c : Scaled) : Bool :=
  nearest F x.negative c.magnitude == .finite x

/-- The multiple of `10 ^ g` at or next below the magnitude. -/
def gridFloor (x : Finite F) (g : Int) : Nat := (x.magnitude / (10 : Rat) ^ g).floor.toNat

/-- The neighbour on the grid of `10 ^ g` that reads back, if one does. -/
def onGrid? (x : Finite F) (g : Int) : Option Scaled :=
  let below : Scaled := ⟨x.gridFloor g, g⟩
  let above : Scaled := ⟨x.gridFloor g + 1, g⟩
  match x.readsBack below, x.readsBack above with
  | true, true =>
    some (if x.magnitude - below.magnitude < above.magnitude - x.magnitude then below else above)
  | true, false => some below
  | false, true => some above
  | false, false => none

/-- The first hit among the grids of `10 ^ (g + n)`, …, `10 ^ g`. -/
def searchGrids (x : Finite F) (g : Int) : Nat → Scaled
  | 0 => ⟨x.gridFloor g, g⟩
  | n + 1 =>
    match x.onGrid? (g + (n + 1 : Nat)) with
    | some c => c
    | none => searchGrids x g n

/-- A power of ten above the magnitude, read off the lengths of numerator and denominator. -/
def coarsestGrid (x : Finite F) : Int :=
  (digits x.magnitude.num.natAbs).length - (digits x.magnitude.den).length + 1

/-- A grid that the magnitude lies on. -/
def finestGrid (x : Finite F) : Int := min x.exponent 0

def shortest (x : Finite F) : Scaled :=
  if x.mantissa = 0 then ⟨0, 0⟩
  else x.searchGrids x.finestGrid (x.coarsestGrid - x.finestGrid).toNat

end Finite

end ScalarCell.Binary
