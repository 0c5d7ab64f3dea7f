import ScalarCell.Numeral.Scaled

/-!
# Decimal literals

`Literal` is a number the way it is written, `[sign] whole [. fraction] [e exponent]`, and
`Literal.read?` its reader: `whole` and `fraction` may each be empty but not both, the exponent is
a whole number with an optional sign, and nothing may follow.
-/

namespace ScalarCell.Numeral

structure Literal where
  negative : Bool
  whole : List Char
  fraction : List Char
  exponent : Int
deriving DecidableEq

namespace Literal

/-- The digits as one number, and the place of the last one. -/
def scaled (x : Literal) : Scaled :=
  ⟨value (x.whole ++ x.fraction), x.exponent - x.fraction.length⟩

/-- The number denoted. -/
def toRat (x : Literal) : Rat :=
  if x.negative then -x.scaled.magnitude else x.scaled.magnitude

/-- What may follow the digits: nothing, or `e` with a whole number. -/
def readExponent? : List Char → Option Int
  | [] => some 0
  | c :: cs => if c = 'e' ∨ c = 'E' then readInt? cs else none

/-- The digits behind the point, if there is one, and what follows. -/
def splitFraction : List Char → List Char × List Char
  | '.' :: cs => (cs.takeWhile Char.isDigit, cs.dropWhile Char.isDigit)
  | cs => ([], cs)

def read? (cs : List Char) : Option Literal :=
  let (negative, body) := splitSign cs
  let whole := body.takeWhile Char.isDigit
  let (fraction, tail) := splitFraction (body.dropWhile Char.isDigit)
  if whole.isEmpty && fraction.isEmpty then none
  else (readExponent? tail).map fun exponent => ⟨negative, whole, fraction, exponent⟩

end Literal

end ScalarCell.Numeral
