import ScalarCell.Binary.Shortest

/-!
# Floating-point numbers as text

Two printers of the shortest digits.

* `plain` is the text inside messages: every place written out, no exponent.
* `render` is the text of a cell: an exponent below `10 ^ -4` and from the first power of ten on
  that has more digits than the format keeps, every place written out between.
-/

namespace ScalarCell.Binary

open Numeral

variable {F : Format}

def signText (negative : Bool) : List Char := if negative then ['-'] else []

/-- Whether all places are written, for a number whose first digit stands at `10 ^ e`. -/
def Format.writesPlainly (F : Format) (e : Int) : Bool := -4 ≤ e && e < F.decimals

def plain : Binary F → List Char
  | nan => "NaN".toList
  | infinity s => signText s ++ "inf".toList
  | finite x => signText x.negative ++ x.shortest.plain

def render : Binary F → List Char
  | nan => "NaN".toList
  | infinity s => signText s ++ "Infinity".toList
  | finite x =>
    let c := x.shortest
    signText x.negative ++
      if F.writesPlainly c.leadingExponent then c.plain else c.withExponent

/-! ## Written forms -/

example : (ofBits .double 0x3fb999999999999a).render = "0.1".toList := by decide +kernel

example : (ofBits .double 0x8000000000000000).render = "-0".toList := by decide

example : (ofBits .double 0x7fefffffffffffff).render = "1.7976931348623157e+308".toList := by
  decide +kernel

/-- Two decimals of 17 digits are equally near to `2 ^ -25`: the greater one is written. -/
example : (ofBits .double 0x3e60000000000000).render = "2.9802322387695313e-08".toList := by
  decide +kernel

example : (ofInt .single 999999).render = "999999".toList := by decide +kernel

example : (ofInt .single 1000000).render = "1e+06".toList := by decide +kernel

example : (ofInt .single 1000000).plain = "1000000".toList := by decide +kernel

end ScalarCell.Binary
