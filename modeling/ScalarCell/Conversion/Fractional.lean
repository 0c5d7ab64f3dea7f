import ScalarCell.Binary.Printer
import ScalarCell.Binary.Reader
import ScalarCell.Decimal.Double
import ScalarCell.Decimal.Scientific
import ScalarCell.Target

/-!
# Conversion to floating-point numbers and decimals

* A text is read as a double; a single is that double rounded once more.
* A decimal without a number of the format is an overflow.
* A floating-point number becomes the decimal that its shortest digits write, so that the single
  0.1 is the decimal 0.1.
-/

namespace ScalarCell

namespace Binary

/-- The number in a text, for one of the targets that are floating-point numbers. -/
def doubleOfText (t : Target) (cs : List Char) : Except Error Double :=
  match read? .double cs with
  | some x => .ok x
  | none => .error (t.badText cs)

def singleOfText (cs : List Char) : Except Error Single :=
  (doubleOfText .float cs).map (convert .single)

def doubleOfDecimal (d : Decimal) : Except Error Double :=
  match d.toDouble? with
  | some x => .ok x
  | none => .error (Target.double.overflow d.text)

def singleOfDecimal (d : Decimal) : Except Error Single :=
  match d.toSingle? with
  | some x => .ok x
  | none => .error (Target.float.overflow d.text)

end Binary

namespace Decimal

def ofText (cs : List Char) : Except Error Decimal :=
  match read? cs with
  | some d => .ok d
  | none => .error (Target.decimal.badText cs)

/-- Digits beyond the twenty-eighth place of the fraction round; an integer part that does not fit
is an overflow. -/
def ofBinary {F : Binary.Format} (x : Binary F) : Except Error Decimal :=
  if x.isFinite then
    match readPlain? x.plain with
    | some d => .ok d
    | none => .error (Target.decimal.overflow x.plain)
  else .error (Target.decimal.badText x.render)

end Decimal

end ScalarCell
