import ScalarCell.Decimal.Reader

/-!
# Decimals from text with an exponent

`read?` reads plain text, or plain text with an exponent of at most 28 behind the first `e`.

* A negative exponent moves the point left; digits pushed past the twenty-eighth place round, half
  away from zero, and a number rounded to zero keeps its sign.
* A positive exponent moves the point right, and fails if the integer then does not fit.
-/

namespace ScalarCell.Decimal

/-- The largest exponent that may be written. -/
def maxExponent : Nat := 28

/-- `num / den` to the nearest natural number, halves up. -/
def divideHalfUp (num den : Nat) : Nat := (2 * num + den) / (2 * den)

def shiftLeft? (d : Decimal) (places : Nat) : Option Decimal :=
  if d.scale + places ≤ maxScale then
    ofParts? d.negative d.mantissa (d.scale + places)
  else
    ofParts? d.negative
      (divideHalfUp d.mantissa (Nat.pow 10 (d.scale + places - maxScale))) maxScale

def shiftRight? (d : Decimal) (places : Nat) : Option Decimal :=
  if places ≤ d.scale then
    ofParts? d.negative d.mantissa (d.scale - places)
  else
    ofParts? d.negative (d.mantissa * Nat.pow 10 (places - d.scale)) 0

/-- An unsigned whole number, with or without a plus. -/
def readUnsigned? (cs : List Char) : Option Nat :=
  let run := match cs with
    | '+' :: rest => rest
    | _ => cs
  if Numeral.isRun run then some (Numeral.value run) else none

/-- An optional minus before an unsigned number: whether it is there, and the number. -/
def readExponent? : List Char → Option (Bool × Nat)
  | '-' :: cs => (readUnsigned? cs).map (true, ·)
  | cs => (readUnsigned? cs).map (false, ·)

def isExponentMark (c : Char) : Bool := c == 'e' || c == 'E'

def readScientific? (cs : List Char) : Option Decimal :=
  match cs.dropWhile (!isExponentMark ·) with
  | [] => none
  | _ :: tail =>
    (readPlain? (cs.takeWhile (!isExponentMark ·))).bind fun d =>
      (readExponent? tail).bind fun (negative, places) =>
        if maxExponent < places then none
        else if negative then d.shiftLeft? places
        else d.shiftRight? places

def read? (cs : List Char) : Option Decimal :=
  match readPlain? cs with
  | some d => some d
  | none => readScientific? cs

/-! ## Texts read -/

example : (read? "-1.5e-28".toList).map text = some "-0.0000000000000000000000000002".toList := by
  decide

example : (read? "-0.4e-28".toList).map text = some "-0.0000000000000000000000000000".toList := by
  decide

example : (read? "123.45e+3".toList).map text = some "123450".toList := by decide

example : read? "1e29".toList = none := by decide

end ScalarCell.Decimal
