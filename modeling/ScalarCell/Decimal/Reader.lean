import ScalarCell.Decimal.Basic

/-!
# Decimals from plain text

`readPlain?` reads `[sign] digits [. digits]`, with underscores allowed behind the first digit.
Digits are gathered into a mantissa until they are used up, or until one more would not fit or would
be the twenty-ninth of the fraction; the first digit left out then rounds the mantissa, half up in
magnitude, and the others must merely be digits.

Three states read the text: `gather` while the mantissa is small, `gatherLarge` once one more digit
might not fit, and `finish` on the digits left out. Only a text of at least `longLength` characters
can leave `gather`. The states differ in how they treat an underscore next to the digit that rounds:
`finish` takes one for a zero, and `gatherLarge` skips it.
-/

namespace ScalarCell.Decimal

/-- What has been read: the digits as one number, how many of them stood behind the point, and
whether there was a point or any digit. -/
structure Gathered where
  mantissa : Nat
  scale : Nat
  hasPoint : Bool
  hasDigit : Bool
deriving DecidableEq

namespace Gathered

def empty : Gathered := ⟨0, 0, false, false⟩

def push (a : Gathered) (digit : Nat) : Gathered :=
  ⟨a.mantissa * 10 + digit, if a.hasPoint then a.scale + 1 else a.scale, a.hasPoint, true⟩

def withPoint (a : Gathered) : Gathered := { a with hasPoint := true }

/-- No further fraction digit is kept. -/
def isFull (a : Gathered) : Bool := a.hasPoint && maxScale ≤ a.scale

/-- One more in the last place. A mantissa that reaches the bound gives up a fraction digit, and
there is no such number if it has none. -/
def roundUp (a : Gathered) : Option Gathered :=
  if a.mantissa + 1 < mantissaBound then some { a with mantissa := a.mantissa + 1 }
  else if a.scale = 0 then none
  else some { a with mantissa := (a.mantissa + 1 + 4) / 10, scale := a.scale - 1 }

end Gathered

/-- The length from which a text might hold more digits than fit. -/
def longLength : Nat := 18

/-- From this mantissa on one more digit might not fit into 64 bits. -/
def largeMantissa : Nat := 1844674407370954906

def digitValue (c : Char) : Nat := Numeral.value [c]

/-- Rounds by the first character and checks that only digits and underscores follow. -/
def finish (a : Gathered) : List Char → Option Gathered
  | [] => some a
  | c :: cs =>
    if c = '_' || c.isDigit then
      if cs.all fun c => c.isDigit || c == '_' then
        if c.isDigit && 5 ≤ digitValue c then a.roundUp else some a
      else none
    else none

def gatherLarge (a : Gathered) : List Char → Option Gathered
  | [] => some a
  | c :: cs =>
    if c.isDigit then
      if mantissaBound ≤ a.mantissa * 10 + digitValue c then
        if a.hasPoint then finish a (c :: cs) else none
      else
        let b := a.push (digitValue c)
        if b.isFull then finish b (cs.dropWhile (· == '_')) else gatherLarge b cs
    else if c = '.' ∧ !a.hasPoint then gatherLarge a.withPoint cs
    else if c = '_' then gatherLarge a cs
    else none

def gather (long : Bool) (a : Gathered) : List Char → Option Gathered
  | [] => if a.hasDigit then some a else none
  | c :: cs =>
    if c.isDigit then
      let b := a.push (digitValue c)
      if long && b.isFull then finish b cs
      else if long && largeMantissa ≤ b.mantissa then gatherLarge b cs
      else gather long b cs
    else if c = '.' ∧ !a.hasPoint then gather long a.withPoint cs
    else if c = '_' ∧ a.hasDigit then gather long a cs
    else none

/-- A zero has no sign. -/
def readPlain? (cs : List Char) : Option Decimal :=
  let (negative, body) := Numeral.splitSign cs
  (gather (longLength ≤ cs.length) .empty body).bind fun a =>
    ofParts? (negative && a.mantissa != 0) a.mantissa a.scale

/-! ## Texts read -/

example : (readPlain? "-042.90".toList).map text = some "-42.90".toList := by
  decide

example : (readPlain? "-0.00".toList).map text = some "0.00".toList := by
  decide

/-- The mantissa reaches its bound by rounding, and gives up its one fraction digit. -/
example : (readPlain? "7922816251426433759354395033.55".toList).map text =
    some "7922816251426433759354395034".toList := by
  decide

example : readPlain? "79228162514264337593543950335.5".toList = none := by decide

/-- The underscore is the digit that rounds. -/
example : (readPlain? "0.0000000000000000000000000001_9".toList).map text =
    some "0.0000000000000000000000000001".toList := by
  decide

/-- The underscore is skipped, and the digit behind it rounds. -/
example : (readPlain? "0.1234567890123456789012345678_9".toList).map text =
    some "0.1234567890123456789012345679".toList := by
  decide

end ScalarCell.Decimal
