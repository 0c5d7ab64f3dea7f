import ScalarCell.Binary.Printer
import ScalarCell.Binary.Reader
import ScalarCell.Config
import ScalarCell.Decimal.Basic

/-!
# Truth values

What a number or a text says as a boolean: 0 is false, 1 is true, and the policy decides on every
other number. A text is first looked up among the words; a number in a text counts under the
lenient policy only. NaN has no truth value.
-/

namespace ScalarCell.Policy

def trueWords : List String := ["1", "true", "t", "yes", "y", "on"]

def falseWords : List String := ["0", "false", "f", "no", "n", "off"]

def isWord (words : List String) (cs : List Char) : Bool :=
  words.any fun w => Text.sameLetters w.toList cs

def notCoercible {α : Type} (text : List Char) : Except Error α :=
  .error (.cannotCoerce (String.ofList text))

def truthOfInt (p : Policy) (n : Int) : Except Error Bool :=
  if n = 0 then .ok false
  else if n = 1 then .ok true
  else
    match p with
    | lenient => .ok true
    | strict => notCoercible (Numeral.intText n)

def truthOfDouble (p : Policy) (x : Binary.Double) : Except Error Bool :=
  if x.toRat? = some 0 then .ok false
  else if x.toRat? = some 1 then .ok true
  else if p = lenient ∧ !x.isNaN then .ok true
  else notCoercible x.plain

def truthOfDecimal (p : Policy) (d : Decimal) : Except Error Bool :=
  if d.isZero then .ok false
  else if d.toRat = 1 then .ok true
  else
    match p with
    | lenient => .ok true
    | strict => notCoercible d.text

/-- Blanks around the text do not matter, but a failure shows them. -/
def truthOfText (p : Policy) (s : String) : Except Error Bool :=
  let trimmed := (Text.trim s).toList
  if isWord trueWords trimmed then .ok true
  else if isWord falseWords trimmed then .ok false
  else
    match p, Binary.read? .double trimmed with
    | lenient, some x => p.truthOfDouble x
    | _, _ => .error (.cannotCoerce s)

end ScalarCell.Policy
