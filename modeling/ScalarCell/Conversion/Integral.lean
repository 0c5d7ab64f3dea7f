import ScalarCell.Binary.Printer
import ScalarCell.Decimal.Scientific
import ScalarCell.Target

/-!
# Conversion to integers

Every conversion rounds toward zero and then checks the range of the width; what does not fit is an
overflow that names the target and shows the number. Wider than 64 bits nothing is converted: the
range of `Width.long` is checked first. A floating-point number is cast to 64 bits, which alone would
turn a number out of range into a bound; so it is compared with the bounds before (`beyondLong`).
-/

namespace ScalarCell.Integer

def overflow {α : Type} (w : Width) (value : List Char) : Except Error α :=
  .error ((Target.integer w).overflow value)

/-- The integer, or an overflow that shows `value`. -/
def checked (w : Width) (value : List Char) (n : Int) : Except Error (Integer w) :=
  match ofInt? w n with
  | some i => .ok i
  | none => overflow w value

/-- As `checked`, within 64 bits first. -/
def checkedWithinLong (w : Width) (value : List Char) (n : Int) : Except Error (Integer w) :=
  match ofInt? .long n with
  | some i => checked w value i.val
  | none => overflow w value

def narrow (w : Width) (n : Int) : Except Error (Integer w) := checked w (Numeral.intText n) n

/-- The integer part of a rational: rounding toward zero. -/
def truncate (r : Rat) : Int := r.num.tdiv r.den

/-- The nearest integer in range. -/
def clamp (w : Width) (n : Int) : Integer w :=
  ⟨max (-w.bound) (min n (w.bound - 1)), by
    cases w <;> simp only [Width.Holds, Width.bound] <;> omega⟩

/-- The cast to a width: rounding toward zero, with a bound for what is out of range. -/
def saturate (w : Width) {F : Binary.Format} : Binary F → Integer w
  | .nan => zero w
  | .infinity negative => clamp w (if negative then -w.bound else w.bound)
  | .finite x => clamp w (truncate x.toRat)

def leastLong : Binary.Double := Binary.ofInt .double (-Width.long.bound)

/-- The greatest integer of 64 bits is no double, and rounds up to the bound, which is out of range. -/
def greatestLong : Binary.Double := Binary.ofInt .double (Width.long.bound - 1)

def beyondLong (x : Binary.Double) : Bool :=
  x.isNaN || x.less leastLong || x.atLeast greatestLong

def ofDouble (w : Width) (x : Binary.Double) : Except Error (Integer w) :=
  if beyondLong x then overflow w x.plain
  else checked w x.plain (saturate .long x.trunc).val

def ofDecimal (w : Width) (d : Decimal) : Except Error (Integer w) :=
  checkedWithinLong w d.text d.truncate

/-- A whole number of at most 64 bits is taken as it is written, and anything else read as a
decimal. -/
def ofText (w : Width) (cs : List Char) : Except Error (Integer w) :=
  match (Numeral.readInt? cs).bind (ofInt? .long) with
  | some i => checked w cs i.val
  | none =>
    match Decimal.read? cs with
    | none => .error ((Target.integer w).badText cs)
    | some d => checkedWithinLong w cs d.truncate

end ScalarCell.Integer
