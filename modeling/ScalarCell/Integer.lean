import ScalarCell.Numeral.Whole

/-!
# Integers of fixed width

An `Integer w` is an integer in the range of the width `w`: 8, 16, 32 or 64 bits, with a sign.

* `Integer.ofInt?` admits exactly the integers in range.
* `Integer.lowByte` keeps the low eight bits of any integer.
-/

namespace ScalarCell

inductive Width where
  | byte
  | short
  | int
  | long
deriving DecidableEq

namespace Width

def name : Width → String
  | byte => "byte"
  | short => "short"
  | int => "int"
  | long => "long"

/-- The least integer above the range; the range begins at its negative. -/
def bound : Width → Int
  | byte => 128
  | short => 32768
  | int => 2147483648
  | long => 9223372036854775808

def Holds (w : Width) (n : Int) : Prop := -w.bound ≤ n ∧ n < w.bound

instance (w : Width) (n : Int) : Decidable (w.Holds n) := inferInstanceAs (Decidable (_ ∧ _))

theorem holds_zero (w : Width) : w.Holds 0 := by cases w <;> decide

end Width

structure Integer (w : Width) where
  val : Int
  inRange : w.Holds val
deriving DecidableEq

namespace Integer

variable {w : Width}

def ofInt? (w : Width) (n : Int) : Option (Integer w) :=
  if h : w.Holds n then some ⟨n, h⟩ else none

def zero (w : Width) : Integer w := ⟨0, w.holds_zero⟩

def one (w : Width) : Integer w := ⟨1, by cases w <;> decide⟩

def ofBool (w : Width) (b : Bool) : Integer w := if b then one w else zero w

/-- The integer of eight bits that is congruent to `n` modulo 256. -/
def lowByte (n : Int) : Integer .byte :=
  ⟨(n + 128) % 256 - 128, by simp only [Width.Holds, Width.bound]; omega⟩

def text (n : Integer w) : List Char := Numeral.intText n.val

/-! ## Laws -/

theorem ofInt?_eq_some_iff {n : Int} {i : Integer w} : ofInt? w n = some i ↔ i.val = n := by
  unfold ofInt?
  split
  · exact ⟨fun h => by cases h; rfl, fun h => by cases h; rfl⟩
  · next h => exact ⟨nofun, fun e => absurd (e ▸ i.inRange) h⟩

end Integer

end ScalarCell
