/-!
# Blank characters

The characters with the Unicode property White_Space, and a text without those at its two ends.

* `blankRanges` is the property's table.
* `trim` cuts blanks off both ends; `trim_toList` says which characters stay.
-/

namespace ScalarCell.Text

/-- The code points with the property, as ranges with both ends included. -/
def blankRanges : List (Nat × Nat) :=
  [(0x0009, 0x000d), (0x0020, 0x0020), (0x0085, 0x0085), (0x00a0, 0x00a0), (0x1680, 0x1680),
    (0x2000, 0x200a), (0x2028, 0x2029), (0x202f, 0x202f), (0x205f, 0x205f), (0x3000, 0x3000)]

def isBlank (c : Char) : Bool :=
  blankRanges.any fun r => r.1 ≤ c.toNat && c.toNat ≤ r.2

def trimLeft (cs : List Char) : List Char := cs.dropWhile isBlank

def trimRight (cs : List Char) : List Char := (cs.reverse.dropWhile isBlank).reverse

/-- The text from its first to its last character that is not blank. -/
def trim (s : String) : String := String.ofList (trimRight (trimLeft s.toList))

theorem trim_toList (s : String) : (trim s).toList = trimRight (trimLeft s.toList) := by
  simp [trim]

end ScalarCell.Text
