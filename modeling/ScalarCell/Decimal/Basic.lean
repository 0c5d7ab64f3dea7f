import ScalarCell.Integer
import ScalarCell.Numeral.Scaled

/-!
# Exact decimals

A `Decimal` is `mantissa / 10 ^ scale` with a sign, the mantissa below `2 ^ 96` and at most 28
fraction digits. The scale is part of the value that is kept: `1.50` and `1.5` are two decimals that
are numerically equal, and so are `0.00` and `-0.00`.

* `text` writes every fraction digit of the scale.
* `truncate` is the integer part, `numEq` numerical equality.
-/

namespace ScalarCell

/-- Two to the power of 96. -/
def Decimal.mantissaBound : Nat := 79228162514264337593543950336

def Decimal.maxScale : Nat := 28

structure Decimal where
  negative : Bool
  mantissa : Nat
  scale : Nat
  mantissa_lt : mantissa < Decimal.mantissaBound
  scale_le : scale ≤ Decimal.maxScale
deriving DecidableEq

namespace Decimal

def ofParts? (negative : Bool) (mantissa scale : Nat) : Option Decimal :=
  if h : mantissa < mantissaBound ∧ scale ≤ maxScale then
    some ⟨negative, mantissa, scale, h.1, h.2⟩
  else none

def zero : Decimal := ⟨false, 0, 0, by decide, by decide⟩

def one : Decimal := ⟨false, 1, 0, by decide, by decide⟩

def scaled (d : Decimal) : Numeral.Scaled := ⟨d.mantissa, -(d.scale : Int)⟩

def toRat (d : Decimal) : Rat := if d.negative then -d.scaled.magnitude else d.scaled.magnitude

/-- The integer part: rounding toward zero. -/
def truncate (d : Decimal) : Int :=
  Numeral.applySign d.negative (d.mantissa / Nat.pow 10 d.scale)

def numEq (d e : Decimal) : Bool := d.toRat == e.toRat

def isZero (d : Decimal) : Bool := d.mantissa == 0

def text (d : Decimal) : List Char := (if d.negative then ['-'] else []) ++ d.scaled.plain

/-- Every integer of at most 64 bits is a decimal of scale 0. -/
def ofInteger {w : Width} (n : Integer w) : Decimal :=
  ⟨decide (n.val < 0), n.val.natAbs, 0,
    by
      have := n.inRange
      cases w <;> simp only [Width.Holds, Width.bound] at this <;>
        simp only [mantissaBound] <;> omega,
    Nat.zero_le _⟩

end Decimal

end ScalarCell
