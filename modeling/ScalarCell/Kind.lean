import ScalarCell.Scalar.Basic

/-!
# Kinds of reading

A cell can be asked for its value in ten kinds: as text, as a boolean, as an integer of one of four
widths, as a floating-point number of one of two formats, as a decimal, or as it is.

* `Kind.Carrier` is the type of the values of a kind, and `Kind.default` the one that stands in for
  NULL.
* A `Nullable` is a value together with whether it stands in for NULL.
* `Kind.Delivered` is what a custom type receives, and `Kind.deliver` makes it: text, decimals and
  whole objects keep NULL apart, the other kinds receive the stand-in.
-/

namespace ScalarCell

structure Nullable (α : Type) where
  /-- The value, or what stands in for NULL. -/
  value : α
  isNull : Bool
deriving DecidableEq

namespace Nullable

variable {α : Type}

def present (a : α) : Nullable α := ⟨a, false⟩

def toOption (r : Nullable α) : Option α := if r.isNull then none else some r.value

end Nullable

inductive Kind where
  | string
  | boolean
  | integral (w : Width)
  | float
  | double
  | decimal
  | object
deriving DecidableEq

namespace Kind

/-- A whole object may be NULL itself. -/
def Carrier : Kind → Type
  | string => String
  | boolean => Bool
  | integral w => Integer w
  | float => Binary.Single
  | double => Binary.Double
  | decimal => Decimal
  | object => Option Scalar

instance : (k : Kind) → DecidableEq k.Carrier
  | string => inferInstanceAs (DecidableEq String)
  | boolean => inferInstanceAs (DecidableEq Bool)
  | integral w => inferInstanceAs (DecidableEq (Integer w))
  | float => inferInstanceAs (DecidableEq Binary.Single)
  | double => inferInstanceAs (DecidableEq Binary.Double)
  | decimal => inferInstanceAs (DecidableEq Decimal)
  | object => inferInstanceAs (DecidableEq (Option Scalar))

def default : (k : Kind) → k.Carrier
  | string => ""
  | boolean => false
  | integral w => Integer.zero w
  | float => Binary.zero .single false
  | double => Binary.zero .double false
  | decimal => Decimal.zero
  | object => none

/-- The reading of NULL. -/
def null (k : Kind) : Nullable k.Carrier := ⟨k.default, true⟩

def Delivered : Kind → Type
  | string => Option String
  | boolean => Bool
  | integral w => Integer w
  | float => Binary.Single
  | double => Binary.Double
  | decimal => Option Decimal
  | object => Option (Option Scalar)

def deliver : (k : Kind) → Nullable k.Carrier → k.Delivered
  | string, r => r.toOption
  | boolean, r => r.value
  | integral _, r => r.value
  | float, r => r.value
  | double, r => r.value
  | decimal, r => r.toOption
  | object, r => r.toOption

end Kind

end ScalarCell
