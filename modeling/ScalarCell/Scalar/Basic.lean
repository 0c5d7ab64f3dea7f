import ScalarCell.Binary.Printer
import ScalarCell.Decimal.Basic
import ScalarCell.Oid

/-!
# Scalar values

A `Scalar` is one decoded value of a scalar type of the server. NULL is `none : Option Scalar`.

* `Scalar.toText` is the value's text, `Scalar.oid` the type that goes with it.
* `Scalar.equal` compares values of one type numerically; values of two types differ.
-/

namespace ScalarCell

inductive Scalar where
  | bool (b : Bool)
  | int2 (n : Integer .short)
  | int4 (n : Integer .int)
  | int8 (n : Integer .long)
  | float4 (x : Binary.Single)
  | float8 (x : Binary.Double)
  | numeric (d : Decimal)
  | text (s : String)
deriving DecidableEq

namespace Scalar

def boolText (b : Bool) : String := if b then "t" else "f"

def toText : Scalar → String
  | bool b => boolText b
  | int2 n => String.ofList n.text
  | int4 n => String.ofList n.text
  | int8 n => String.ofList n.text
  | float4 x => String.ofList x.render
  | float8 x => String.ofList x.render
  | numeric d => String.ofList d.text
  | text s => s

def oid : Scalar → Oid
  | bool _ => .bool
  | int2 _ => .int2
  | int4 _ => .int4
  | int8 _ => .int8
  | float4 _ => .float4
  | float8 _ => .float8
  | numeric _ => .numeric
  | text _ => .text

/-! ## Views without conversion -/

def string? : Scalar → Option String
  | text s => some s
  | _ => none

def integer? : Scalar → Option Int
  | int2 n => some n.val
  | int4 n => some n.val
  | int8 n => some n.val
  | _ => none

def bool? : Scalar → Option Bool
  | bool b => some b
  | _ => none

def equal : Scalar → Scalar → Bool
  | bool b, bool c => b == c
  | int2 m, int2 n => m == n
  | int4 m, int4 n => m == n
  | int8 m, int8 n => m == n
  | float4 x, float4 y => x.numEq y
  | float8 x, float8 y => x.numEq y
  | numeric d, numeric e => d.numEq e
  | text s, text t => s == t
  | _, _ => false

end Scalar

/-! ## Values that may be NULL -/

def nullableText : Option Scalar → String
  | none => "NULL"
  | some v => v.toText

/-- NULL has no type of its own. -/
def nullableOid : Option Scalar → Oid
  | none => .unspecified
  | some v => v.oid

def nullableEqual : Option Scalar → Option Scalar → Bool
  | none, none => true
  | some v, some w => v.equal w
  | _, _ => false

end ScalarCell
