import ScalarCell.Scalar.Getter

/-!
# Cells

A `Cell` is one value of a result row: the type reported for its column, the decoded value or NULL,
and the settings of the connection.

* `Cell.get k` reads the value as kind `k`; NULL reads as the default of the kind, and as NULL.
* `Cell.backend` is the type that the value is treated as: that of the value, and for NULL the
  reported one, where text covers every type without a reading of its own.
* `Cell.warnings` reports a value that does not go with the reported type.
-/

namespace ScalarCell

/-- The types with a reading of their own. -/
inductive Backend where
  | bool
  | int2
  | int4
  | int8
  | float4
  | float8
  | numeric
  | text
deriving DecidableEq

def Scalar.backend : Scalar → Backend
  | .bool _ => .bool
  | .int2 _ => .int2
  | .int4 _ => .int4
  | .int8 _ => .int8
  | .float4 _ => .float4
  | .float8 _ => .float8
  | .numeric _ => .numeric
  | .text _ => .text

/-- The value goes with the reported type. Types without a name arrive as text, and an oid as an
`int4`. -/
def Scalar.goesWith (v : Scalar) (o : Oid) : Bool :=
  match v with
  | .text _ => o.isTextual || o.typeName?.isNone
  | .int4 _ => o = .int4 || o = .oid
  | v => o = v.oid

/-- The treatment of a column by its reported type. -/
def Oid.backend (o : Oid) : Backend :=
  if o = .bool then .bool
  else if o = .int2 then .int2
  else if o = .int4 ∨ o = .oid then .int4
  else if o = .int8 then .int8
  else if o = .float4 then .float4
  else if o = .float8 then .float8
  else if o = .numeric then .numeric
  else .text

/-- A line in a log, without its fields. The traces of single reads are left out. -/
inductive Event where
  | oidMismatch
  | mapOverride
deriving DecidableEq

namespace Event

def text : Event → String
  | oidMismatch => "WARN Decoded value does not match reported type oid"
  | mapOverride => "DEBUG Requested custom type overrides type map entry"

end Event

structure Cell where
  reported : Oid
  value : Option Scalar
  config : Config
deriving DecidableEq

namespace Cell

def isNull (c : Cell) : Bool := c.value.isNone

def backend (c : Cell) : Backend :=
  match c.value with
  | some v => v.backend
  | none => c.reported.backend

/-- The oid of the type that the value is treated as. Text keeps the reported one. -/
def oid (c : Cell) : Oid :=
  match c.backend with
  | .bool => .bool
  | .int2 => .int2
  | .int4 => .int4
  | .int8 => .int8
  | .float4 => .float4
  | .float8 => .float8
  | .numeric => .numeric
  | .text => c.reported

def typeName (c : Cell) : String := c.oid.typeName?.getD "unknown"

def warnings (c : Cell) : List Event :=
  match c.value with
  | some v => if v.goesWith c.reported then [] else [.oidMismatch]
  | none => []

def get (c : Cell) (k : Kind) : Except Error (Nullable k.Carrier) :=
  match c.value with
  | none => .ok k.null
  | some v => (v.get c.config k).map .present

end Cell

end ScalarCell
