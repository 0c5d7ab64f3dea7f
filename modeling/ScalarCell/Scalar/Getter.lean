import ScalarCell.Conversion.Fractional
import ScalarCell.Conversion.Integral
import ScalarCell.Conversion.Truth
import ScalarCell.Kind

/-!
# A scalar value read as another kind

One function for each kind, by the type of the value, and `Scalar.get` over all of them. The
settings matter for booleans, and for numbers in a text.

* A boolean is 1 or 0 as an integer, and has no floating-point or decimal view.
* An `int2` as a byte keeps its low eight bits; every other narrowing checks the range.
-/

namespace ScalarCell.Scalar

/-- The text that numbers are read from. -/
def numericText (config : Config) (s : String) : List Char :=
  if config.trimsNumbers then (Text.trim s).toList else s.toList

def getBoolean (config : Config) : Scalar → Except Error Bool
  | bool b => .ok b
  | int2 n => config.policy.truthOfInt n.val
  | int4 n => config.policy.truthOfInt n.val
  | int8 n => config.policy.truthOfInt n.val
  | float4 x => config.policy.truthOfDouble (x.convert .double)
  | float8 x => config.policy.truthOfDouble x
  | numeric d => config.policy.truthOfDecimal d
  | text s => config.policy.truthOfText s

/-- The view of an `int2`, by the width asked for. -/
def ofInt2 (n : Integer .short) : (w : Width) → Except Error (Integer w)
  | .byte => .ok (Integer.lowByte n.val)
  | w => Integer.narrow w n.val

def getIntegral (config : Config) (w : Width) : Scalar → Except Error (Integer w)
  | bool b => .ok (Integer.ofBool w b)
  | int2 n => ofInt2 n w
  | int4 n => Integer.narrow w n.val
  | int8 n => Integer.narrow w n.val
  | float4 x => Integer.ofDouble w (x.convert .double)
  | float8 x => Integer.ofDouble w x
  | numeric d => Integer.ofDecimal w d
  | text s => Integer.ofText w (numericText config s)

def getFloat (config : Config) : Scalar → Except Error Binary.Single
  | bool _ => .error (Target.float.unsupported "bool")
  | int2 n => .ok (Binary.ofInt .single n.val)
  | int4 n => .ok (Binary.ofInt .single n.val)
  | int8 n => .ok (Binary.ofInt .single n.val)
  | float4 x => .ok x
  | float8 x => .ok (x.convert .single)
  | numeric d => Binary.singleOfDecimal d
  | text s => Binary.singleOfText (numericText config s)

def getDouble (config : Config) : Scalar → Except Error Binary.Double
  | bool _ => .error (Target.double.unsupported "bool")
  | int2 n => .ok (Binary.ofInt .double n.val)
  | int4 n => .ok (Binary.ofInt .double n.val)
  | int8 n => .ok (Binary.ofInt .double n.val)
  | float4 x => .ok (x.convert .double)
  | float8 x => .ok x
  | numeric d => Binary.doubleOfDecimal d
  | text s => Binary.doubleOfText .double (numericText config s)

def getDecimal (config : Config) : Scalar → Except Error Decimal
  | bool _ => .error (Target.decimal.unsupported "bool")
  | int2 n => .ok (Decimal.ofInteger n)
  | int4 n => .ok (Decimal.ofInteger n)
  | int8 n => .ok (Decimal.ofInteger n)
  | float4 x => Decimal.ofBinary x
  | float8 x => Decimal.ofBinary x
  | numeric d => .ok d
  | text s => Decimal.ofText (numericText config s)

def get (config : Config) (v : Scalar) : (k : Kind) → Except Error k.Carrier
  | .string => .ok v.toText
  | .boolean => v.getBoolean config
  | .integral w => v.getIntegral config w
  | .float => v.getFloat config
  | .double => v.getDouble config
  | .decimal => v.getDecimal config
  | .object => .ok (some v)

end ScalarCell.Scalar
