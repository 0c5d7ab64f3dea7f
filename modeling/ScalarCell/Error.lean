/-!
# Failures of conversion and of custom types

`Error` lists the causes, `Error.category` sorts them into four kinds, `Error.sqlState` gives the
five-character code and `Error.message` the wording.
-/

namespace ScalarCell

inductive Error where
  /-- A custom type left its attribute unread. -/
  | noAttributesRead (typeName : String)
  | numericOverflow (target value : String)
  | dataConversion (text : String)
  /-- The value has no truth value. -/
  | cannotCoerce (value : String)
  /-- A type of the server has no conversion to the target at all. -/
  | unsupportedConversion (backend target : String)
  /-- The factory of a custom type failed. -/
  | construction (typeName cause : String)
  | typeMismatch (expected actual : String)
  /-- The type has no reading from a single attribute. -/
  | notSqlData (typeName : String)
  | multipleAttributes (attempt : Nat)
  | invalidConfig (text : String)
deriving DecidableEq

namespace Error

inductive Category where
  | data
  | system
  | notImplemented
  | config
deriving DecidableEq

def category : Error → Category
  | noAttributesRead _ | numericOverflow _ _ | dataConversion _ | cannotCoerce _
  | unsupportedConversion _ _ => .data
  | construction _ _ | typeMismatch _ _ => .system
  | notSqlData _ | multipleAttributes _ => .notImplemented
  | invalidConfig _ => .config

/-- The code that a category has unless a cause has its own. -/
def Category.sqlState : Category → String
  | data => "22000"
  | system => "60000"
  | notImplemented => "0A000"
  | config => "22023"

def sqlState : Error → String
  | cannotCoerce _ => "22018"
  | numericOverflow _ _ => "22003"
  | e => e.category.sqlState

def message : Error → String
  | noAttributesRead typeName => "no attributes read by custom type instance of " ++ typeName
  | numericOverflow target value => s!"bad value for type {target}: {value}"
  | dataConversion text => "data conversion error: " ++ text
  | cannotCoerce value => "cannot cast to boolean: \"" ++ value ++ "\""
  | unsupportedConversion backend target => s!"cannot convert {backend} value to {target}"
  | construction typeName cause => s!"failed to construct custom type {typeName}: {cause}"
  | typeMismatch expected actual => s!"custom type {actual} cannot be used as {expected}"
  | notSqlData typeName => "custom type does not implement SqlData: " ++ typeName
  | multipleAttributes attempt =>
    s!"only a single attribute is supported for scalar custom types, attempted read #{attempt}"
  | invalidConfig text => "invalid configuration: " ++ text

end Error

end ScalarCell
