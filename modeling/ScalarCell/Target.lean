import ScalarCell.Error
import ScalarCell.Integer

/-!
# Numeric targets

The numeric types a value can be asked for, by the names that error messages give them.
-/

namespace ScalarCell

inductive Target where
  | integer (w : Width)
  | float
  | double
  | decimal
deriving DecidableEq

namespace Target

def name : Target → String
  | integer w => w.name
  | float => "float"
  | double => "double"
  | decimal => "BigDecimal"

/-- The number does not fit. -/
def overflow (t : Target) (value : List Char) : Error :=
  .numericOverflow t.name (String.ofList value)

/-- The text is no number of the target. -/
def badText (t : Target) (text : List Char) : Error :=
  .dataConversion ("bad value for type " ++ t.name ++ ": " ++ String.ofList text)

/-- The type of the server named `backend` has no such view. -/
def unsupported (t : Target) (backend : String) : Error := .unsupportedConversion backend t.name

end Target

end ScalarCell
