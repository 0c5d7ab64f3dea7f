import ScalarCell.Error
import ScalarCell.Text.Blank
import ScalarCell.Text.Case
import ScalarCell.Text.Segments

/-!
# Conversion settings

A `Config` says how values become booleans and whether numbers in text may stand between blanks.

* `Config.parse` reads `key=value` settings between `&` or `;`, later ones over earlier ones, with
  blanks around settings, keys and values ignored. It stops at the first faulty setting.
* `Config.text` writes both settings.
* `Config.set` changes one setting, or says what is wrong with it.
-/

namespace ScalarCell

/-- Which values besides the words and the numbers 0 and 1 have a truth value. -/
inductive Policy where
  /-- Every number does. -/
  | lenient
  /-- None does. -/
  | strict
deriving DecidableEq

inductive ConfigFault where
  | unknownPolicy (value : String)
  | badTrimming (value : String)
  | unknownKey (key : String)
  | notASetting (segment : String)
deriving DecidableEq

structure Config where
  policy : Policy
  trimsNumbers : Bool
deriving DecidableEq

namespace ConfigFault

def message : ConfigFault → String
  | unknownPolicy value => "invalid boolean coercion policy: " ++ value
  | badTrimming value => "invalid value for trimNumericText: " ++ value
  | unknownKey key => "unknown conversion parameter: " ++ key
  | notASetting segment => "expected key=value, got: " ++ segment

def toError (f : ConfigFault) : Error := .invalidConfig f.message

end ConfigFault

namespace Policy

def text : Policy → String
  | lenient => "lenient"
  | strict => "strict"

/-- The two names, in any case. -/
def parse (s : String) : Except ConfigFault Policy :=
  if Text.sameLetters s.toList "lenient".toList then .ok lenient
  else if Text.sameLetters s.toList "strict".toList then .ok strict
  else .error (.unknownPolicy s)

end Policy

namespace Config

def default : Config := ⟨.lenient, true⟩

def policyKey : String := "boolCoercion"

def trimmingKey : String := "trimNumericText"

/-- `true` and `false`, in lower case only. -/
def parseTrimming (value : String) : Except ConfigFault Bool :=
  if value = "true" then .ok true
  else if value = "false" then .ok false
  else .error (.badTrimming value)

def set (config : Config) (key value : String) : Except ConfigFault Config :=
  if key = policyKey then
    (Policy.parse value).map fun policy => { config with policy }
  else if key = trimmingKey then
    (parseTrimming value).map fun trimsNumbers => { config with trimsNumbers }
  else .error (.unknownKey key)

/-- A blank segment changes nothing; any other is a key and a value around its first `=`. -/
def applySegment (config : Config) (segment : List Char) : Except ConfigFault Config :=
  let trimmed := Text.trim (String.ofList segment)
  if trimmed = "" then .ok config
  else
    match Text.cutAt? '=' trimmed.toList with
    | none => .error (.notASetting trimmed)
    | some (key, value) =>
      config.set (Text.trim (String.ofList key)) (Text.trim (String.ofList value))

def isSeparator (c : Char) : Bool := c == '&' || c == ';'

def parse (s : String) : Except ConfigFault Config :=
  (Text.segments isSeparator s.toList).foldlM applySegment default

def flagText (b : Bool) : String := if b then "true" else "false"

def text (config : Config) : String :=
  policyKey ++ "=" ++ config.policy.text ++ "&" ++
    trimmingKey ++ "=" ++ flagText config.trimsNumbers

end Config

end ScalarCell
