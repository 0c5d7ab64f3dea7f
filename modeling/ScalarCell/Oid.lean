/-!
# Type oids

The object identifiers of the scalar types of the server, as reported with a column.
-/

namespace ScalarCell

structure Oid where
  number : UInt32
deriving DecidableEq

namespace Oid

def unspecified : Oid := ⟨0⟩
def bool : Oid := ⟨16⟩
def char : Oid := ⟨18⟩
def name : Oid := ⟨19⟩
def int8 : Oid := ⟨20⟩
def int2 : Oid := ⟨21⟩
def int4 : Oid := ⟨23⟩
def text : Oid := ⟨25⟩
def oid : Oid := ⟨26⟩
def float4 : Oid := ⟨700⟩
def float8 : Oid := ⟨701⟩
def unknown : Oid := ⟨705⟩
def bpchar : Oid := ⟨1042⟩
def varchar : Oid := ⟨1043⟩
def numeric : Oid := ⟨1700⟩

/-- The types that have a name here. Any other oid belongs to a domain, an enumeration or the like,
whose values arrive as text. -/
def typeNames : List (Oid × String) :=
  [(unspecified, "unspecified"), (bool, "bool"), (char, "char"), (name, "name"), (int8, "int8"),
    (int2, "int2"), (int4, "int4"), (text, "text"), (oid, "oid"), (float4, "float4"),
    (float8, "float8"), (unknown, "unknown"), (bpchar, "bpchar"), (varchar, "varchar"),
    (numeric, "numeric")]

def typeName? (o : Oid) : Option String := typeNames.lookup o

def textual : List Oid := [text, varchar, bpchar, name, char, unknown]

def isTextual (o : Oid) : Bool := textual.contains o

end Oid

end ScalarCell
