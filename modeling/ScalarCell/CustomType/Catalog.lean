import ScalarCell.CustomType.Body

/-!
# Custom types and their handles

A `Catalog` gives every custom type a name, a Lean type of instances, and a way to fill an instance
from one attribute. An `Object` is an instance together with its type, and a `Handle` is how a
caller names a custom type: either a scalar one, with a factory for fresh instances, or a structured
one, which cannot be read from one attribute.

A factory draws on a supply `σ`, and may fail.
-/

namespace ScalarCell

class Catalog (τ : Type) where
  name : τ → String
  Instance : τ → Type
  /-- Fills an instance, given the name of the type that the server reports. -/
  readSql : (t : τ) → Instance t → String → ReadBody (Instance t)

structure Object (τ : Type) [Catalog τ] where
  type : τ
  value : Catalog.Instance type

namespace Object

variable {τ : Type} [Catalog τ] [DecidableEq τ]

/-- The instance, if it is one of the type asked for. -/
def downcast? (t : τ) (o : Object τ) : Option (Catalog.Instance t) :=
  if h : o.type = t then some (h ▸ o.value) else none

def downcast (t : τ) (o : Object τ) : Except Error (Catalog.Instance t) :=
  match o.downcast? t with
  | some v => .ok v
  | none => .error (.typeMismatch (Catalog.name t) (Catalog.name o.type))

end Object

/-- A run of a factory: what it makes or why it fails, and what is left of the supply. -/
abbrev Factory (σ α : Type) : Type := σ → Except String α × σ

inductive Handle (τ σ : Type) [Catalog τ] where
  | scalar (t : τ) (factory : Factory σ (Catalog.Instance t))
  | structured (name : String)

namespace Handle

variable {τ σ : Type} [Catalog τ]

/-- Every instance starts out as the same one, and nothing is drawn from the supply. -/
def ofDefault (t : τ) (fresh : Catalog.Instance t) : Handle τ σ :=
  scalar t fun supply => (.ok fresh, supply)

def name : Handle τ σ → String
  | scalar t _ => Catalog.name t
  | structured n => n

/-- Whether instances can be read from one attribute. -/
def isSqlData : Handle τ σ → Bool
  | scalar _ _ => true
  | structured _ => false

def produces [DecidableEq τ] (h : Handle τ σ) (t : τ) : Bool :=
  match h with
  | scalar u _ => u = t
  | structured _ => false

end Handle

end ScalarCell
