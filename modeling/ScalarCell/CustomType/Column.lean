import ScalarCell.CustomType.Materialize

/-!
# Columns read as custom types

Two ways to read a cell, each on a fresh input of its own.

* `materializeAs` reads it as the custom type that the caller asks for, NULL as `none`.
* `getObject` applies the type map: a type that is registered under the column's type name wins over
  the decoded value.
-/

namespace ScalarCell

structure Outcome (σ α : Type) where
  result : Except Error α
  supply : σ
  log : List Event

inductive Mapped (τ : Type) [Catalog τ] where
  | null
  /-- No type is registered: the decoded value. -/
  | base (v : Scalar)
  | custom (o : Object τ)

namespace Mapped

variable {τ : Type} [Catalog τ]

def isNull : Mapped τ → Bool
  | null => true
  | _ => false

def base? : Mapped τ → Option Scalar
  | base v => some v
  | _ => none

def custom? [DecidableEq τ] (t : τ) : Mapped τ → Option (Catalog.Instance t)
  | custom o => o.downcast? t
  | _ => none

end Mapped

variable {τ σ : Type} [Catalog τ]

def getObject (m : TypeMap τ σ) (typeName : String) (c : Cell) (supply : σ) :
    Outcome σ (Mapped τ) :=
  match c.value with
  | none => ⟨.ok .null, supply, []⟩
  | some v =>
    match m.get? typeName with
    | some h =>
      let run := materialize typeName h (.ofCell c) supply
      ⟨run.result.map .custom, run.supply, run.log⟩
    | none => ⟨.ok (.base v), supply, []⟩

/-- A handle that cannot yield the target is refused before anything is made or read. -/
def materializeAs [DecidableEq τ] (m : TypeMap τ σ) (target : τ) (typeName : String)
    (requested : Handle τ σ) (c : Cell) (supply : σ) :
    Outcome σ (Option (Catalog.Instance target)) :=
  if !requested.isSqlData then ⟨.error (.notSqlData requested.name), supply, []⟩
  else if !requested.produces target then
    ⟨.error (.typeMismatch (Catalog.name target) requested.name), supply, []⟩
  else if c.isNull then ⟨.ok none, supply, []⟩
  else
    let run := resolveAndMaterialize m typeName requested (.ofCell c) supply
    ⟨run.result.bind fun o => (o.downcast target).map some, run.supply, run.log⟩

end ScalarCell
