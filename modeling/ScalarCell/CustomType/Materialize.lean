import ScalarCell.CustomType.TypeMap

/-!
# Materializing an object from an input

* `materialize` lets a handle's factory make an instance and the instance read its attribute. It
  yields an object only if exactly one read was issued on the input and succeeded.
* `resolveAndMaterialize` is for a type that the caller asks for where the type map may name
  another: the map is only looked at to report that.

Both return, as a `Run`, the result together with what the call changed.
-/

namespace ScalarCell

structure Run (σ α : Type) where
  result : Except Error α
  input : Input
  supply : σ
  log : List Event

variable {τ σ : Type} [Catalog τ]

/-- Whether the instance may be handed out, after its body has run. A second read counts against it
even if the body ignored the refusal, so that is looked at first. -/
def verdict (t : τ) (outcome : Except Error (Catalog.Instance t)) (after : Input) :
    Except Error (Object τ) :=
  if 1 < after.attempts then .error (.multipleAttributes after.attempts)
  else
    match outcome with
    | .error e => .error e
    | .ok v =>
      if after.state.isDone then .ok ⟨t, v⟩ else .error (.noAttributesRead (Catalog.name t))

def materialize (typeName : String) (h : Handle τ σ) (i : Input) (supply : σ) :
    Run σ (Object τ) :=
  match h with
  | .structured name => ⟨.error (.notSqlData name), i, supply, []⟩
  | .scalar t factory =>
    match factory supply with
    | (.error cause, rest) => ⟨.error (.construction (Catalog.name t) cause), i, rest, []⟩
    | (.ok fresh, rest) =>
      let (outcome, after) := (Catalog.readSql t fresh typeName).run i
      ⟨verdict t outcome after, after, rest, []⟩

/-- An entry for the type under another name is worth a line in the log. -/
def overrides (m : TypeMap τ σ) (typeName : String) (h : Handle τ σ) : List Event :=
  match m.get? typeName with
  | some mapped => if mapped.name = h.name then [] else [.mapOverride]
  | none => []

def resolveAndMaterialize (m : TypeMap τ σ) (typeName : String) (requested : Handle τ σ)
    (i : Input) (supply : σ) : Run σ (Object τ) :=
  if requested.isSqlData then
    let run := materialize typeName requested i supply
    { run with log := overrides m typeName requested ++ run.log }
  else ⟨.error (.notSqlData requested.name), i, supply, []⟩

end ScalarCell
