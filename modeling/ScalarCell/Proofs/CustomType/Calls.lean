import ScalarCell.Proofs.CustomType.Column

/-!
# Runs of calls

A `Call` is one use of the open input, or one of the two ways to read a column, which open an input
of their own and leave the open one alone. `Call.perform` carries one out. `Call.trace` lists what
came of each call of a run, and `Call.after` is what the run leaves. A run of uses of the open input is
a history of it (`Call.after_use`).

Whichever entry point a call goes through, it materializes one handle at most (`Call.plays`). That
handle alone decides what becomes of the supply (`Call.perform_supply`), and `Call.made` says
whether its factory runs.
-/

namespace ScalarCell

/-- The answer of a call. -/
inductive Answer (τ : Type) [Catalog τ] where
  | reply (k : Kind) (r : Except Error k.Delivered)
  | object (r : Except Error (Object τ))
  | mapped (r : Except Error (Mapped τ))
  | asked (t : τ) (r : Except Error (Option (Catalog.Instance t)))

inductive Call (τ σ : Type) [Catalog τ] where
  | use (u : Use τ σ)
  | getObject (m : TypeMap τ σ) (typeName : String) (c : Cell)
  | materializeAs (m : TypeMap τ σ) (target : τ) (typeName : String) (h : Handle τ σ) (c : Cell)

/-- What came of one call. -/
structure Performed (τ σ : Type) [Catalog τ] where
  answer : Answer τ
  /-- The open input. -/
  input : Input
  supply : σ
  log : List Event

variable {τ σ : Type} [Catalog τ]

/-- All that a caller sees, who knows nothing of the supply. -/
def Performed.shown (p : Performed τ σ) : Answer τ × Input × List Event := (p.answer, p.input, p.log)

def Run.performed (run : Run σ (Object τ)) : Performed τ σ :=
  ⟨.object run.result, run.input, run.supply, run.log⟩

def Use.perform : Use τ σ → Input → σ → Performed τ σ
  | read k, i, supply => ⟨.reply k (i.read k).1, (i.read k).2, supply, []⟩
  | materialize typeName h, i, supply => (ScalarCell.materialize typeName h i supply).performed
  | resolve m typeName h, i, supply => (resolveAndMaterialize m typeName h i supply).performed

namespace Call

variable [DecidableEq τ]

def perform : Call τ σ → Input → σ → Performed τ σ
  | use u, i, supply => u.perform i supply
  | getObject m typeName c, i, supply =>
    let column := ScalarCell.getObject m typeName c supply
    ⟨.mapped column.result, i, column.supply, column.log⟩
  | materializeAs m target typeName h c, i, supply =>
    let column := ScalarCell.materializeAs m target typeName h c supply
    ⟨.asked target column.result, i, column.supply, column.log⟩

/-- The calls one after the other, each with what came of it. -/
def trace : List (Call τ σ) → Input → σ → List (Performed τ σ)
  | [], _, _ => []
  | c :: rest, i, supply =>
    let p := c.perform i supply
    p :: trace rest p.input p.supply

/-- The open input and the supply that a run of calls leaves. -/
def after : List (Call τ σ) → Input → σ → Input × σ
  | [], i, supply => (i, supply)
  | c :: rest, i, supply =>
    let p := c.perform i supply
    after rest p.input p.supply

theorem trace_append (first later : List (Call τ σ)) (i : Input) (supply : σ) :
    trace (first ++ later) i supply =
      trace first i supply ++ trace later (after first i supply).1 (after first i supply).2 := by
  induction first generalizing i supply with
  | nil => rfl
  | cons c rest ih => exact congrArg (_ :: ·) (ih _ _)

@[simp]
theorem length_trace (calls : List (Call τ σ)) (i : Input) (supply : σ) :
    (trace calls i supply).length = calls.length := by
  induction calls generalizing i supply with
  | nil => rfl
  | cons c rest ih => exact congrArg (· + 1) (ih _ _)

/-- A run of uses of the open input is a history of it. -/
theorem after_use (uses : List (Use τ σ)) (i : Input) (supply : σ) :
    after (uses.map .use) i supply =
      ((Use.play uses i supply).input, (Use.play uses i supply).supply) := by
  induction uses generalizing i supply with
  | nil => rfl
  | cons u rest ih =>
    have hFirst : (u.perform i supply).input = (u.apply i supply).input ∧
        (u.perform i supply).supply = (u.apply i supply).supply := by
      cases u <;> exact ⟨rfl, rfl⟩
    simp only [List.map_cons, after, perform, Use.play, hFirst, ih]

/-! ## The handle of a call -/

/-- The handle that the call materializes, if it gets that far. -/
def plays : Call τ σ → Option (Handle τ σ)
  | use (.read _) => none
  | use (.materialize _ h) => some h
  | use (.resolve _ _ h) => some h
  | getObject m typeName c => if c.isNull then none else m.get? typeName
  | materializeAs _ target _ h c => if h.produces target && !c.isNull then some h else none

/-- The handles whose factory the call runs, in order. -/
def made (c : Call τ σ) : List (Handle τ σ) := c.plays.toList.filter Handle.isSqlData

end Call

/-- How a handle is refused that does not produce the type asked for. -/
def Handle.refusal (h : Handle τ σ) (t : τ) : Error :=
  if h.isSqlData then .typeMismatch (Catalog.name t) h.name else .notSqlData h.name

/-- What one run of the factory leaves of the supply. -/
def Handle.rest : Handle τ σ → σ → σ
  | scalar _ factory, supply => (factory supply).2
  | structured _, supply => supply

theorem materialize_supply (typeName : String) (h : Handle τ σ) (i : Input) (supply : σ) :
    (materialize typeName h i supply).supply = h.rest supply := by
  cases h with
  | structured name => rfl
  | scalar t factory =>
    cases hMade : (factory supply).1 with
    | error cause => rw [materialize_of_cause hMade, Handle.rest]
    | ok fresh => rw [materialize_of_fresh hMade, Handle.rest]

section

variable {m : TypeMap τ σ} {typeName : String} {c : Cell}

theorem getObject_of_unmapped (hMap : m.get? typeName = none) {v : Scalar}
    (hValue : c.value = some v) (supply : σ) :
    getObject m typeName c supply = ⟨.ok (.base v), supply, []⟩ := by
  rw [getObject, hValue]
  simp only [hMap]

variable [DecidableEq τ] {t : τ} {h : Handle τ σ}

theorem materializeAs_of_refused (hProduces : h.produces t = false) (m : TypeMap τ σ)
    (typeName : String) (c : Cell) (supply : σ) :
    materializeAs m t typeName h c supply = ⟨.error (h.refusal t), supply, []⟩ := by
  cases hSqlData : h.isSqlData <;> simp [materializeAs, Handle.refusal, hSqlData, hProduces]

end

namespace Call

variable [DecidableEq τ]

theorem perform_supply (c : Call τ σ) (i : Input) (supply : σ) :
    (c.perform i supply).supply = c.plays.elim supply fun h => h.rest supply := by
  cases c with
  | use u =>
    cases u with
    | read k => rfl
    | materialize typeName h => exact materialize_supply typeName h i supply
    | resolve m typeName h =>
      exact (resolveAndMaterialize_supply m typeName h i supply).trans
        (materialize_supply typeName h i supply)
  | getObject m typeName c =>
    cases hNull : c.isNull with
    | true => simp [perform, plays, getObject_of_isNull hNull, hNull]
    | false =>
      cases hMap : m.get? typeName with
      | none =>
        obtain ⟨v, hValue⟩ := Cell.exists_value hNull
        simp [perform, plays, getObject_of_unmapped hMap hValue, hNull, hMap]
      | some h =>
        simp [perform, plays, getObject_of_registered hNull hMap, hNull, hMap, materialize_supply]
  | materializeAs m target typeName h c =>
    cases hProduces : h.produces target with
    | false => simp [perform, plays, materializeAs_of_refused hProduces, hProduces]
    | true =>
      cases hNull : c.isNull with
      | true =>
        simp [perform, plays, materializeAs_of_produces_isNull hProduces hNull, hProduces, hNull]
      | false =>
        simp [perform, plays, materializeAs_of_produces hProduces hNull, hProduces, hNull,
          resolveAndMaterialize_supply, materialize_supply]

end Call

end ScalarCell
