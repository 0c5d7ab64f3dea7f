import ScalarCell.CustomType.Materialize

/-!
# Transcripts of reads

A `Reading` is one read that was issued on an input, with what it returned and what the input showed
right after it. The transcript of a body, of a call or of a whole history of an input lists its
readings in order, also those that were refused and those whose failure the body ignored.

* `ReadBody.transcript` follows `ReadBody.run`, and `Handle.transcript` the body that a call of
  `materialize` or `resolveAndMaterialize` plays.
* A `Use` is one thing that may happen to an open input: a direct read, or one of the two calls.
  `Use.play` carries out any number of them on one input, in any order.
* `materialize_of_cause` and `materialize_of_fresh` are the equations of a call by what its factory
  makes, `materialize_input` and `materialize_result` those by the body that it plays.
-/

namespace ScalarCell

/-- One read that was issued. -/
structure Reading where
  kind : Kind
  reply : Except Error kind.Delivered
  /-- What the input shows right after the read. -/
  shown : InputStatus

/-- The read delivered a value. -/
def Reading.Succeeded (r : Reading) : Prop := ∃ v, r.reply = .ok v

def Input.reading (i : Input) (k : Kind) : Reading := ⟨k, (i.read k).1, (i.read k).2.status⟩

/-! ## Bodies -/

def ReadBody.transcript {α : Type} : ReadBody α → Input → List Reading
  | finish _, _ => []
  | read k next, i => i.reading k :: (next (i.read k).1).transcript (i.read k).2
  | inspect next, i => (next i.status).transcript i

/-! ## Calls -/

variable {τ σ : Type} [Catalog τ]

/-- The body that a call plays: that of a fresh instance, if handle and factory yield one. -/
def Handle.body? (h : Handle τ σ) (typeName : String) (supply : σ) :
    Option ((t : τ) × ReadBody (Catalog.Instance t)) :=
  match h with
  | structured _ => none
  | scalar t factory =>
    match (factory supply).1 with
    | .error _ => none
    | .ok fresh => some ⟨t, Catalog.readSql t fresh typeName⟩

/-- The reads that a call issues on the input. -/
def Handle.transcript (h : Handle τ σ) (typeName : String) (i : Input) (supply : σ) :
    List Reading :=
  match h.body? typeName supply with
  | none => []
  | some ⟨_, body⟩ => body.transcript i

section

variable {typeName : String} {t : τ} {factory : Factory σ (Catalog.Instance t)} {supply : σ}

theorem materialize_of_cause {cause : String} (h : (factory supply).1 = .error cause) (i : Input) :
    materialize typeName (.scalar t factory) i supply =
      ⟨.error (.construction (Catalog.name t) cause), i, (factory supply).2, []⟩ := by
  have hMade : factory supply = (.error cause, (factory supply).2) := Prod.ext h rfl
  simp only [materialize]
  rw [hMade]

theorem materialize_of_fresh {fresh : Catalog.Instance t} (h : (factory supply).1 = .ok fresh)
    (i : Input) :
    let body := Catalog.readSql t fresh typeName
    materialize typeName (.scalar t factory) i supply =
      ⟨verdict t (body.run i).1 (body.run i).2, (body.run i).2, (factory supply).2, []⟩ := by
  have hMade : factory supply = (.ok fresh, (factory supply).2) := Prod.ext h rfl
  intro body
  simp only [materialize]
  rw [hMade]

theorem body?_of_cause {cause : String} (h : (factory supply).1 = .error cause) :
    (Handle.scalar t factory).body? typeName supply = none := by
  rw [Handle.body?, h]

theorem body?_of_fresh {fresh : Catalog.Instance t} (h : (factory supply).1 = .ok fresh) :
    (Handle.scalar t factory).body? typeName supply =
      some ⟨t, Catalog.readSql t fresh typeName⟩ := by
  rw [Handle.body?, h]

end

theorem materialize_input (typeName : String) (h : Handle τ σ) (i : Input) (supply : σ) :
    (materialize typeName h i supply).input =
      match h.body? typeName supply with
      | none => i
      | some ⟨_, body⟩ => (body.run i).2 := by
  cases h with
  | structured name => rfl
  | scalar t factory =>
    cases hMade : (factory supply).1 with
    | error cause => rw [materialize_of_cause hMade, body?_of_cause hMade]
    | ok fresh => rw [materialize_of_fresh hMade, body?_of_fresh hMade]

theorem materialize_result {typeName : String} {h : Handle τ σ} {supply : σ} {t : τ}
    {body : ReadBody (Catalog.Instance t)} (hBody : h.body? typeName supply = some ⟨t, body⟩)
    (i : Input) :
    (materialize typeName h i supply).result = verdict t (body.run i).1 (body.run i).2 := by
  cases h with
  | structured name => cases hBody
  | scalar u factory =>
    cases hMade : (factory supply).1 with
    | error cause =>
      rw [body?_of_cause hMade] at hBody
      cases hBody
    | ok fresh =>
      rw [body?_of_fresh hMade] at hBody
      cases hBody
      rw [materialize_of_fresh hMade]

/-- Without a body to play, a call yields nothing. -/
theorem materialize_result_ne_ok {typeName : String} {h : Handle τ σ} {supply : σ}
    (hBody : h.body? typeName supply = none) (i : Input) (o : Object τ) :
    (materialize typeName h i supply).result ≠ .ok o := by
  cases h with
  | structured name => exact nofun
  | scalar t factory =>
    cases hMade : (factory supply).1 with
    | error cause =>
      rw [materialize_of_cause hMade]
      exact nofun
    | ok fresh =>
      rw [body?_of_fresh hMade] at hBody
      cases hBody

/-- The type map has no say in what a call yields. -/
theorem resolveAndMaterialize_result (m : TypeMap τ σ) (typeName : String) (h : Handle τ σ)
    (i : Input) (supply : σ) :
    (resolveAndMaterialize m typeName h i supply).result =
      (materialize typeName h i supply).result := by
  cases h <;> rfl

theorem resolveAndMaterialize_supply (m : TypeMap τ σ) (typeName : String) (h : Handle τ σ)
    (i : Input) (supply : σ) :
    (resolveAndMaterialize m typeName h i supply).supply =
      (materialize typeName h i supply).supply := by
  cases h <;> rfl

theorem resolveAndMaterialize_input (m : TypeMap τ σ) (typeName : String) (h : Handle τ σ)
    (i : Input) (supply : σ) :
    (resolveAndMaterialize m typeName h i supply).input =
      (materialize typeName h i supply).input := by
  cases h <;> rfl

/-! ## Histories of an input -/

/-- One use of an open input. -/
inductive Use (τ σ : Type) [Catalog τ] where
  | read (k : Kind)
  | materialize (typeName : String) (h : Handle τ σ)
  | resolve (m : TypeMap τ σ) (typeName : String) (h : Handle τ σ)

/-- What came of uses of an input: the reads they issued, and what is left. -/
structure History (σ : Type) where
  readings : List Reading
  input : Input
  supply : σ

namespace Use

def apply : Use τ σ → Input → σ → History σ
  | read k, i, supply => ⟨[i.reading k], (i.read k).2, supply⟩
  | materialize typeName h, i, supply =>
    let run := ScalarCell.materialize typeName h i supply
    ⟨h.transcript typeName i supply, run.input, run.supply⟩
  | resolve m typeName h, i, supply =>
    let run := resolveAndMaterialize m typeName h i supply
    ⟨h.transcript typeName i supply, run.input, run.supply⟩

/-- Carries out the uses one after the other. -/
def play : List (Use τ σ) → Input → σ → History σ
  | [], i, supply => ⟨[], i, supply⟩
  | u :: rest, i, supply =>
    let first := u.apply i supply
    let later := play rest first.input first.supply
    { later with readings := first.readings ++ later.readings }

end Use

end ScalarCell
