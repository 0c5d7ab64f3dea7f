import Mathlib.Data.List.Forall2
import ScalarCell.Proofs.CustomType.Calls

/-!
# Factories in runs of calls

What a run of calls shows of its factories, and how often it runs them.

* Handles are `Alike` under a relation between two supplies if their factories make the same of
  related supplies. Runs of calls with alike handles show the same (`Call.trace_of_alike`): nothing
  but the product of a factory gets out of it.
* `Handle.tallied` has a factory write down that it runs, and changes nothing else. A run of such
  calls shows what the run itself shows, and writes down one handle for each call that makes
  something (`Call.after_tallied`).
-/

namespace ScalarCell

variable {τ σ σ' : Type} [Catalog τ]

/-! ## Alike handles -/

/-- The factories make the same of supplies that are the same in a sense, and leave such supplies. -/
inductive Handle.Alike (same : σ → σ' → Prop) : Handle τ σ → Handle τ σ' → Prop
  | scalar (t : τ) {f : Factory σ (Catalog.Instance t)} {g : Factory σ' (Catalog.Instance t)}
      (factories : ∀ a b, same a b → (f a).1 = (g b).1 ∧ same (f a).2 (g b).2) :
      Alike same (.scalar t f) (.scalar t g)
  | structured (name : String) : Alike same (.structured name) (.structured name)

/-- Calls that differ in their handles only, and those are alike. Where a type map is only asked for
the name of an entry, the names are enough. -/
inductive Call.Alike (same : σ → σ' → Prop) : Call τ σ → Call τ σ' → Prop
  | read (k : Kind) : Alike same (.use (.read k)) (.use (.read k))
  | materialize (typeName : String) {h : Handle τ σ} {g : Handle τ σ'} (handles : h.Alike same g) :
      Alike same (.use (.materialize typeName h)) (.use (.materialize typeName g))
  | resolve {m : TypeMap τ σ} {n : TypeMap τ σ'} (typeName : String) {h : Handle τ σ}
      {g : Handle τ σ'}
      (names : (m.get? typeName).map Handle.name = (n.get? typeName).map Handle.name)
      (handles : h.Alike same g) :
      Alike same (.use (.resolve m typeName h)) (.use (.resolve n typeName g))
  | getObject {m : TypeMap τ σ} {n : TypeMap τ σ'} (typeName : String) (c : Cell)
      (entries : Option.Rel (Handle.Alike same) (m.get? typeName) (n.get? typeName)) :
      Alike same (.getObject m typeName c) (.getObject n typeName c)
  | materializeAs {m : TypeMap τ σ} {n : TypeMap τ σ'} (target : τ) (typeName : String)
      {h : Handle τ σ} {g : Handle τ σ'} (c : Cell)
      (names : (m.get? typeName).map Handle.name = (n.get? typeName).map Handle.name)
      (handles : h.Alike same g) :
      Alike same (.materializeAs m target typeName h c) (.materializeAs n target typeName g c)

namespace Handle.Alike

variable {same : σ → σ' → Prop} {h : Handle τ σ} {g : Handle τ σ'}

theorem name_eq (hAlike : h.Alike same g) : h.name = g.name := by cases hAlike <;> rfl

theorem isSqlData_eq (hAlike : h.Alike same g) : h.isSqlData = g.isSqlData := by
  cases hAlike <;> rfl

theorem produces_eq [DecidableEq τ] (hAlike : h.Alike same g) (t : τ) :
    h.produces t = g.produces t := by cases hAlike <;> rfl

theorem refusal_eq (hAlike : h.Alike same g) (t : τ) : h.refusal t = g.refusal t := by
  cases hAlike <;> rfl

end Handle.Alike

/-- Two runs from related supplies. -/
structure Performed.Alike (same : σ → σ' → Prop) (p : Performed τ σ) (q : Performed τ σ') : Prop where
  shown : p.shown = q.shown
  supply : same p.supply q.supply

variable {same : σ → σ' → Prop} {a : σ} {b : σ'}

theorem materialize_of_alike {h : Handle τ σ} {g : Handle τ σ'} (hAlike : h.Alike same g)
    (hSame : same a b) (typeName : String) (i : Input) :
    let run := materialize typeName h i a
    ∃ rest, materialize typeName g i b = ⟨run.result, run.input, rest, run.log⟩ ∧
      same run.supply rest := by
  cases hAlike with
  | structured name => exact ⟨b, rfl, hSame⟩
  | @scalar t f g factories =>
    obtain ⟨hProduct, hRest⟩ := factories a b hSame
    cases hMade : (f a).1 with
    | error cause =>
      rw [materialize_of_cause hMade, materialize_of_cause (hProduct.symm.trans hMade)]
      exact ⟨_, rfl, hRest⟩
    | ok fresh =>
      rw [materialize_of_fresh hMade, materialize_of_fresh (hProduct.symm.trans hMade)]
      exact ⟨_, rfl, hRest⟩

/-- Of the type map, only the name of one entry counts for the log. -/
theorem overrides_eq (m : TypeMap τ σ) (typeName : String) (h : Handle τ σ) :
    overrides m typeName h = ((m.get? typeName).map Handle.name).elim [] fun name =>
      if name = h.name then [] else [.mapOverride] := by
  unfold overrides
  cases m.get? typeName <;> rfl

theorem overrides_of_names {m : TypeMap τ σ} {n : TypeMap τ σ'} {typeName : String}
    {h : Handle τ σ} {g : Handle τ σ'}
    (hNames : (m.get? typeName).map Handle.name = (n.get? typeName).map Handle.name)
    (hName : h.name = g.name) : overrides m typeName h = overrides n typeName g := by
  rw [overrides_eq, overrides_eq, hNames, hName]

theorem resolveAndMaterialize_of_alike {m : TypeMap τ σ} {n : TypeMap τ σ'} {typeName : String}
    {h : Handle τ σ} {g : Handle τ σ'}
    (hNames : (m.get? typeName).map Handle.name = (n.get? typeName).map Handle.name)
    (hAlike : h.Alike same g) (hSame : same a b) (i : Input) :
    let run := resolveAndMaterialize m typeName h i a
    ∃ rest, resolveAndMaterialize n typeName g i b = ⟨run.result, run.input, rest, run.log⟩ ∧
      same run.supply rest := by
  obtain ⟨rest, hRun, hRest⟩ := materialize_of_alike hAlike hSame typeName i
  unfold resolveAndMaterialize
  rw [← hAlike.isSqlData_eq, ← hAlike.name_eq, ← overrides_of_names hNames hAlike.name_eq, hRun]
  split
  · exact ⟨rest, rfl, hRest⟩
  · exact ⟨b, rfl, hSame⟩

namespace Call

variable [DecidableEq τ]

theorem perform_of_alike {c : Call τ σ} {d : Call τ σ'} (hAlike : c.Alike same d)
    (hSame : same a b) (i : Input) : (c.perform i a).Alike same (d.perform i b) := by
  cases hAlike with
  | read k => exact ⟨rfl, hSame⟩
  | materialize typeName handles =>
    obtain ⟨rest, hRun, hRest⟩ := materialize_of_alike handles hSame typeName i
    simp only [perform, Use.perform, hRun]
    exact ⟨rfl, hRest⟩
  | resolve typeName names handles =>
    obtain ⟨rest, hRun, hRest⟩ := resolveAndMaterialize_of_alike names handles hSame i
    simp only [perform, Use.perform, hRun]
    exact ⟨rfl, hRest⟩
  | @getObject m n typeName c entries =>
    cases hNull : c.isNull with
    | true =>
      simp only [perform, getObject_of_isNull hNull]
      exact ⟨rfl, hSame⟩
    | false =>
      -- The relation is about two look-ups, which need names for its cases.
      generalize hm : m.get? typeName = entry at entries
      generalize hn : n.get? typeName = other at entries
      cases entries with
      | none =>
        obtain ⟨v, hValue⟩ := Cell.exists_value hNull
        simp only [perform, getObject_of_unmapped hm hValue, getObject_of_unmapped hn hValue]
        exact ⟨rfl, hSame⟩
      | some handles =>
        obtain ⟨rest, hRun, hRest⟩ := materialize_of_alike handles hSame typeName (.ofCell c)
        simp only [perform, getObject_of_registered hNull hm, getObject_of_registered hNull hn, hRun]
        exact ⟨rfl, hRest⟩
  | @materializeAs m n target typeName h g c names handles =>
    have hOther := (handles.produces_eq target).symm
    cases hProduces : h.produces target with
    | false =>
      rw [hProduces] at hOther
      simp only [perform, materializeAs_of_refused hProduces, materializeAs_of_refused hOther,
        handles.refusal_eq]
      exact ⟨rfl, hSame⟩
    | true =>
      rw [hProduces] at hOther
      cases hNull : c.isNull with
      | true =>
        simp only [perform, materializeAs_of_produces_isNull hProduces hNull,
          materializeAs_of_produces_isNull hOther hNull]
        exact ⟨rfl, hSame⟩
      | false =>
        obtain ⟨rest, hRun, hRest⟩ := resolveAndMaterialize_of_alike names handles hSame (.ofCell c)
        simp only [perform, materializeAs_of_produces hProduces hNull,
          materializeAs_of_produces hOther hNull, hRun]
        exact ⟨rfl, hRest⟩

/-- Runs of alike calls from related supplies cannot be told apart. -/
theorem trace_of_alike {calls : List (Call τ σ)} {others : List (Call τ σ')}
    (hAlike : List.Forall₂ (Call.Alike same) calls others) (hSame : same a b) (i : Input) :
    (trace calls i a).map Performed.shown = (trace others i b).map Performed.shown ∧
      (after calls i a).1 = (after others i b).1 := by
  -- A call leaves related supplies and the same input, so both vary in the induction.
  induction hAlike generalizing i a b with
  | nil => exact ⟨rfl, rfl⟩
  | @cons c d rest others hCall _ ih =>
    obtain ⟨hShown, hSupply⟩ := perform_of_alike hCall hSame i
    have hInput : (c.perform i a).input = (d.perform i b).input := congrArg (·.2.1) hShown
    obtain ⟨hTrace, hAfter⟩ := ih hSupply (c.perform i a).input
    rw [hInput] at hTrace hAfter
    constructor
    · simp only [trace, List.map_cons, hShown, hInput, hTrace]
    · simp only [after, hInput, hAfter]

end Call

/-! ## Factories that write down their runs -/

/-- Behind the supply, the handles whose factories have run, the last one at the end. -/
abbrev Tallied (τ σ : Type) [Catalog τ] : Type := σ × List (Handle τ σ)

def Handle.tallied : Handle τ σ → Handle τ (Tallied τ σ)
  | scalar t factory =>
    scalar t fun tally =>
      let (product, rest) := factory tally.1
      (product, rest, tally.2 ++ [scalar t factory])
  | structured name => structured name

def TypeMap.tallied (m : TypeMap τ σ) : TypeMap τ (Tallied τ σ) :=
  ⟨m.toList.map fun entry => (entry.1, entry.2.tallied)⟩

def Call.tallied : Call τ σ → Call τ (Tallied τ σ)
  | use (.read k) => use (.read k)
  | use (.materialize typeName h) => use (.materialize typeName h.tallied)
  | use (.resolve m typeName h) => use (.resolve m.tallied typeName h.tallied)
  | getObject m typeName c => getObject m.tallied typeName c
  | materializeAs m target typeName h c => materializeAs m.tallied target typeName h.tallied c

theorem Handle.alike_tallied (h : Handle τ σ) :
    h.Alike (fun supply tally => supply = tally.1) h.tallied := by
  cases h with
  | structured name => exact .structured name
  | scalar t factory =>
    refine .scalar t ?_
    rintro a b rfl
    exact ⟨rfl, rfl⟩

theorem TypeMap.get?_tallied (m : TypeMap τ σ) (name : String) :
    m.tallied.get? name = (m.get? name).map Handle.tallied := by
  simp only [TypeMap.get?, TypeMap.tallied]
  induction m.toList with
  | nil => rfl
  | cons entry rest ih =>
    rw [List.map_cons, List.lookup_cons, List.lookup_cons, ih]
    split <;> rfl

namespace Call

theorem alike_tallied (c : Call τ σ) : c.Alike (fun supply tally => supply = tally.1) c.tallied := by
  have hNames (m : TypeMap τ σ) (typeName : String) :
      (m.get? typeName).map Handle.name = (m.tallied.get? typeName).map Handle.name := by
    rw [m.get?_tallied]
    cases m.get? typeName with
    | none => rfl
    | some h => exact congrArg some h.alike_tallied.name_eq
  cases c with
  | use u =>
    cases u with
    | read k => exact .read k
    | materialize typeName h => exact .materialize typeName h.alike_tallied
    | resolve m typeName h => exact .resolve typeName (hNames m typeName) h.alike_tallied
  | getObject m typeName c =>
    refine .getObject typeName c ?_
    rw [m.get?_tallied]
    cases m.get? typeName with
    | none => exact .none
    | some h => exact .some h.alike_tallied
  | materializeAs m target typeName h c =>
    exact .materializeAs target typeName c (hNames m typeName) h.alike_tallied

variable [DecidableEq τ]

theorem plays_tallied (c : Call τ σ) : c.tallied.plays = c.plays.map Handle.tallied := by
  cases c with
  | use u => cases u <;> rfl
  | getObject m typeName c =>
    simp only [tallied, plays, m.get?_tallied]
    split <;> rfl
  | materializeAs m target typeName h c =>
    simp only [tallied, plays, ← h.alike_tallied.produces_eq]
    split <;> rfl

/-- The step: one call writes down what it makes. -/
theorem perform_tallied_supply (c : Call τ σ) (i : Input) (supply : σ) (runs : List (Handle τ σ)) :
    (c.tallied.perform i (supply, runs)).supply = ((c.perform i supply).supply, runs ++ c.made) := by
  rw [perform_supply, perform_supply, plays_tallied, made]
  cases c.plays with
  | none => simp
  | some h =>
    cases h with
    | structured name => simp [Handle.tallied, Handle.rest, Handle.isSqlData]
    | scalar t factory => rfl

theorem trace_tallied (calls : List (Call τ σ)) (i : Input) (supply : σ)
    (runs : List (Handle τ σ)) :
    (trace (calls.map tallied) i (supply, runs)).map Performed.shown =
      (trace calls i supply).map Performed.shown := by
  have hAlike : List.Forall₂ (Call.Alike fun supply tally => supply = tally.1) calls
      (calls.map tallied) :=
    List.forall₂_map_right_iff.mpr (List.forall₂_same.mpr fun c _ => c.alike_tallied)
  exact (trace_of_alike hAlike rfl i).1.symm

theorem after_tallied (calls : List (Call τ σ)) (i : Input) (supply : σ)
    (runs : List (Handle τ σ)) :
    after (calls.map tallied) i (supply, runs) =
      ((after calls i supply).1, (after calls i supply).2, runs ++ calls.flatMap made) := by
  induction calls generalizing i supply runs with
  | nil => simp [after]
  | cons c rest ih =>
    have hPerform := perform_of_alike (b := (supply, runs)) c.alike_tallied rfl i
    have hInput : (c.perform i supply).input = (c.tallied.perform i (supply, runs)).input :=
      congrArg (·.2.1) hPerform.shown
    simp only [List.map_cons, after, ← hInput, perform_tallied_supply, ih, List.flatMap_cons,
      List.append_assoc]

/-! ## Which calls make something -/

theorem made_materialize (typeName : String) (h : Handle τ σ) :
    (use (.materialize typeName h)).made = if h.isSqlData then [h] else [] := by
  cases h <;> rfl

theorem made_resolve (m : TypeMap τ σ) (typeName : String) (h : Handle τ σ) :
    (use (.resolve m typeName h)).made = if h.isSqlData then [h] else [] := by
  cases h <;> rfl

/-- The results of `getObject` that need no instance. -/
inductive MappedSpared (m : TypeMap τ σ) (typeName : String) : Except Error (Mapped τ) → Prop where
  | null : MappedSpared m typeName (.ok .null)
  | base (v : Scalar) : MappedSpared m typeName (.ok (.base v))
  | structured {name : String} (entry : m.get? typeName = some (.structured name)) :
    MappedSpared m typeName (.error (.notSqlData name))

/-- The results of `materializeAs` that need no instance. -/
inductive AskedSpared (t : τ) (h : Handle τ σ) :
    Except Error (Option (Catalog.Instance t)) → Prop where
  | null : AskedSpared t h (.ok none)
  | structured (refused : h.isSqlData = false) : AskedSpared t h (.error (.notSqlData h.name))
  | mismatch (isSqlData : h.isSqlData = true) (refused : h.produces t = false) :
    AskedSpared t h (.error (.typeMismatch (Catalog.name t) h.name))

/-- A column that the type map is applied to makes one instance, by the registered handle, unless it
is NULL, nothing is registered, or what is registered cannot be read from one attribute. -/
theorem made_getObject (m : TypeMap τ σ) (typeName : String) (c : Cell) (supply : σ) :
    let result := (ScalarCell.getObject m typeName c supply).result
    let made := (getObject m typeName c).made
    (MappedSpared m typeName result ∧ made = []) ∨
      (¬MappedSpared m typeName result ∧ ∃ h, m.get? typeName = some h ∧ made = [h]) := by
  intro result made
  cases hNull : c.isNull with
  | true =>
    have hMade : made = [] := by simp [made, Call.made, plays, hNull]
    have hResult : result = .ok .null := by simp only [result, getObject_of_isNull hNull]
    exact Or.inl ⟨hResult ▸ .null, hMade⟩
  | false =>
    cases hMap : m.get? typeName with
    | none =>
      obtain ⟨v, hValue⟩ := Cell.exists_value hNull
      have hMade : made = [] := by simp [made, Call.made, plays, hNull, hMap]
      have hResult : result = .ok (.base v) := by
        simp only [result, getObject_of_unmapped hMap hValue]
      exact Or.inl ⟨hResult ▸ .base v, hMade⟩
    | some h =>
      have hResult : result = (materialize typeName h (.ofCell c) supply).result.map .custom := by
        simp only [result, getObject_of_registered hNull hMap]
      cases h with
      | structured name =>
        have hMade : made = [] := by simp [made, Call.made, plays, hNull, hMap, Handle.isSqlData]
        exact Or.inl ⟨hResult ▸ .structured hMap, hMade⟩
      | scalar t factory =>
        have hMade : made = [.scalar t factory] := by
          simp [made, Call.made, plays, hNull, hMap, Handle.isSqlData]
        refine Or.inr ⟨?_, _, rfl, hMade⟩
        rw [hResult]
        intro hSpared
        -- An object is neither NULL nor a decoded value, and the entry is not a structured one.
        cases hRun : (materialize typeName (.scalar t factory) (.ofCell c) supply).result with
        | ok o =>
          rw [hRun] at hSpared
          cases hSpared
        | error e =>
          rw [hRun] at hSpared
          cases hSpared with
          | structured hEntry => cases hMap.symm.trans hEntry

/-- A column that is read as a type asked for makes one instance, by the requested handle, unless the
handle is refused or the column is NULL. -/
theorem made_materializeAs (m : TypeMap τ σ) (t : τ) (typeName : String) (h : Handle τ σ) (c : Cell)
    (supply : σ) :
    let result := (ScalarCell.materializeAs m t typeName h c supply).result
    let made := (materializeAs m t typeName h c).made
    (AskedSpared t h result ∧ made = []) ∨ (¬AskedSpared t h result ∧ made = [h]) := by
  intro result made
  cases hProduces : h.produces t with
  | false =>
    have hMade : made = [] := by simp [made, Call.made, plays, hProduces]
    have hResult : result = .error (h.refusal t) := by
      simp only [result, materializeAs_of_refused hProduces]
    refine Or.inl ⟨?_, hMade⟩
    rw [hResult, Handle.refusal]
    cases hSqlData : h.isSqlData with
    | false => exact .structured hSqlData
    | true => exact .mismatch hSqlData hProduces
  | true =>
    have hSqlData := isSqlData_of_produces hProduces
    cases hNull : c.isNull with
    | true =>
      have hMade : made = [] := by simp [made, Call.made, plays, hProduces, hNull]
      have hResult : result = .ok none := by
        simp only [result, materializeAs_of_produces_isNull hProduces hNull]
      exact Or.inl ⟨hResult ▸ .null, hMade⟩
    | false =>
      have hMade : made = [h] := by simp [made, Call.made, plays, hProduces, hNull, hSqlData]
      refine Or.inr ⟨?_, hMade⟩
      intro hSpared
      generalize hResult : result = r at hSpared
      cases hSpared with
      | null => exact materializeAs_ne_none hNull m t typeName h supply hResult
      | structured hRefused => cases hSqlData.symm.trans hRefused
      | mismatch _ hRefused => cases hProduces.symm.trans hRefused

end Call

end ScalarCell
