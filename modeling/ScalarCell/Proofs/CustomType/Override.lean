import ScalarCell.CustomType.Sample
import ScalarCell.Proofs.CustomType.Calls

/-!
# What a type map has a say in

On the way of a type that the caller asks for, a type map is only looked at to report that it names
another (`TypeMap.Renames`). `Call.plain` takes out of a call all that it does not need of its type
map: the whole map where a type is asked for, and all but one entry in `getObject`.

* `Call.perform_plain` is the step: a call and its plain form differ in their logs at most.
* `Call.log_perform` says what is in the log.
* `type_map_diagnostic` is about any two runs of calls that have the same plain form.
-/

namespace ScalarCell

variable {τ σ : Type} [Catalog τ]

/-- The entry for the type goes by another name than the handle. -/
def TypeMap.Renames (m : TypeMap τ σ) (typeName : String) (h : Handle τ σ) : Prop :=
  ∃ mapped, m.get? typeName = some mapped ∧ mapped.name ≠ h.name

/-- The map without the other entries. -/
def TypeMap.only (m : TypeMap τ σ) (typeName : String) : TypeMap τ σ :=
  match m.get? typeName with
  | some h => empty.insert typeName h
  | none => empty

theorem TypeMap.get?_only (m : TypeMap τ σ) (typeName : String) :
    (m.only typeName).get? typeName = m.get? typeName := by
  unfold only
  split
  · next h hMap => rw [get?_insert_self, hMap]
  · next hMap => exact hMap.symm

theorem log_overrides (m : TypeMap τ σ) (typeName : String) (h : Handle τ σ) :
    (m.Renames typeName h ∧ overrides m typeName h = [.mapOverride]) ∨
      (¬m.Renames typeName h ∧ overrides m typeName h = []) := by
  unfold overrides TypeMap.Renames
  cases m.get? typeName with
  | none => exact Or.inr ⟨nofun, rfl⟩
  | some mapped =>
    by_cases hName : mapped.name = h.name
    · refine Or.inr ⟨?_, if_pos hName⟩
      rintro ⟨other, hSome, hNe⟩
      cases hSome
      exact hNe hName
    · exact Or.inl ⟨⟨mapped, rfl, hName⟩, if_neg hName⟩

theorem materialize_log (typeName : String) (h : Handle τ σ) (i : Input) (supply : σ) :
    (materialize typeName h i supply).log = [] := by
  cases h with
  | structured name => rfl
  | scalar t factory =>
    cases hMade : (factory supply).1 with
    | error cause => rw [materialize_of_cause hMade]
    | ok fresh => rw [materialize_of_fresh hMade]

/-- The check that comes first in `resolveAndMaterialize` refuses only what would be refused. -/
theorem resolveAndMaterialize_eq (m : TypeMap τ σ) (typeName : String) (h : Handle τ σ) (i : Input)
    (supply : σ) :
    resolveAndMaterialize m typeName h i supply =
      { materialize typeName h i supply with
        log := if h.isSqlData then overrides m typeName h else [] } := by
  cases h with
  | structured name => rfl
  | scalar t factory =>
    simp only [resolveAndMaterialize, materialize_log, List.append_nil]
    rfl

/-- The same, but for the log. -/
def Performed.quiet (p : Performed τ σ) : Performed τ σ := { p with log := [] }

namespace Call

/-- The call without what it does not need of its type map. -/
def plain : Call τ σ → Call τ σ
  | use (.read k) => use (.read k)
  | use (.materialize typeName h) => use (.materialize typeName h)
  | use (.resolve _ typeName h) => use (.materialize typeName h)
  | getObject m typeName c => getObject (m.only typeName) typeName c
  | materializeAs _ target typeName h c => materializeAs .empty target typeName h c

variable [DecidableEq τ]

/-- The type map names another type than the one that is read. -/
def Overrides : Call τ σ → Prop
  | use (.resolve m typeName h) => h.isSqlData = true ∧ m.Renames typeName h
  | materializeAs m target typeName h c =>
    h.produces target = true ∧ c.isNull = false ∧ m.Renames typeName h
  | _ => False

end Call

theorem getObject_congr {m n : TypeMap τ σ} {typeName : String}
    (hEntry : m.get? typeName = n.get? typeName) (c : Cell) (supply : σ) :
    getObject m typeName c supply = getObject n typeName c supply := by
  simp only [getObject, hEntry]

theorem getObject_log (m : TypeMap τ σ) (typeName : String) (c : Cell) (supply : σ) :
    (getObject m typeName c supply).log = [] := by
  unfold getObject
  split
  · rfl
  · split
    · exact materialize_log _ _ _ _
    · rfl

theorem materializeAs_eq [DecidableEq τ] (m : TypeMap τ σ) (t : τ) (typeName : String)
    (h : Handle τ σ) (c : Cell) (supply : σ) :
    materializeAs m t typeName h c supply =
      { materializeAs .empty t typeName h c supply with
        log := if h.produces t && !c.isNull then overrides m typeName h else [] } := by
  cases hProduces : h.produces t with
  | false => simp [materializeAs_of_refused hProduces]
  | true =>
    cases hNull : c.isNull with
    | true => simp [materializeAs_of_produces_isNull hProduces hNull]
    | false =>
      simp [materializeAs_of_produces hProduces hNull, resolveAndMaterialize_eq,
        isSqlData_of_produces hProduces]

namespace Call

variable [DecidableEq τ]

theorem perform_plain (c : Call τ σ) (i : Input) (supply : σ) :
    (c.plain.perform i supply).quiet = (c.perform i supply).quiet := by
  cases c with
  | use u =>
    cases u with
    | read k => rfl
    | materialize typeName h => rfl
    | resolve m typeName h =>
      simp only [plain, perform, Use.perform, resolveAndMaterialize_eq]
      rfl
  | getObject m typeName c =>
    simp only [plain, perform, getObject_congr (m.get?_only typeName)]
  | materializeAs m target typeName h c =>
    simp only [plain, perform]
    rw [materializeAs_eq m]
    rfl

/-- A plain call leaves what the call leaves, and differs in the log at most; so does a run. -/
theorem trace_plain (calls : List (Call τ σ)) (i : Input) (supply : σ) :
    (trace (calls.map plain) i supply).map Performed.quiet =
        (trace calls i supply).map Performed.quiet ∧
      after (calls.map plain) i supply = after calls i supply := by
  induction calls generalizing i supply with
  | nil => exact ⟨rfl, rfl⟩
  | cons c rest ih =>
    have hPlain := perform_plain c i supply
    have hInput : (c.plain.perform i supply).input = (c.perform i supply).input :=
      (congrArg Performed.input hPlain :)
    have hSupply : (c.plain.perform i supply).supply = (c.perform i supply).supply :=
      (congrArg Performed.supply hPlain :)
    obtain ⟨hTrace, hAfter⟩ := ih (c.perform i supply).input (c.perform i supply).supply
    simp only [List.map_cons, trace, after, hPlain, hInput, hSupply, hTrace, hAfter, and_self]

theorem log_perform (c : Call τ σ) (i : Input) (supply : σ) :
    (c.Overrides ∧ (c.perform i supply).log = [.mapOverride]) ∨
      (¬c.Overrides ∧ (c.perform i supply).log = []) := by
  cases c with
  | use u =>
    cases u with
    | read k => exact Or.inr ⟨id, rfl⟩
    | materialize typeName h => exact Or.inr ⟨id, materialize_log typeName h i supply⟩
    | resolve m typeName h =>
      simp only [perform, Use.perform, Run.performed, resolveAndMaterialize_eq, Overrides]
      cases h.isSqlData with
      | false => exact Or.inr ⟨fun hOver => Bool.false_ne_true hOver.1, rfl⟩
      | true => simpa using log_overrides m typeName h
  | getObject m typeName c => exact Or.inr ⟨id, getObject_log m typeName c supply⟩
  | materializeAs m target typeName h c =>
    simp only [perform, Overrides]
    rw [materializeAs_eq m]
    cases h.produces target with
    | false => exact Or.inr ⟨fun hOver => Bool.false_ne_true hOver.1, rfl⟩
    | true =>
      cases c.isNull with
      | true => exact Or.inr ⟨fun hOver => Bool.false_ne_true hOver.2.1.symm, rfl⟩
      | false => simpa using log_overrides m typeName h

end Call

/-- Where a type is asked for, any two type maps give the same, and the same as none, but for one
line in the log. Where the type map decides, it does by the one entry under the name of the type. So
runs of calls that have the same plain form differ in their logs at most. -/
theorem type_map_diagnostic [DecidableEq τ] :
    (∀ (m n : TypeMap τ σ) (typeName : String) (h : Handle τ σ) (i : Input) (supply : σ),
        let run := resolveAndMaterialize m typeName h i supply
        { run with log := [] } = materialize typeName h i supply ∧
          { run with log := [] } =
            { resolveAndMaterialize n typeName h i supply with log := [] }) ∧
      (∀ (m n : TypeMap τ σ) (t : τ) (typeName : String) (h : Handle τ σ) (c : Cell) (supply : σ),
        let asked := materializeAs m t typeName h c supply
        { asked with log := [] } = { materializeAs n t typeName h c supply with log := [] }) ∧
      (∀ (m n : TypeMap τ σ) (typeName : String), m.get? typeName = n.get? typeName →
        ∀ (c : Cell) (supply : σ),
          getObject m typeName c supply = getObject n typeName c supply) ∧
      (∀ (c : Call τ σ) (i : Input) (supply : σ),
        (c.Overrides ∧ (c.perform i supply).log = [.mapOverride]) ∨
          (¬c.Overrides ∧ (c.perform i supply).log = [])) ∧
      ∀ calls others : List (Call τ σ), calls.map Call.plain = others.map Call.plain →
        ∀ (i : Input) (supply : σ),
          (Call.trace calls i supply).map Performed.quiet =
              (Call.trace others i supply).map Performed.quiet ∧
            Call.after calls i supply = Call.after others i supply := by
  have hResolve (m : TypeMap τ σ) (typeName : String) (h : Handle τ σ) (i : Input) (supply : σ) :
      { resolveAndMaterialize m typeName h i supply with log := [] } =
        materialize typeName h i supply := by
    rw [resolveAndMaterialize_eq, ← materialize_log typeName h i supply]
  refine ⟨?_, ?_, ?_, Call.log_perform, ?_⟩
  · intro m n typeName h i supply run
    exact ⟨hResolve m typeName h i supply,
      (hResolve m typeName h i supply).trans (hResolve n typeName h i supply).symm⟩
  · intro m n t typeName h c supply asked
    simp only [asked]
    rw [materializeAs_eq m, materializeAs_eq n]
  · intro m n typeName hEntry c supply
    exact getObject_congr hEntry c supply
  · intro calls others hPlain i supply
    -- Each run against its plain form, which both have in common.
    obtain ⟨hTrace, hAfter⟩ := Call.trace_plain calls i supply
    obtain ⟨hOther, hLeft⟩ := Call.trace_plain others i supply
    rw [hPlain] at hTrace hAfter
    exact ⟨hTrace.symm.trans hOther, hAfter.symm.trans hLeft⟩

/-- A map with another type under the name, and one that has the type itself and others besides. -/
theorem type_map_diagnostic_at_email :
    let c : Cell := ⟨.text, some (.text "a@b.com"), .default⟩
    let i := Input.ofCell c
    let email : Handle Sample Nat := .scalar .email (Sample.countingFactory "" none)
    let pair : Handle Sample Nat := .structured "app::Pair"
    let m : TypeMap Sample Nat := TypeMap.empty.insert "email" pair
    let n : TypeMap Sample Nat := (TypeMap.empty.insert "pair" pair).insert "email" email
    let calls : List (Call Sample Nat) := [.use (.resolve m "email" email),
      .getObject (n.only "email") "email" c, .materializeAs m .email "email" email c]
    let others : List (Call Sample Nat) := [.use (.materialize "email" email),
      .getObject n "email" c, .materializeAs n .email "email" email c]
    (n.only "email").get? "email" = n.get? "email" ∧
      getObject (n.only "email") "email" c 0 = getObject n "email" c 0 ∧
      calls.map Call.plain = others.map Call.plain ∧
      (Call.trace calls i 0).map Performed.quiet = (Call.trace others i 0).map Performed.quiet ∧
      Call.after calls i 0 = Call.after others i 0 ∧
      (Call.trace calls i 0).map Performed.log = [[.mapOverride], [], [.mapOverride]] ∧
      (Call.trace others i 0).map Performed.log = [[], [], []] := by
  intro c i email pair m n calls others
  obtain ⟨-, -, hColumn, -, hRuns⟩ := type_map_diagnostic (τ := Sample) (σ := Nat)
  have hEntry := n.get?_only "email"
  have hPlain : calls.map Call.plain = others.map Call.plain := rfl
  obtain ⟨hTrace, hAfter⟩ := hRuns calls others hPlain i 0
  exact ⟨hEntry, hColumn _ _ _ hEntry c 0, hPlain, hTrace, hAfter, rfl, rfl⟩

end ScalarCell
