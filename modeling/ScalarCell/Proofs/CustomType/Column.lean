import ScalarCell.CustomType.Column
import ScalarCell.CustomType.Sample
import ScalarCell.Proofs.Reads.SingleRead

/-!
# NULL and the two ways to read a column

`getObject` and `materializeAs` both look for NULL before anything is made, and otherwise both answer
as `materialize` does on a fresh input (`getObject_of_registered`, `materializeAs_of_produces`).

* `null_tracked`: NULL is seen as NULL, and nothing else is, in every kind of reading, by a custom
  type that reads the cell, and in both ways to read a column.
* `materialize_produces`: a handle yields instances of its own type only, so none of them is refused
  for its type at the end of `materializeAs`.
* `columns_agree`: where a handle is registered, asking for its type gives what the type map gives.
-/

namespace ScalarCell

/-! ## NULL in a cell -/

theorem Cell.exists_value {c : Cell} (h : c.isNull = false) : ∃ v, c.value = some v :=
  Option.isSome_iff_exists.mp (Option.isNone_eq_false_iff.mp h)

theorem Input.read_of_isNull {i : Input} (hUnread : i.state = .unread)
    (hNull : i.cell.isNull = true) (k : Kind) :
    i.read k =
      (.ok k.deliveredNull, { i with state := .done true, attempts := i.attempts + 1 }) := by
  rw [Input.read_of_unread hUnread, Cell.firstReply_of_isNull hNull, Cell.settledState,
    Cell.get_of_isNull hNull, hNull]

variable {τ σ : Type} [Catalog τ]

/-! ## What a handle yields -/

theorem verdict_yields {t : τ} {outcome : Except Error (Catalog.Instance t)} {after : Input}
    {o : Object τ} (h : verdict t outcome after = .ok o) : ∃ v, o = ⟨t, v⟩ := by
  unfold verdict at h
  split at h
  · cases h
  · cases outcome with
    | error e => cases h
    | ok v =>
      dsimp only at h
      split at h
      · cases h
        exact ⟨v, rfl⟩
      · cases h

section

variable [DecidableEq τ]

theorem exists_scalar_of_produces {h : Handle τ σ} {t : τ} (hProduces : h.produces t = true) :
    ∃ factory, h = .scalar t factory := by
  cases h with
  | structured name => cases hProduces
  | scalar u factory =>
    obtain rfl := of_decide_eq_true hProduces
    exact ⟨factory, rfl⟩

theorem isSqlData_of_produces {h : Handle τ σ} {t : τ} (hProduces : h.produces t = true) :
    h.isSqlData = true := by
  obtain ⟨factory, rfl⟩ := exists_scalar_of_produces hProduces
  rfl

/-- Every instance has the type that its handle goes by, whatever the factory and the body do. -/
theorem materialize_produces {h : Handle τ σ} {t : τ} (hProduces : h.produces t = true)
    {typeName : String} {i : Input} {supply : σ} {o : Object τ}
    (hOk : (materialize typeName h i supply).result = .ok o) : ∃ v, o = ⟨t, v⟩ := by
  obtain ⟨factory, rfl⟩ := exists_scalar_of_produces hProduces
  cases hMade : (factory supply).1 with
  | error cause =>
    rw [materialize_of_cause hMade] at hOk
    cases hOk
  | ok fresh =>
    rw [materialize_of_fresh hMade] at hOk
    exact verdict_yields hOk

theorem downcast_mk (t : τ) (v : Catalog.Instance t) : (⟨t, v⟩ : Object τ).downcast t = .ok v := by
  simp [Object.downcast, Object.downcast?]

end

/-! ## The two ways -/

variable {m : TypeMap τ σ} {typeName : String} {c : Cell}

theorem getObject_of_isNull (hNull : c.isNull = true) (m : TypeMap τ σ) (typeName : String)
    (supply : σ) : getObject m typeName c supply = ⟨.ok .null, supply, []⟩ := by
  have hValue : c.value = none := Option.isNone_iff_eq_none.mp hNull
  rw [getObject, hValue]

theorem getObject_of_registered {h : Handle τ σ} (hNull : c.isNull = false)
    (hMap : m.get? typeName = some h) (supply : σ) :
    let run := materialize typeName h (.ofCell c) supply
    getObject m typeName c supply = ⟨run.result.map .custom, run.supply, run.log⟩ := by
  obtain ⟨v, hValue⟩ := Cell.exists_value hNull
  simp only [getObject, hValue, hMap]

theorem getObject_ne_null (hNull : c.isNull = false) (m : TypeMap τ σ) (typeName : String)
    (supply : σ) : (getObject m typeName c supply).result ≠ .ok .null := by
  cases hMap : m.get? typeName with
  | none =>
    obtain ⟨v, hValue⟩ := Cell.exists_value hNull
    simp [getObject, hValue, hMap]
  | some h =>
    rw [getObject_of_registered hNull hMap]
    cases (materialize typeName h (.ofCell c) supply).result <;> exact nofun

section

variable [DecidableEq τ] {t : τ} {h : Handle τ σ}

theorem materializeAs_of_produces_isNull (hProduces : h.produces t = true)
    (hNull : c.isNull = true) (m : TypeMap τ σ) (typeName : String) (supply : σ) :
    materializeAs m t typeName h c supply = ⟨.ok none, supply, []⟩ := by
  simp [materializeAs, isSqlData_of_produces hProduces, hProduces, hNull]

theorem materializeAs_of_produces (hProduces : h.produces t = true) (hNull : c.isNull = false)
    (m : TypeMap τ σ) (typeName : String) (supply : σ) :
    let run := resolveAndMaterialize m typeName h (.ofCell c) supply
    materializeAs m t typeName h c supply =
      ⟨run.result.bind fun o => (o.downcast t).map some, run.supply, run.log⟩ := by
  simp [materializeAs, isSqlData_of_produces hProduces, hProduces, hNull]

theorem materializeAs_ne_none (hNull : c.isNull = false) (m : TypeMap τ σ) (t : τ)
    (typeName : String) (h : Handle τ σ) (supply : σ) :
    (materializeAs m t typeName h c supply).result ≠ .ok none := by
  cases hProduces : h.produces t with
  | false =>
    unfold materializeAs
    split
    · exact nofun
    · simp [hProduces]
  | true =>
    rw [materializeAs_of_produces hProduces hNull]
    cases (resolveAndMaterialize m typeName h (.ofCell c) supply).result with
    | error e => exact nofun
    | ok o =>
      cases hDowncast : o.downcast t <;> simp [Except.bind, Except.map, hDowncast]

end

/-- NULL is seen as NULL, and nothing else is, wherever a cell is read. -/
theorem null_tracked (reported : Oid) (value : Option Scalar) (config : Config) :
    let c : Cell := ⟨reported, value, config⟩
    (∀ (k : Kind) (r : Nullable k.Carrier), c.get k = .ok r → (r.isNull = true ↔ value = none)) ∧
      (value = none →
        (∀ k, ∃ d, c.get k = .ok ⟨d, true⟩ ∧ k.IsDefault d) ∧
          (∀ k, (Input.ofCell c).read k = (.ok k.deliveredNull, ⟨c, .done true, 1⟩)) ∧
          ∀ {τ σ : Type} [Catalog τ] [DecidableEq τ] (m : TypeMap τ σ) (typeName : String)
            (supply : σ),
            getObject m typeName c supply = ⟨.ok .null, supply, []⟩ ∧
              ∀ (t : τ) (h : Handle τ σ), h.produces t = true →
                materializeAs m t typeName h c supply = ⟨.ok none, supply, []⟩) ∧
      (value ≠ none →
        ∀ {τ σ : Type} [Catalog τ] [DecidableEq τ] (m : TypeMap τ σ) (typeName : String)
          (supply : σ),
          (getObject m typeName c supply).result ≠ .ok .null ∧
            ∀ (t : τ) (h : Handle τ σ),
              (materializeAs m t typeName h c supply).result ≠ .ok none) := by
  intro c
  refine ⟨?_, ?_, ?_⟩
  · intro k r hGet
    rw [Cell.isNull_of_get hGet]
    exact Option.isNone_iff_eq_none
  · rintro rfl
    have hNull : c.isNull = true := rfl
    refine ⟨fun k => ⟨k.default, Cell.get_of_isNull hNull k, k.isDefault_default⟩,
      Input.read_of_isNull rfl hNull, ?_⟩
    intro τ σ _ _ m typeName supply
    refine ⟨getObject_of_isNull hNull m typeName supply, ?_⟩
    intro t h hProduces
    exact materializeAs_of_produces_isNull hProduces hNull m typeName supply
  · intro hValue τ σ _ _ m typeName supply
    have hNull : c.isNull = false :=
      Option.isNone_eq_false_iff.mpr (Option.isSome_iff_ne_none.mpr hValue)
    refine ⟨getObject_ne_null hNull m typeName supply, ?_⟩
    intro t h
    exact materializeAs_ne_none hNull m t typeName h supply

theorem null_tracked_unknown_oid :
    let null : Cell := ⟨⟨16413⟩, none, .default⟩
    let cell : Cell := ⟨⟨16413⟩, some (.bool true), .default⟩
    let h : Handle Sample Nat :=
      .scalar .email (Sample.countingFactory "" none)
    let m : TypeMap Sample Nat := TypeMap.empty.insert "email" h
    cell.get .string = .ok ⟨"t", false⟩ ∧ (false = true ↔ cell.value = none) ∧
      (∃ x, null.get .double = .ok ⟨x, true⟩ ∧ Kind.IsDefault .double x) ∧
      getObject m "email" null 0 = ⟨.ok .null, 0, []⟩ ∧
      materializeAs m .email "email" h null 0 = ⟨.ok none, 0, []⟩ ∧
      (getObject m "email" cell 0).result ≠ .ok .null ∧
      (materializeAs m .email "email" h cell 0).result ≠ .ok none := by
  intro null cell h m
  obtain ⟨-, hNull, -⟩ := null_tracked ⟨16413⟩ none .default
  obtain ⟨hDefaults, -, hColumns⟩ := hNull rfl
  obtain ⟨hMapped, hAsked⟩ := hColumns m "email" 0
  obtain ⟨hFlag, -, hCell⟩ := null_tracked ⟨16413⟩ (some (.bool true)) .default
  obtain ⟨hCellMapped, hCellAsked⟩ := hCell nofun m "email" 0
  exact ⟨rfl, hFlag .string ⟨"t", false⟩ rfl, hDefaults .double, hMapped, hAsked .email h rfl,
    hCellMapped, hCellAsked .email h⟩

variable [DecidableEq τ] {t : τ} {h : Handle τ σ}

/-- Where the handle is registered, the type map and the caller who asks for its type get the same,
whatever map the caller brings. -/
theorem columns_agree (hMap : m.get? typeName = some h) (hProduces : h.produces t = true)
    (other : TypeMap τ σ) (c : Cell) (supply : σ) :
    let mapped := getObject m typeName c supply
    let asked := materializeAs other t typeName h c supply
    mapped.supply = asked.supply ∧
      ((mapped.result = .ok .null ∧ asked.result = .ok none) ∨
        (∃ e, mapped.result = .error e ∧ asked.result = .error e) ∨
        ∃ o v, mapped.result = .ok (.custom o) ∧ o.downcast t = .ok v ∧
          asked.result = .ok (some v)) ∧
      ∀ (i : Input) (rest : σ) (o : Object τ),
        (resolveAndMaterialize other typeName h i rest).result = .ok o →
          ∃ v, o.downcast t = .ok v := by
  intro mapped asked
  have hDowncast {i : Input} {rest : σ} {o : Object τ}
      (hOk : (materialize typeName h i rest).result = .ok o) : ∃ v, o.downcast t = .ok v := by
    obtain ⟨v, rfl⟩ := materialize_produces hProduces hOk
    exact ⟨v, downcast_mk t v⟩
  have hLast (i : Input) (rest : σ) (o : Object τ)
      (hOk : (resolveAndMaterialize other typeName h i rest).result = .ok o) :
      ∃ v, o.downcast t = .ok v := by
    rw [resolveAndMaterialize_result] at hOk
    exact hDowncast hOk
  cases hNull : c.isNull with
  | true =>
    have hMapped : mapped = ⟨.ok .null, supply, []⟩ := getObject_of_isNull hNull m typeName supply
    have hAsked : asked = ⟨.ok none, supply, []⟩ :=
      materializeAs_of_produces_isNull hProduces hNull other typeName supply
    rw [hMapped, hAsked]
    exact ⟨rfl, Or.inl ⟨rfl, rfl⟩, hLast⟩
  | false =>
    have hMapped := getObject_of_registered hNull hMap supply
    have hAsked := materializeAs_of_produces hProduces hNull other typeName supply
    simp only [resolveAndMaterialize_result, resolveAndMaterialize_supply] at hAsked
    simp only [mapped, asked, hMapped, hAsked]
    refine ⟨trivial, Or.inr ?_, hLast⟩
    cases hResult : (materialize typeName h (.ofCell c) supply).result with
    | error e => exact Or.inl ⟨e, rfl, rfl⟩
    | ok o =>
      obtain ⟨v, hv⟩ := hDowncast hResult
      refine Or.inr ⟨o, v, rfl, hv, ?_⟩
      simp only [Except.bind, hv, Except.map]

theorem columns_agree_email :
    let h : Handle Sample Nat := .scalar .email (Sample.countingFactory "" none)
    let m : TypeMap Sample Nat := TypeMap.empty.insert "email" h
    let c : Cell := ⟨.text, some (.text "a@b.com"), .default⟩
    let mapped := getObject m "email" c 0
    let asked := materializeAs .empty .email "email" h c 0
    mapped.supply = asked.supply ∧
      ((mapped.result = .ok .null ∧ asked.result = .ok none) ∨
        (∃ e, mapped.result = .error e ∧ asked.result = .error e) ∨
        ∃ o v, mapped.result = .ok (.custom o) ∧ o.downcast .email = .ok v ∧
          asked.result = .ok (some v)) := by
  intro h m c
  obtain ⟨hSupply, hSame, -⟩ :=
    columns_agree (t := .email) (TypeMap.get?_insert_self .empty "email" h) rfl .empty c 0
  exact ⟨hSupply, hSame⟩

end ScalarCell
