import ScalarCell.CustomType.Sample
import ScalarCell.Proofs.Reads.SingleRead

/-!
# When a call yields an object

What `materialize` answers, told by the reads that its body issues.

* `SingleRead.verdict_eq_ok_iff` and its companions are about the verdict over an input with any
  readings behind it.
* `materialize_ofCell` is the complete answer on a fresh input, with the order in which the causes
  of a failure count.
* `materialize_own_read_iff` is about an input with any history. The verdict counts all readings of
  the input, not those of the call. So it also passes a body that reads nothing, if the one read
  before the call succeeded (`object_without_own_read`).
-/

namespace ScalarCell

/-- The readings are one, and it delivered a value. -/
def ReadOnce (readings : List Reading) : Prop := ∃ r, readings = [r] ∧ r.Succeeded

theorem readOnce_iff {readings : List Reading} :
    ReadOnce readings ↔ readings.length = 1 ∧ ∃ r ∈ readings, r.Succeeded := by
  constructor
  · rintro ⟨r, rfl, hOk⟩
    exact ⟨rfl, r, List.mem_singleton_self r, hOk⟩
  · rintro ⟨hLength, r, hMem, hOk⟩
    obtain ⟨s, rfl⟩ := List.length_eq_one_iff.mp hLength
    rw [List.mem_singleton.mp hMem] at hOk
    exact ⟨s, rfl, hOk⟩

theorem not_readOnce_nil : ¬ReadOnce [] := by
  rintro ⟨r, hNil, -⟩
  cases hNil

theorem readOnce_append_iff {before now : List Reading} :
    ReadOnce (before ++ now) ↔
      (before = [] ∧ ReadOnce now) ∨ (ReadOnce before ∧ now = []) := by
  constructor
  · rintro ⟨r, hAppend, hOk⟩
    rcases List.append_eq_singleton_iff.mp hAppend with ⟨hBefore, hNow⟩ | ⟨hBefore, hNow⟩
    · exact Or.inl ⟨hBefore, r, hNow, hOk⟩
    · exact Or.inr ⟨⟨r, hBefore, hOk⟩, hNow⟩
  · rintro (⟨rfl, hNow⟩ | ⟨hBefore, rfl⟩)
    · exact hNow
    · rwa [List.append_nil]

/-- No read, or one that failed. -/
theorem unread_of_missing {readings : List Reading}
    (h : readings = [] ∨ ∃ r e, readings = [r] ∧ r.reply = .error e) :
    readings.length ≤ 1 ∧ ¬∃ r ∈ readings, r.Succeeded := by
  rcases h with rfl | ⟨r, e, rfl, hReply⟩
  · exact ⟨Nat.zero_le 1, fun ⟨_, hMem, _⟩ => by cases hMem⟩
  · refine ⟨Nat.le_refl 1, ?_⟩
    rintro ⟨s, hMem, v, hv⟩
    obtain rfl := List.mem_singleton.mp hMem
    rw [hReply] at hv
    cases hv

variable {τ σ : Type} [Catalog τ]

/-! ## The verdict -/

namespace SingleRead

variable {c : Cell} {past : List Reading} {after : Input} {t : τ}

theorem verdict_of_two_le (h : SingleRead c past after) (hTwo : 2 ≤ past.length)
    (outcome : Except Error (Catalog.Instance t)) :
    verdict t outcome after = .error (.multipleAttributes past.length) := by
  unfold verdict
  rw [h.attempts, if_pos (by omega)]

theorem verdict_of_error (h : SingleRead c past after) (hOne : past.length ≤ 1) (e : Error) :
    verdict t (.error e) after = .error e := by
  rw [verdict, h.attempts, if_neg (by omega)]

theorem verdict_of_ok (h : SingleRead c past after) (hOne : past.length ≤ 1)
    (v : Catalog.Instance t) :
    verdict t (.ok v) after =
      if after.state.isDone then .ok ⟨t, v⟩ else .error (.noAttributesRead (Catalog.name t)) := by
  rw [verdict, h.attempts, if_neg (by omega)]

theorem verdict_of_unread (h : SingleRead c past after) (hOne : past.length ≤ 1)
    (hUnread : ¬∃ r ∈ past, r.Succeeded) (v : Catalog.Instance t) :
    verdict t (.ok v) after = .error (.noAttributesRead (Catalog.name t)) := by
  rw [h.verdict_of_ok hOne, if_neg (mt h.isDone_iff.mp hUnread)]

theorem verdict_eq_ok_iff (h : SingleRead c past after)
    {outcome : Except Error (Catalog.Instance t)} {o : Object τ} :
    verdict t outcome after = .ok o ↔ ReadOnce past ∧ ∃ v, outcome = .ok v ∧ o = ⟨t, v⟩ := by
  rcases Nat.lt_or_ge 1 past.length with hTwo | hOne
  · rw [h.verdict_of_two_le hTwo, readOnce_iff]
    exact ⟨nofun, fun ⟨⟨hLength, _⟩, _⟩ => absurd hLength (by omega)⟩
  · cases outcome with
    | error e =>
      rw [h.verdict_of_error hOne]
      exact ⟨nofun, fun ⟨_, _, hOk, _⟩ => by cases hOk⟩
    | ok v =>
      by_cases hRead : ∃ r ∈ past, r.Succeeded
      · have hOnce : ReadOnce past := by
          obtain ⟨r, hMem, hOk⟩ := hRead
          have hPos := List.length_pos_of_mem hMem
          exact readOnce_iff.mpr ⟨by omega, r, hMem, hOk⟩
        rw [h.verdict_of_ok hOne, if_pos (h.isDone_iff.mpr hRead)]
        constructor
        · intro hOk
          cases hOk
          exact ⟨hOnce, v, rfl, rfl⟩
        · rintro ⟨-, w, hw, rfl⟩
          cases hw
          rfl
      · rw [h.verdict_of_unread hOne hRead]
        exact ⟨nofun, fun ⟨hOnce, _⟩ => absurd (readOnce_iff.mp hOnce).2 hRead⟩

end SingleRead

/-! ## Fresh inputs -/

/-- The complete answer on a fresh input. A handle that cannot be read from one attribute fails
first, then a factory; once the body has run, a second read counts before the error of the body, and
that before a read that is missing or failed. -/
theorem materialize_ofCell (typeName : String) (h : Handle τ σ) (c : Cell) (supply : σ) :
    let run := materialize typeName h (.ofCell c) supply
    let now := h.transcript typeName (.ofCell c) supply
    (∀ name, h = .structured name →
      run.result = .error (.notSqlData h.name) ∧ run.supply = supply ∧ now = []) ∧
    (∀ t factory cause, h = .scalar t factory → (factory supply).1 = .error cause →
      run.result = .error (.construction h.name cause) ∧ run.supply = (factory supply).2 ∧
        now = []) ∧
    (∀ t factory fresh, h = .scalar t factory → (factory supply).1 = .ok fresh →
      let body := Catalog.readSql t fresh typeName
      let outcome := (body.run (.ofCell c)).1
      run.supply = (factory supply).2 ∧ now = body.transcript (.ofCell c) ∧
        (2 ≤ now.length → run.result = .error (.multipleAttributes now.length)) ∧
        (∀ e, now.length ≤ 1 → outcome = .error e → run.result = .error e) ∧
        (∀ v, (now = [] ∨ ∃ r e, now = [r] ∧ r.reply = .error e) → outcome = .ok v →
          run.result = .error (.noAttributesRead h.name)) ∧
        (∀ o, run.result = .ok o ↔ ReadOnce now ∧ ∃ v, outcome = .ok v ∧ o = ⟨t, v⟩)) := by
  intro run now
  refine ⟨?_, ?_, ?_⟩
  · rintro name rfl
    exact ⟨rfl, rfl, rfl⟩
  · rintro t factory cause rfl hCause
    have hRun : run = ⟨.error (.construction (Catalog.name t) cause), .ofCell c, (factory supply).2,
        []⟩ := materialize_of_cause hCause (.ofCell c)
    have hNow : now = [] := by simp only [now, Handle.transcript, body?_of_cause hCause]
    rw [hRun]
    exact ⟨rfl, rfl, hNow⟩
  · rintro t factory fresh rfl hFresh body outcome
    have hRun : run = ⟨verdict t outcome (body.run (.ofCell c)).2, (body.run (.ofCell c)).2,
        (factory supply).2, []⟩ := materialize_of_fresh hFresh (.ofCell c)
    have hNow : now = body.transcript (.ofCell c) := by
      simp only [now, Handle.transcript, body?_of_fresh hFresh, body]
    have hRead : SingleRead c now (body.run (.ofCell c)).2 := by
      rw [hNow]
      exact (SingleRead.ofCell c).run body
    rw [hRun]
    dsimp only
    refine ⟨rfl, hNow, ?_, ?_, ?_, ?_⟩
    · intro hTwo
      exact hRead.verdict_of_two_le hTwo outcome
    · intro e hOne hError
      rw [hError]
      exact hRead.verdict_of_error hOne e
    · intro v hMissing hOk
      obtain ⟨hOne, hUnread⟩ := unread_of_missing hMissing
      rw [hOk]
      exact hRead.verdict_of_unread hOne hUnread v
    · intro o
      exact hRead.verdict_eq_ok_iff

/-! ## Inputs with a history -/

/-- The call gets as far as its body, which issues no read and has a result all the same. -/
def Handle.FinishesUnread (h : Handle τ σ) (typeName : String) (i : Input) (supply : σ) : Prop :=
  ∃ t body v, h.body? typeName supply = some ⟨t, body⟩ ∧ body.transcript i = [] ∧
    (body.run i).1 = .ok v

namespace SingleRead

variable {c : Cell} {past : List Reading} {i : Input}

theorem readOnce_iff (h : SingleRead c past i) :
    ReadOnce past ↔ i.attempts = 1 ∧ i.state.isDone = true := by
  rw [ScalarCell.readOnce_iff, h.attempts, h.isDone_iff]

/-- The one reading that the verdict asks for is of this call, or it was there before. -/
theorem materialize_eq_ok_iff (h : SingleRead c past i) {typeName : String} {handle : Handle τ σ}
    {supply : σ} {o : Object τ} :
    (materialize typeName handle i supply).result = .ok o ↔
      ∃ t body v, handle.body? typeName supply = some ⟨t, body⟩ ∧ (body.run i).1 = .ok v ∧
        o = ⟨t, v⟩ ∧ ((past = [] ∧ ReadOnce (body.transcript i)) ∨
          (ReadOnce past ∧ body.transcript i = [])) := by
  cases hBody : handle.body? typeName supply with
  | none =>
    constructor
    · intro hOk
      exact absurd hOk (materialize_result_ne_ok hBody i o)
    · rintro ⟨t, body, v, hSome, -⟩
      cases hSome
  | some started =>
    obtain ⟨t, body⟩ := started
    rw [materialize_result hBody, (h.run body).verdict_eq_ok_iff, readOnce_append_iff]
    constructor
    · rintro ⟨hOnce, v, hOk, ho⟩
      exact ⟨t, body, v, rfl, hOk, ho, hOnce⟩
    · rintro ⟨u, other, v, hSome, hOk, ho, hOnce⟩
      cases hSome
      exact ⟨hOnce, v, hOk, ho⟩

theorem own_read_iff (h : SingleRead c past i) (typeName : String) (handle : Handle τ σ)
    (supply : σ) :
    (∀ o, (materialize typeName handle i supply).result = .ok o →
        ReadOnce (handle.transcript typeName i supply)) ↔
      ¬(i.attempts = 1 ∧ i.state.isDone = true ∧ handle.FinishesUnread typeName i supply) := by
  constructor
  · rintro hOwn ⟨hAttempts, hDone, t, body, v, hBody, hNil, hOk⟩
    have hPast : ReadOnce past := h.readOnce_iff.mpr ⟨hAttempts, hDone⟩
    have hYields := h.materialize_eq_ok_iff.mpr
      ⟨t, body, v, hBody, hOk, rfl, Or.inr ⟨hPast, hNil⟩⟩
    have hOnce := hOwn ⟨t, v⟩ hYields
    simp only [Handle.transcript, hBody, hNil] at hOnce
    exact not_readOnce_nil hOnce
  · intro hNot o hYields
    obtain ⟨t, body, v, hBody, hOk, -, ⟨-, hOnce⟩ | ⟨hPast, hNil⟩⟩ :=
      h.materialize_eq_ok_iff.mp hYields
    · simp only [Handle.transcript, hBody]
      exact hOnce
    · obtain ⟨hAttempts, hDone⟩ := h.readOnce_iff.mp hPast
      exact absurd ⟨hAttempts, hDone, t, body, v, hBody, hNil, hOk⟩ hNot

end SingleRead

/-- On an input with any history, an object comes out of a call only after the call's own one read,
unless the one read before it succeeded and its body finishes without a read. -/
theorem materialize_own_read_iff (c : Cell) (uses : List (Use τ σ)) (start : σ) (m : TypeMap τ σ)
    (typeName : String) (h : Handle τ σ) (supply : σ) :
    let i := (Use.play uses (.ofCell c) start).input
    let now := h.transcript typeName i supply
    let passes := i.attempts = 1 ∧ i.state.isDone = true ∧ h.FinishesUnread typeName i supply
    ((∀ o, (materialize typeName h i supply).result = .ok o → ReadOnce now) ↔ ¬passes) ∧
      ((∀ o, (resolveAndMaterialize m typeName h i supply).result = .ok o → ReadOnce now) ↔
        ¬passes) := by
  intro i now passes
  have hRead := (SingleRead.ofCell c).play uses start
  rw [resolveAndMaterialize_result]
  have hOwn := hRead.own_read_iff typeName h supply
  exact ⟨hOwn, hOwn⟩

/-- A script without steps yields an object from an input that was read before. -/
theorem object_without_own_read :
    let c : Cell := ⟨.text, some (.text "a@b.com"), .default⟩
    let i := (Use.play [(.read .string : Use Sample Nat)] (.ofCell c) 0).input
    let h : Handle Sample Nat :=
      .scalar .scripted (Sample.countingFactory (Sample.Script.fresh []) none)
    ¬∀ o, (materialize "email" h i 0).result = .ok o → ReadOnce (h.transcript "email" i 0) := by
  intro c i h hOwn
  exact not_readOnce_nil (hOwn ⟨.scripted, ⟨[], "email", []⟩⟩ rfl)

end ScalarCell
