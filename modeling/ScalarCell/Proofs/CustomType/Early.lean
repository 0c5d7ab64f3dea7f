import ScalarCell.CustomType.Sample
import ScalarCell.Proofs.CustomType.Factories

/-!
# Failures before the reading

A call that gets no instance to work with ends in one of two errors (`Error.PrecedesReading`), and
has read nothing then. A body may come up with the same errors of its own accord, also after it has
read. So a call `FailsEarly` if it ends in one of them and issued no read.

* `Use.input_of_precedesReading`: these errors leave the input as it was, unless the body has read
  and then made them up (`Use.BodyRaises`).
* `Use.perform_of_failsEarly` is the step, `Use.input_of_allFailEarly` the run: the input stays.
* `Call.trace_of_allFailEarly` and `Call.shown_of_allFailEarly` put such calls in front of any others,
  which show what they show without them, as far as their factories do.
* `early_failures_and_factory_runs` puts this beside the count of the factories that a run makes use
  of. `failures_leave_traces` is why it says no more: a body that has read and then refuses, and a
  factory that makes something of the failures before it.
-/

namespace ScalarCell

/-- The errors of a call that gets no instance to work with. -/
def Error.PrecedesReading : Error → Prop
  | notSqlData _ | construction _ _ => True
  | _ => False

theorem ReadBody.run_of_transcript_eq_nil {α : Type} {body : ReadBody α} {i : Input}
    (h : body.transcript i = []) : (body.run i).2 = i := by
  induction body with
  | finish r => rfl
  | read k next => cases h
  | inspect next ih => exact ih i.status h

theorem ReadBody.run_attempts {α : Type} (body : ReadBody α) (i : Input) :
    (body.run i).2.attempts = i.attempts + (body.transcript i).length := by
  induction body generalizing i with
  | finish r => rfl
  | read k next ih =>
    rw [run, ih, Input.read_attempts, transcript, List.length_cons]
    omega
  | inspect next ih => exact ih i.status i

variable {τ σ : Type} [Catalog τ]

theorem materialize_of_transcript_eq_nil {typeName : String} {h : Handle τ σ} {i : Input}
    {supply : σ} (hNil : h.transcript typeName i supply = []) :
    (materialize typeName h i supply).input = i := by
  rw [materialize_input]
  unfold Handle.transcript at hNil
  cases hBody : h.body? typeName supply with
  | none => rfl
  | some started =>
    rw [hBody] at hNil
    exact ReadBody.run_of_transcript_eq_nil hNil

theorem verdict_eq_error_of_precedesReading {t : τ} {outcome : Except Error (Catalog.Instance t)}
    {after : Input} {e : Error} (h : verdict t outcome after = .error e)
    (hPrecedes : e.PrecedesReading) : after.attempts ≤ 1 ∧ outcome = .error e := by
  unfold verdict at h
  split at h
  · cases h
    exact hPrecedes.elim
  · next hOne =>
    refine ⟨by omega, ?_⟩
    cases outcome with
    | error raised => simpa using h
    | ok v =>
      dsimp only at h
      split at h
      · cases h
      · cases h
        exact hPrecedes.elim

namespace Use

/-- The body that the call plays, if there is one. -/
def body? : Use τ σ → σ → Option ((t : τ) × ReadBody (Catalog.Instance t))
  | read _, _ => none
  | materialize typeName h, supply => h.body? typeName supply
  | resolve _ typeName h, supply => h.body? typeName supply

/-- The body that the call plays ends in this error itself. -/
def BodyRaises (u : Use τ σ) (i : Input) (supply : σ) (e : Error) : Prop :=
  ∃ t body, u.body? supply = some ⟨t, body⟩ ∧ (body.run i).1 = .error e

def FailsEarly (u : Use τ σ) (i : Input) (supply : σ) : Prop :=
  ∃ e : Error, (u.perform i supply).answer = .object (.error e) ∧ e.PrecedesReading ∧
    (u.apply i supply).readings = []

/-- Each of the uses fails early when its turn comes. -/
def AllFailEarly : List (Use τ σ) → Input → σ → Prop
  | [], _, _ => True
  | u :: rest, i, supply =>
    u.FailsEarly i supply ∧
      AllFailEarly rest (u.perform i supply).input (u.perform i supply).supply

variable {u : Use τ σ} {i : Input} {supply : σ}

/-- Only `materialize` and `resolveAndMaterialize` answer with an object, and to the input both do
what `materialize` does. -/
theorem exists_handle {r : Except Error (Object τ)} (h : (u.perform i supply).answer = .object r) :
    ∃ typeName handle, u.body? supply = handle.body? typeName supply ∧
      (u.apply i supply).readings = handle.transcript typeName i supply ∧
      (ScalarCell.materialize typeName handle i supply).result = r ∧
      (ScalarCell.materialize typeName handle i supply).input = (u.perform i supply).input := by
  cases u with
  | read k => cases h
  | materialize typeName handle =>
    cases h
    exact ⟨typeName, handle, rfl, rfl, rfl, rfl⟩
  | resolve m typeName handle =>
    cases h
    exact ⟨typeName, handle, rfl, rfl,
      (resolveAndMaterialize_result m typeName handle i supply).symm,
      (resolveAndMaterialize_input m typeName handle i supply).symm⟩

theorem perform_of_failsEarly (h : u.FailsEarly i supply) : (u.perform i supply).input = i := by
  obtain ⟨e, hAnswer, -, hNil⟩ := h
  obtain ⟨typeName, handle, -, hReadings, -, hInput⟩ := exists_handle hAnswer
  rw [← hInput]
  exact materialize_of_transcript_eq_nil (hReadings.symm.trans hNil)

theorem input_of_precedesReading {e : Error}
    (hAnswer : (u.perform i supply).answer = .object (.error e)) (hPrecedes : e.PrecedesReading) :
    ((u.perform i supply).input = i ∧ (u.apply i supply).readings = []) ∨
      ((∃ r, (u.apply i supply).readings = [r]) ∧ i.attempts = 0 ∧ u.BodyRaises i supply e) := by
  by_cases hNil : (u.apply i supply).readings = []
  · exact Or.inl ⟨perform_of_failsEarly ⟨e, hAnswer, hPrecedes, hNil⟩, hNil⟩
  · obtain ⟨typeName, handle, hSame, hReadings, hResult, -⟩ := exists_handle hAnswer
    rw [hReadings] at hNil ⊢
    unfold Handle.transcript at hNil ⊢
    cases hBody : handle.body? typeName supply with
    | none =>
      rw [hBody] at hNil
      exact absurd rfl hNil
    | some started =>
      obtain ⟨t, body⟩ := started
      have hRead : body.transcript i ≠ [] := by
        rw [hBody] at hNil
        exact hNil
      rw [materialize_result hBody] at hResult
      obtain ⟨hOne, hRaised⟩ := verdict_eq_error_of_precedesReading hResult hPrecedes
      -- A second read, of this call or before it, would have been the cause.
      rw [body.run_attempts] at hOne
      have hLength := List.length_pos_iff.mpr hRead
      have hSingle : (body.transcript i).length = 1 := by omega
      exact Or.inr ⟨List.length_eq_one_iff.mp hSingle, by omega, t, body, hSame.trans hBody, hRaised⟩

variable [DecidableEq τ]

theorem input_of_allFailEarly {early : List (Use τ σ)} (h : AllFailEarly early i supply) :
    (Call.after (early.map .use) i supply).1 = i ∧
      ∀ p ∈ Call.trace (early.map .use) i supply, p.input = i := by
  induction early generalizing supply with
  | nil => exact ⟨rfl, fun p hMem => absurd hMem List.not_mem_nil⟩
  | cons u rest ih =>
    obtain ⟨hFirst, hRest⟩ := h
    -- The factory may have drawn on the supply, but the rest of the calls start from the same input.
    have hInput := perform_of_failsEarly hFirst
    rw [hInput] at hRest
    obtain ⟨hAfter, hTrace⟩ := ih hRest
    simp only [List.map_cons, Call.after, Call.trace, Call.perform, hInput]
    refine ⟨hAfter, ?_⟩
    rintro p (_ | ⟨_, hMem⟩)
    · exact hInput
    · exact hTrace p hMem

end Use

namespace Call

variable [DecidableEq τ] {early : List (Use τ σ)} {i : Input} {supply : σ}

/-- The calls behind calls that fail early find the input as those found it. -/
theorem trace_of_allFailEarly (h : Use.AllFailEarly early i supply) (later : List (Call τ σ)) :
    let all := trace (early.map .use ++ later) i supply
    (∀ p ∈ all.take early.length, p.input = i) ∧
      all.drop early.length = trace later i (after (early.map .use) i supply).2 := by
  intro all
  obtain ⟨hAfter, hTrace⟩ := Use.input_of_allFailEarly h
  have hAll : all = trace (early.map .use) i supply ++
      trace later i (after (early.map .use) i supply).2 := by
    simp only [all, trace_append, hAfter]
  have hLength : (trace (early.map .use) i supply).length = early.length := by
    rw [length_trace, List.length_map]
  rw [hAll, ← hLength, List.take_left, List.drop_left]
  exact ⟨hTrace, rfl⟩

/-- They show what they show without those, if their factories make the same of what is left. -/
theorem shown_of_allFailEarly (h : Use.AllFailEarly early i supply) {later : List (Call τ σ)}
    {same : σ → σ → Prop} (hSame : same supply (after (early.map .use) i supply).2)
    (hLater : ∀ c ∈ later, c.Alike same c) :
    ((trace (early.map .use ++ later) i supply).drop early.length).map Performed.shown =
      (trace later i supply).map Performed.shown := by
  rw [(trace_of_allFailEarly h later).2]
  exact (trace_of_alike (List.forall₂_same.mpr hLater) hSame i).1.symm

end Call

/-- What is left behind by calls that fail before they read. -/
structure EarlyFailures (τ σ : Type) [Catalog τ] [DecidableEq τ] : Prop where
  /-- The input stays, unless the body has issued the first read of the input and no other, and then
  ended in the error itself. -/
  input : ∀ (u : Use τ σ) (i : Input) (supply : σ) (e : Error),
    (u.perform i supply).answer = .object (.error e) → e.PrecedesReading →
      ((u.perform i supply).input = i ∧ (u.apply i supply).readings = []) ∨
        ((∃ r, (u.apply i supply).readings = [r]) ∧ i.attempts = 0 ∧ u.BodyRaises i supply e)
  /-- Any number of such calls leaves the input to the calls behind them. -/
  later : ∀ (early : List (Use τ σ)) (later : List (Call τ σ)) (i : Input) (supply : σ),
    Use.AllFailEarly early i supply →
      let all := Call.trace (early.map .use ++ later) i supply
      (∀ p ∈ all.take early.length, p.input = i) ∧
        all.drop early.length = Call.trace later i (Call.after (early.map .use) i supply).2
  /-- Those calls show what they show without, as far as their factories make the same of what is
  left of the supply. -/
  shown : ∀ (early : List (Use τ σ)) (later : List (Call τ σ)) (i : Input) (supply : σ)
    (same : σ → σ → Prop), Use.AllFailEarly early i supply →
      same supply (Call.after (early.map .use) i supply).2 → (∀ c ∈ later, c.Alike same c) →
        ((Call.trace (early.map .use ++ later) i supply).drop early.length).map Performed.shown =
          (Call.trace later i supply).map Performed.shown

/-- Which factories run. -/
structure FactoryRuns (τ σ : Type) [Catalog τ] [DecidableEq τ] : Prop where
  /-- Factories that write down their runs show nothing else. -/
  shown : ∀ (calls : List (Call τ σ)) (i : Input) (supply : σ) (runs : List (Handle τ σ)),
    (Call.trace (calls.map .tallied) i (supply, runs)).map Performed.shown =
      (Call.trace calls i supply).map Performed.shown
  /-- What they write down are the handles of the calls that make something, in order. -/
  ledger : ∀ (calls : List (Call τ σ)) (i : Input) (supply : σ) (runs : List (Handle τ σ)),
    Call.after (calls.map .tallied) i (supply, runs) =
      ((Call.after calls i supply).1, (Call.after calls i supply).2,
        runs ++ calls.flatMap Call.made)
  materialize : ∀ (typeName : String) (h : Handle τ σ),
    (Call.use (.materialize typeName h)).made = if h.isSqlData then [h] else []
  resolve : ∀ (m : TypeMap τ σ) (typeName : String) (h : Handle τ σ),
    (Call.use (.resolve m typeName h)).made = if h.isSqlData then [h] else []
  getObject : ∀ (m : TypeMap τ σ) (typeName : String) (c : Cell) (supply : σ),
    let result := (getObject m typeName c supply).result
    let made := (Call.getObject m typeName c).made
    (Call.MappedSpared m typeName result ∧ made = []) ∨
      (¬Call.MappedSpared m typeName result ∧ ∃ h, m.get? typeName = some h ∧ made = [h])
  materializeAs : ∀ (m : TypeMap τ σ) (t : τ) (typeName : String) (h : Handle τ σ) (c : Cell)
    (supply : σ),
    let result := (materializeAs m t typeName h c supply).result
    let made := (Call.materializeAs m t typeName h c).made
    (Call.AskedSpared t h result ∧ made = []) ∨ (¬Call.AskedSpared t h result ∧ made = [h])

/-- Calls that fail before they read leave the input as it was, and the calls behind any number of
them show what they would have shown without them, as far as their factories make the same of what is
left of the supply. In a run of calls, the handles whose factories run are those of the calls that get
as far, one for each of them. -/
theorem early_failures_and_factory_runs [DecidableEq τ] :
    EarlyFailures τ σ ∧ FactoryRuns τ σ := by
  constructor
  · exact {
      input := fun _ _ _ _ => Use.input_of_precedesReading
      later := fun _ later _ _ hEarly => Call.trace_of_allFailEarly hEarly later
      shown := fun _ _ _ _ _ hEarly hSame hLater =>
        Call.shown_of_allFailEarly hEarly hSame hLater }
  · exact {
      shown := Call.trace_tallied
      ledger := Call.after_tallied
      materialize := Call.made_materialize
      resolve := Call.made_resolve
      getObject := Call.made_getObject
      materializeAs := Call.made_materializeAs }

/-- An address is read after a factory failed and a structured type was refused. -/
theorem early_failures_before_email :
    let c : Cell := ⟨.text, some (.text "a@b.com"), .default⟩
    let i := Input.ofCell c
    let broken : Handle Sample Nat := .scalar .email (Sample.countingFactory "" (some "down"))
    let sound : Handle Sample Nat := .scalar .email (Sample.countingFactory "" none)
    let first : Use Sample Nat := .materialize "email" broken
    let early : List (Use Sample Nat) := [first, .resolve .empty "pair" (.structured "app::Pair")]
    let later : List (Call Sample Nat) := [.use (.materialize "email" sound), .use (.read .string)]
    let calls := early.map Call.use ++ later
    let all := Call.trace calls i 0
    let failure : Error := .construction "app::Email" "down"
    (first.perform i 0).answer = .object (.error failure) ∧ failure.PrecedesReading ∧
      (((first.perform i 0).input = i ∧ (first.apply i 0).readings = []) ∨
        ((∃ r, (first.apply i 0).readings = [r]) ∧ i.attempts = 0 ∧
          first.BodyRaises i 0 failure)) ∧
      Use.AllFailEarly early i 0 ∧ (∀ d ∈ later, d.Alike (fun _ _ => True) d) ∧
      (∀ p ∈ all.take 2, p.input = i) ∧
      (all.drop 2).map Performed.shown = (Call.trace later i 0).map Performed.shown ∧
      (Call.after (calls.map .tallied) i (0, [])).2 =
        ((Call.after calls i 0).2, [broken, sound]) := by
  intro c i broken sound first early later calls all failure
  obtain ⟨hEarlyFailures, hFactoryRuns⟩ := early_failures_and_factory_runs (τ := Sample) (σ := Nat)
  have hEarly : Use.AllFailEarly early i 0 :=
    ⟨⟨failure, rfl, trivial, rfl⟩, ⟨.notSqlData "app::Pair", rfl, trivial, rfl⟩, trivial⟩
  have hSound : sound.Alike (fun _ _ => True) sound := .scalar _ fun _ _ _ => ⟨rfl, trivial⟩
  have hLater : ∀ d ∈ later, d.Alike (fun _ _ => True) d :=
    List.forall_mem_cons.mpr ⟨.materialize _ hSound, List.forall_mem_singleton.mpr (.read _)⟩
  exact ⟨rfl, trivial, hEarlyFailures.input first i 0 failure rfl trivial, hEarly, hLater,
    (hEarlyFailures.later early later i 0 hEarly).1,
    hEarlyFailures.shown early later i 0 _ hEarly trivial hLater,
    congrArg Prod.snd (hFactoryRuns.ledger calls i 0 [])⟩

/-- Neither error rules out that something was read or made, and a failure may matter to what is made
later. A script reads and then ends in the refusal of a structured type: the input is not what it was,
so the next read is refused, and a column read so has made an instance. A factory that works from its
second run on makes an instance behind a failure, and none in its place. -/
theorem failures_leave_traces :
    let c : Cell := ⟨.text, some (.text "a@b.com"), .default⟩
    let i := Input.ofCell c
    let refusal : Error := .notSqlData "app::Pair"
    let script : List Sample.Step := [⟨.read .string false, false⟩, ⟨.raise refusal, false⟩]
    let late : Handle Sample Nat :=
      .scalar .scripted (Sample.countingFactory (Sample.Script.fresh script) none)
    let warming : Handle Sample Nat :=
      .scalar .email fun made => (if made = 0 then .error "down" else .ok "", made + 1)
    let answers (calls : List (Call Sample Nat)) :=
      (Call.trace calls i 0).map Performed.answer
    let refused : Call Sample Nat := .use (.materialize "email" late)
    let failed : Call Sample Nat := .use (.materialize "email" warming)
    let failure : Error := .construction "app::Email" "down"
    answers [refused, .use (.read .string)] =
        [.object (.error refusal), .reply .string (.error (.multipleAttributes 2))] ∧
      answers [.use (.read .string)] = [.reply .string (.ok (some "a@b.com"))] ∧
      (refused.perform i 0).input = ⟨c, .done false, 1⟩ ∧
      (materializeAs .empty .scripted "email" late c 0).result = .error refusal ∧
      (materializeAs .empty .scripted "email" late c 0).supply = 1 ∧
      answers [failed] = [.object (.error failure)] ∧ (failed.perform i 0).input = i ∧
      answers [failed, failed] =
        [.object (.error failure), .object (.ok ⟨.email, "a@b.com"⟩)] := by
  intro c i refusal script late warming answers refused failed failure
  exact ⟨rfl, rfl, rfl, rfl, rfl, rfl, rfl, rfl⟩

end ScalarCell
