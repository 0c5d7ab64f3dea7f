import ScalarCell.Proofs.Cell.Reading
import ScalarCell.Proofs.Reads.Transcript

/-!
# The first read settles an input

`SingleRead c past i` is the invariant of an input of the cell `c` that has the readings `past`
behind it. Everything about the input and its readings follows from the cell, the kind of the first
reading and the number of readings.

* `SingleRead.read` is the step: one more read, of any kind.
* `SingleRead.run`, `SingleRead.apply` and `SingleRead.play` carry it through a body, through one
  use of the input and through a whole history.
* `play_readings` says what all readings of a history are, and what the input shows in between and
  at the end.
-/

namespace ScalarCell

/-- What a read delivers for NULL. -/
def Kind.deliveredNull : (k : Kind) → k.Delivered
  | string => none
  | boolean => false
  | integral w => ⟨0, w.holds_zero⟩
  | float => .ofBits .single 0
  | double => .ofBits .double 0
  | decimal => none
  | object => none

/-- What a read delivers of a value. -/
def Kind.deliveredValue : (k : Kind) → k.Carrier → k.Delivered
  | string, (s : String) => some s
  | boolean, b => b
  | integral _, n => n
  | float, x => x
  | double, x => x
  | decimal, (d : Decimal) => some d
  | object, (v : Option Scalar) => some v

theorem Kind.deliver_null (k : Kind) : k.deliver k.null = k.deliveredNull := by cases k <;> rfl

theorem Kind.deliver_present (k : Kind) (a : k.Carrier) :
    k.deliver (.present a) = k.deliveredValue a := by cases k <;> rfl

/-! ## The first read -/

namespace Cell

/-- What the first read on an input of the cell returns. -/
def firstReply (c : Cell) (k : Kind) : Except Error k.Delivered := (c.get k).map k.deliver

/-- The state that a first read of kind `k` leaves. -/
def settledState (c : Cell) (k : Kind) : ReadState :=
  match c.get k with
  | .ok _ => .done c.isNull
  | .error _ => .failed

theorem settledState_ne_unread (c : Cell) (k : Kind) : c.settledState k ≠ .unread := by
  unfold settledState
  split <;> exact nofun

theorem firstReply_of_isNull {c : Cell} (h : c.isNull = true) (k : Kind) :
    c.firstReply k = .ok k.deliveredNull := by
  rw [firstReply, get_of_isNull h, Except.map, k.deliver_null]

theorem firstReply_of_value {c : Cell} (h : c.isNull = false) {k : Kind} {r : Nullable k.Carrier}
    (hGet : c.get k = .ok r) : c.firstReply k = .ok (k.deliveredValue r.value) := by
  obtain ⟨a, flag⟩ := r
  obtain rfl : flag = false := (isNull_of_get hGet).trans h
  rw [firstReply, hGet]
  exact congrArg Except.ok (k.deliver_present a)

theorem isDone_settledState_iff (c : Cell) (k : Kind) :
    (c.settledState k).isDone = true ↔ ∃ v, c.firstReply k = .ok v := by
  unfold settledState firstReply
  cases c.get k with
  | ok v => exact ⟨fun _ => ⟨k.deliver v, rfl⟩, fun _ => rfl⟩
  | error e => exact ⟨nofun, nofun⟩

end Cell

theorem Input.read_of_unread {i : Input} (h : i.state = .unread) (k : Kind) :
    i.read k = (i.cell.firstReply k,
      { i with state := i.cell.settledState k, attempts := i.attempts + 1 }) := by
  unfold Input.read Cell.firstReply Cell.settledState
  rw [h]
  cases hGet : i.cell.get k with
  | error e => rfl
  | ok v => simp only [Except.map, Cell.isNull_of_get hGet]

/-! ## The invariant -/

theorem getElem?_concat_eq_some {α : Type} {l : List α} {a b : α} {n : Nat}
    (h : (l ++ [a])[n]? = some b) : l[n]? = some b ∨ n = l.length ∧ b = a := by
  rcases Nat.lt_or_ge n l.length with hLt | hGe
  · rw [List.getElem?_append_left hLt] at h
    exact Or.inl h
  · rw [List.getElem?_append_right hGe] at h
    obtain ⟨hZero, hEq⟩ := List.getElem?_eq_some_iff.mp h
    simp only [List.length_singleton] at hZero
    exact Or.inr ⟨by omega, by simpa using hEq.symm⟩

/-- The state of an input of the cell with these readings behind it. -/
def Cell.stateAfter (c : Cell) : List Reading → ReadState
  | [] => .unread
  | first :: _ => c.settledState first.kind

theorem Cell.stateAfter_of_getElem? {c : Cell} {past : List Reading} {r : Reading}
    (h : past[0]? = some r) : c.stateAfter past = c.settledState r.kind := by
  cases past with
  | nil => cases h
  | cons first later => cases h; rfl

structure SingleRead (c : Cell) (past : List Reading) (i : Input) : Prop where
  cell : i.cell = c
  attempts : i.attempts = past.length
  state : i.state = c.stateAfter past
  reply_first : ∀ r : Reading, past[0]? = some r → r.reply = c.firstReply r.kind
  reply_later : ∀ (n : Nat) (r : Reading), past[n + 1]? = some r →
    r.reply = .error (.multipleAttributes (n + 2))
  shown : ∀ (n : Nat) (r : Reading), past[n]? = some r →
    r.shown = ⟨c.stateAfter past, n + 1, c.isNull⟩

namespace SingleRead

variable {c : Cell} {past : List Reading} {i : Input}

theorem ofCell (c : Cell) : SingleRead c [] (.ofCell c) where
  cell := rfl
  attempts := rfl
  state := rfl
  reply_first := fun r hr => by cases hr
  reply_later := fun n r hr => by cases hr
  shown := fun n r hr => by cases hr

theorem read_first (h : SingleRead c [] i) (k : Kind) :
    SingleRead c [i.reading k] (i.read k).2 := by
  have hRead := Input.read_of_unread h.state k
  have hReading : i.reading k = ⟨k, c.firstReply k, ⟨c.settledState k, 1, c.isNull⟩⟩ := by
    simp only [Input.reading, hRead, Input.status, h.cell, h.attempts, List.length_nil]
  rw [hReading, hRead]
  refine ⟨h.cell, ?_, ?_, ?_, ?_, ?_⟩
  · simp only [h.attempts, List.length_nil, List.length_singleton]
  · simp only [h.cell, Cell.stateAfter]
  · intro r hr
    cases hr
    rfl
  · intro n r hr
    cases hr
  · intro n r hr
    cases n with
    | zero => cases hr; rfl
    | succ n => cases hr

/-- A read on a settled input counts, and changes nothing else. -/
theorem read_later {first : Reading} {later : List Reading} (h : SingleRead c (first :: later) i)
    (k : Kind) : SingleRead c (first :: later ++ [i.reading k]) (i.read k).2 := by
  have hSettled : i.state ≠ .unread := by
    rw [h.state]
    exact c.settledState_ne_unread first.kind
  have hRead := Input.read_of_ne_unread k hSettled
  have hReading : i.reading k = ⟨k, .error (.multipleAttributes (later.length + 2)),
      ⟨c.settledState first.kind, later.length + 2, c.isNull⟩⟩ := by
    simp only [Input.reading, hRead, Input.status, h.cell, h.attempts, h.state, Cell.stateAfter,
      List.length_cons]
  rw [hReading, hRead]
  refine ⟨h.cell, ?_, h.state, ?_, ?_, ?_⟩
  · simp only [h.attempts, List.length_append, List.length_singleton]
  · intro r hr
    exact h.reply_first r hr
  · intro n r hr
    rw [List.cons_append, List.getElem?_cons_succ] at hr
    rcases getElem?_concat_eq_some hr with hOld | ⟨hLast, rfl⟩
    · exact h.reply_later n r hOld
    · rw [hLast]
  · intro n r hr
    rcases getElem?_concat_eq_some hr with hOld | ⟨hLast, rfl⟩
    · exact h.shown n r hOld
    · rw [hLast]
      rfl

theorem read (h : SingleRead c past i) (k : Kind) :
    SingleRead c (past ++ [i.reading k]) (i.read k).2 := by
  cases past with
  | nil => exact h.read_first k
  | cons first later => exact h.read_later k

theorem run {α : Type} (body : ReadBody α) (h : SingleRead c past i) :
    SingleRead c (past ++ body.transcript i) (body.run i).2 := by
  induction body generalizing past i with
  | finish result => simpa only [ReadBody.transcript, ReadBody.run, List.append_nil] using h
  | read k next ih =>
    have hNext := ih (i.read k).1 (h.read k)
    simpa only [ReadBody.transcript, ReadBody.run, List.append_assoc, List.singleton_append]
      using hNext
  | inspect next ih => exact ih i.status h

/-! ## Calls and histories -/

variable {τ σ : Type} [Catalog τ]

theorem call (h : SingleRead c past i) (typeName : String) (handle : Handle τ σ) (supply : σ) :
    SingleRead c (past ++ handle.transcript typeName i supply)
      (materialize typeName handle i supply).input := by
  rw [materialize_input, Handle.transcript]
  cases handle.body? typeName supply with
  | none => simpa only [List.append_nil] using h
  | some started => exact h.run started.2

theorem apply (h : SingleRead c past i) (u : Use τ σ) (supply : σ) :
    SingleRead c (past ++ (u.apply i supply).readings) (u.apply i supply).input := by
  cases u with
  | read k => exact h.read k
  | materialize typeName handle => exact h.call typeName handle supply
  | resolve m typeName handle =>
    simp only [Use.apply, resolveAndMaterialize_input]
    exact h.call typeName handle supply

theorem play (h : SingleRead c past i) (uses : List (Use τ σ)) (supply : σ) :
    SingleRead c (past ++ (Use.play uses i supply).readings) (Use.play uses i supply).input := by
  induction uses generalizing past i supply with
  | nil => simpa only [Use.play, List.append_nil] using h
  | cons u rest ih =>
    have hRest := ih (h.apply u supply) (u.apply i supply).supply
    simpa only [Use.play, List.append_assoc] using hRest

/-! ## What follows from the invariant -/

theorem unread_iff (h : SingleRead c past i) : i.state = .unread ↔ i.attempts = 0 := by
  rw [h.state, h.attempts]
  cases past with
  | nil => exact ⟨fun _ => rfl, fun _ => rfl⟩
  | cons first later => exact ⟨fun e => absurd e (c.settledState_ne_unread first.kind), nofun⟩

theorem eq_zero_of_succeeded (h : SingleRead c past i) {n : Nat} {r : Reading}
    (hr : past[n]? = some r) (hOk : r.Succeeded) : n = 0 := by
  cases n with
  | zero => rfl
  | succ n =>
    obtain ⟨v, hv⟩ := hOk
    rw [h.reply_later n r hr] at hv
    cases hv

theorem isDone_iff (h : SingleRead c past i) :
    i.state.isDone = true ↔ ∃ r ∈ past, r.Succeeded := by
  rw [h.state]
  cases past with
  | nil => exact ⟨nofun, fun ⟨_, hr, _⟩ => by cases hr⟩
  | cons first later =>
    have hFirst : first.Succeeded ↔ (c.settledState first.kind).isDone = true := by
      rw [Reading.Succeeded, h.reply_first first rfl, c.isDone_settledState_iff]
    rw [Cell.stateAfter, ← hFirst]
    constructor
    · intro hOk
      exact ⟨first, List.mem_cons_self, hOk⟩
    · rintro ⟨r, hMem, hOk⟩
      obtain ⟨n, hn⟩ := List.mem_iff_getElem?.mp hMem
      have hZero := h.eq_zero_of_succeeded hn hOk
      subst hZero
      cases hn
      exact hOk

theorem wasNull_iff (h : SingleRead c past i) :
    i.state.wasNull = true ↔ i.state.isDone = true ∧ c.isNull = true := by
  rw [h.state]
  cases past with
  | nil => exact ⟨nofun, fun hNull => by cases hNull.1⟩
  | cons first later =>
    rw [Cell.stateAfter, Cell.settledState]
    cases c.get first.kind with
    | ok v => exact ⟨fun hNull => ⟨rfl, hNull⟩, fun hNull => hNull.2⟩
    | error e => exact ⟨nofun, fun hNull => by cases hNull.1⟩

theorem state_play (h : SingleRead c past i) (hSettled : i.state ≠ .unread)
    (uses : List (Use τ σ)) (supply : σ) : (Use.play uses i supply).input.state = i.state := by
  rw [(h.play uses supply).state, h.state]
  cases past with
  | nil => exact absurd h.state hSettled
  | cons first later => rfl

end SingleRead

/-- Every history of an input, from the reads that were issued directly and by bodies: how many
there were, what each returned, what the input showed after each, and what it shows at the end. -/
theorem play_readings {τ σ : Type} [Catalog τ] (c : Cell) (uses : List (Use τ σ)) (supply : σ) :
    let past := (Use.play uses (.ofCell c) supply).readings
    let i := (Use.play uses (.ofCell c) supply).input
    i.attempts = past.length ∧
      (i.state = .unread ↔ i.attempts = 0) ∧
      (∀ r : Reading, past[0]? = some r →
        (c.isNull = true → r.reply = .ok r.kind.deliveredNull) ∧
          match c.get r.kind with
          | .ok got => i.state = .done c.isNull ∧
            (c.isNull = false → r.reply = .ok (r.kind.deliveredValue got.value))
          | .error e => i.state = .failed ∧ r.reply = .error e) ∧
      (∀ (n : Nat) (r : Reading), past[n]? = some r → r.shown = ⟨i.state, n + 1, c.isNull⟩) ∧
      (∀ (n : Nat) (r : Reading), past[n + 1]? = some r →
        r.reply = .error (.multipleAttributes (n + 2))) ∧
      (∀ (n : Nat) (r : Reading), past[n]? = some r → r.Succeeded → n = 0) ∧
      (∀ (later : List (Use τ σ)) (rest : σ), i.state ≠ .unread →
        (Use.play later i rest).input.state = i.state) ∧
      (i.state.isDone = true ↔ ∃ r ∈ past, r.Succeeded) ∧
      (i.state.wasNull = true ↔ i.state.isDone = true ∧ c.isNull = true) ∧
      i.cell.isNull = c.isNull := by
  intro past i
  have h : SingleRead c past i := (SingleRead.ofCell c).play uses supply
  refine ⟨h.attempts, h.unread_iff, ?_, ?_, h.reply_later, ?_, ?_, h.isDone_iff, h.wasNull_iff, ?_⟩
  · intro r hr
    have hReply := h.reply_first r hr
    have hState : i.state = c.settledState r.kind := by
      rw [h.state, Cell.stateAfter_of_getElem? hr]
    constructor
    · intro hNull
      rw [hReply, Cell.firstReply_of_isNull hNull]
    · rw [hReply, hState]
      split
      · next got hGet =>
        refine ⟨by rw [Cell.settledState, hGet], ?_⟩
        intro hValue
        exact Cell.firstReply_of_value hValue hGet
      · next e hGet => exact ⟨by rw [Cell.settledState, hGet], by rw [Cell.firstReply, hGet]; rfl⟩
  · intro n r hr
    rw [h.shown n r hr, h.state]
  · intro n r hr hOk
    exact h.eq_zero_of_succeeded hr hOk
  · intro later rest hSettled
    exact h.state_play hSettled later rest
  · rw [h.cell]

end ScalarCell
