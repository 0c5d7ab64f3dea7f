import ScalarCell.Session
import ScalarCell.Proofs.CustomType.Calls

/-!
# Sessions as runs of calls

While an input is open, a session is a run of calls. A request for a reading is a call with the type
map and the settings that the session has at that point (`Session.call?`); any other request changes
map or settings, and nothing else (`Session.serve_of_no_call`). So each request leaves the session as
its call leaves input and supply (`Session.serve_of_call`), and `Session.performed_play` says that
the replies of a session are what came of its calls, one after the other. What is proved of runs of
calls is thereby proved of sessions.
-/

namespace ScalarCell

variable {τ σ : Type} [Catalog τ]

/-- What a call has logged before it is answered: the warnings for the cell that it opens. -/
def Call.warnings : Call τ σ → List Event
  | use _ => []
  | getObject _ _ c => c.warnings
  | materializeAs _ _ _ _ c => c.warnings

namespace Session

/-- What a caller may ask of a session that keeps the input it has. -/
inductive Request (τ σ : Type) [Catalog τ] where
  | configure (text : Option String)
  | register (name : String) (h : Handle τ σ)
  | clear
  | read (k : Kind)
  | materialize (typeName : String) (h : Handle τ σ)
  | resolve (typeName : String) (h : Handle τ σ)
  | getObject (typeName : String) (reported : Oid) (value : Option Scalar)
  | materializeAs (target : τ) (typeName : String) (h : Handle τ σ) (reported : Oid)
    (value : Option Scalar)

/-- The call that a request for a reading is. -/
def call? (s : Session τ σ) : Request τ σ → Option (Call τ σ)
  | .read k => some (.use (.read k))
  | .materialize typeName h => some (.use (.materialize typeName h))
  | .resolve typeName h => some (.use (.resolve s.map typeName h))
  | .getObject typeName reported value => some (.getObject s.map typeName (s.cell reported value))
  | .materializeAs target typeName h reported value =>
    some (.materializeAs s.map target typeName h (s.cell reported value))
  | _ => none

variable [DecidableEq τ]

/-- The reply to a request, with the answer if it is for a reading. A reading of the open input needs
one. -/
def serve (s : Session τ σ) : Request τ σ → Option (Reply τ σ (Option (Answer τ)))
  | .configure text => some ((s.configure text).map fun _ => none)
  | .register name h => some ((s.register name h).map fun _ => none)
  | .clear => some (s.clear.map fun _ => none)
  | .read k => (s.read? k).map (.map fun r => some (.reply k r))
  | .materialize typeName h => (s.materialize? typeName h).map (.map fun r => some (.object r))
  | .resolve typeName h => (s.resolve? typeName h).map (.map fun r => some (.object r))
  | .getObject typeName reported value =>
    some ((s.getObject typeName (s.cell reported value)).map fun r => some (.mapped r))
  | .materializeAs target typeName h reported value =>
    some ((s.materializeAs target typeName h (s.cell reported value)).map fun r =>
      some (.asked target r))

/-- The replies to requests one after the other. -/
def play (s : Session τ σ) : List (Request τ σ) → Option (List (Reply τ σ (Option (Answer τ))))
  | [] => some []
  | r :: rest =>
    (s.serve r).bind fun reply => (reply.session.play rest).map fun later => reply :: later

/-- The calls among the requests, each as of its turn. -/
def calls (s : Session τ σ) : List (Request τ σ) → List (Call τ σ)
  | [] => []
  | r :: rest =>
    (s.call? r).toList ++ (s.serve r).elim [] fun reply => reply.session.calls rest

/-- What came of the call that a reply answers. -/
def Reply.performed? (r : Reply τ σ (Option (Answer τ))) : Option (Performed τ σ) :=
  r.answer.bind fun answer => r.session.input.map fun i => ⟨answer, i, r.session.supply, r.log⟩

variable {s : Session τ σ} {i : Input}

theorem serve_of_call (hOpen : s.input = some i) {r : Request τ σ} {c : Call τ σ}
    (hCall : s.call? r = some c) :
    let p := c.perform i s.supply
    s.serve r = some ⟨some p.answer, { s with input := some p.input, supply := p.supply },
      c.warnings ++ p.log⟩ := by
  obtain ⟨config, map, input, supply⟩ := s
  cases hOpen
  cases r <;> cases hCall <;> rfl

theorem serve_of_no_call {r : Request τ σ} (hCall : s.call? r = none) :
    ∃ config map, s.serve r = some ⟨none, { s with config, map }, []⟩ := by
  cases r with
  | configure text =>
    simp only [serve, configure]
    cases text.elim (.ok .default) Config.parse with
    | ok config => exact ⟨config, s.map, rfl⟩
    | error fault => exact ⟨s.config, s.map, rfl⟩
  | register name h => exact ⟨s.config, (s.map.register name h).2, rfl⟩
  | clear => exact ⟨s.config, .empty, rfl⟩
  | _ => cases hCall

/-- A session with an open input answers every request, and its replies are what comes of the calls
among them, one after the other from that input. -/
theorem performed_play (hOpen : s.input = some i) (requests : List (Request τ σ)) :
    ∃ replies, s.play requests = some replies ∧
      replies.filterMap Reply.performed? =
        List.zipWith (fun c p => { p with log := c.warnings ++ p.log }) (s.calls requests)
          (Call.trace (s.calls requests) i s.supply) := by
  -- Every request leaves an open input, which the rest of the requests start from.
  induction requests generalizing s i with
  | nil => exact ⟨[], rfl, rfl⟩
  | cons r rest ih =>
    cases hCall : s.call? r with
    | none =>
      obtain ⟨config, map, hServe⟩ := serve_of_no_call hCall
      obtain ⟨later, hPlay, hLater⟩ := ih (s := { s with config, map }) hOpen
      refine ⟨_, by rw [play, hServe, Option.bind_some, hPlay, Option.map_some], ?_⟩
      rw [calls, hCall, hServe]
      exact hLater
    | some c =>
      have hServe := serve_of_call hOpen hCall
      obtain ⟨later, hPlay, hLater⟩ := ih (s := { s with
        input := some (c.perform i s.supply).input, supply := (c.perform i s.supply).supply }) rfl
      refine ⟨_, by rw [play, hServe, Option.bind_some, hPlay, Option.map_some], ?_⟩
      rw [calls, hCall, hServe]
      exact congrArg (_ :: ·) hLater

end Session

end ScalarCell
