import ScalarCell.CustomType.Column

/-!
# Sessions

A `Session` is what a caller holds between calls: the settings for cells to come, the type map, the
input that is open, if any, and the supply that factories draw on. Its operations return what the
call answers, the session after it, and the log. Those on the open input need one to be open.
-/

namespace ScalarCell

structure Session (τ σ : Type) [Catalog τ] where
  config : Config
  map : TypeMap τ σ
  input : Option Input
  supply : σ

structure Session.Reply (τ σ α : Type) [Catalog τ] where
  answer : α
  session : Session τ σ
  log : List Event

def Session.Reply.map {τ σ α β : Type} [Catalog τ] (f : α → β) (r : Reply τ σ α) : Reply τ σ β :=
  ⟨f r.answer, r.session, r.log⟩

namespace Session

variable {τ σ : Type} [Catalog τ]

def start (config : Config) (supply : σ) : Session τ σ := ⟨config, .empty, none, supply⟩

/-- New settings, the default ones if no text is given. Faulty text leaves the old ones. -/
def configure (s : Session τ σ) (text : Option String) : Reply τ σ (Except Error Config) :=
  match text.elim (.ok .default) Config.parse with
  | .ok config => ⟨.ok config, { s with config }, []⟩
  | .error fault => ⟨.error fault.toError, s, []⟩

/-- Answers with the handle that was replaced. -/
def register (s : Session τ σ) (name : String) (h : Handle τ σ) :
    Reply τ σ (Option (Handle τ σ)) :=
  let run := s.map.register name h
  ⟨run.1, { s with map := run.2 }, []⟩

def clear (s : Session τ σ) : Reply τ σ Unit := ⟨(), { s with map := .empty }, []⟩

def cell (s : Session τ σ) (reported : Oid) (value : Option Scalar) : Cell :=
  ⟨reported, value, s.config⟩

/-- Opens an input on a new cell, in place of the one that was open. -/
def openCell (s : Session τ σ) (reported : Oid) (value : Option Scalar) : Reply τ σ Unit :=
  let c := s.cell reported value
  ⟨(), { s with input := some (.ofCell c) }, c.warnings⟩

def read? (s : Session τ σ) (k : Kind) : Option (Reply τ σ (Except Error k.Delivered)) :=
  s.input.map fun i => ⟨(i.read k).1, { s with input := some (i.read k).2 }, []⟩

/-- The answer of a run on the open input, which the session keeps as the run left it. -/
def ofRun {α : Type} (s : Session τ σ) (run : Run σ α) : Reply τ σ (Except Error α) :=
  ⟨run.result, { s with input := some run.input, supply := run.supply }, run.log⟩

def materialize? (s : Session τ σ) (typeName : String) (h : Handle τ σ) :
    Option (Reply τ σ (Except Error (Object τ))) :=
  s.input.map fun i => s.ofRun (materialize typeName h i s.supply)

def resolve? (s : Session τ σ) (typeName : String) (h : Handle τ σ) :
    Option (Reply τ σ (Except Error (Object τ))) :=
  s.input.map fun i => s.ofRun (resolveAndMaterialize s.map typeName h i s.supply)

/-- The answer for a new cell, whose warnings come first in the log. -/
def ofOutcome {α : Type} (s : Session τ σ) (c : Cell) (o : Outcome σ α) :
    Reply τ σ (Except Error α) :=
  ⟨o.result, { s with supply := o.supply }, c.warnings ++ o.log⟩

def materializeAs [DecidableEq τ] (s : Session τ σ) (target : τ) (typeName : String)
    (h : Handle τ σ) (c : Cell) : Reply τ σ (Except Error (Option (Catalog.Instance target))) :=
  s.ofOutcome c (ScalarCell.materializeAs s.map target typeName h c s.supply)

def getObject (s : Session τ σ) (typeName : String) (c : Cell) :
    Reply τ σ (Except Error (Mapped τ)) :=
  s.ofOutcome c (ScalarCell.getObject s.map typeName c s.supply)

end Session

end ScalarCell
