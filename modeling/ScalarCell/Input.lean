import ScalarCell.Cell

/-!
# The input of a custom type

An `Input` hands the one attribute of a cell to whoever reads first. It counts the reads that are
issued; the first one decides its state for good, and every later one is refused with its number.

* `Input.read` is the one way to read.
* `Input.status` is what can be seen without reading.
* `read_attempts` and `read_of_ne_unread` say what a read does to the input.
-/

namespace ScalarCell

inductive ReadState where
  | unread
  | done (wasNull : Bool)
  /-- The one read was issued and its conversion failed. -/
  | failed
deriving DecidableEq

namespace ReadState

def isDone : ReadState → Bool
  | done _ => true
  | _ => false

/-- The attribute was read and is NULL. -/
def wasNull : ReadState → Bool
  | done b => b
  | _ => false

end ReadState

structure InputStatus where
  state : ReadState
  attempts : Nat
  isNull : Bool
deriving DecidableEq

structure Input where
  cell : Cell
  state : ReadState
  /-- A natural number without a bound: no caller issues enough reads to exhaust a machine word. -/
  attempts : Nat
deriving DecidableEq

namespace Input

def ofCell (c : Cell) : Input := ⟨c, .unread, 0⟩

def status (i : Input) : InputStatus := ⟨i.state, i.attempts, i.cell.isNull⟩

def read (i : Input) (k : Kind) : Except Error k.Delivered × Input :=
  let attempts := i.attempts + 1
  match i.state with
  | .unread =>
    match i.cell.get k with
    | .ok r => (.ok (k.deliver r), { i with state := .done r.isNull, attempts })
    | .error e => (.error e, { i with state := .failed, attempts })
  | _ => (.error (.multipleAttributes attempts), { i with attempts })

theorem read_attempts (i : Input) (k : Kind) : (i.read k).2.attempts = i.attempts + 1 := by
  unfold read
  split
  · split <;> rfl
  · rfl

theorem read_of_ne_unread {i : Input} (k : Kind) (h : i.state ≠ .unread) :
    i.read k =
      (.error (.multipleAttributes (i.attempts + 1)), { i with attempts := i.attempts + 1 }) := by
  unfold read
  split
  · next e => exact absurd e h
  · rfl

end Input

end ScalarCell
