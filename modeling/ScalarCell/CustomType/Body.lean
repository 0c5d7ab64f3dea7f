import ScalarCell.Input

/-!
# Reading bodies

What a custom type does with its input, as a tree of reads: `ReadBody α` either has a result, or
issues one read and goes on by its outcome, or looks at the status of the input and goes on by that.
A body may swallow a failed read, or issue none, or many.

`ReadBody.run` plays a body on an input.
-/

namespace ScalarCell

inductive ReadBody (α : Type) where
  | finish (result : Except Error α)
  | read (k : Kind) (next : Except Error k.Delivered → ReadBody α)
  | inspect (next : InputStatus → ReadBody α)

namespace ReadBody

variable {α : Type}

def run : ReadBody α → Input → Except Error α × Input
  | finish r, i => (r, i)
  | read k next, i => (next (i.read k).1).run (i.read k).2
  | inspect next, i => (next i.status).run i

/-- Reads once, and goes on only if the read succeeds. -/
def readThen (k : Kind) (next : k.Delivered → ReadBody α) : ReadBody α :=
  read k fun r =>
    match r with
    | .ok v => next v
    | .error e => finish (.error e)

end ReadBody

end ScalarCell
