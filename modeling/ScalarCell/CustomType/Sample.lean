import ScalarCell.CustomType.Catalog

/-!
# Sample custom types

Three custom types of an application: an e-mail address, read as text; a number, read as an integer;
and a script, which plays a list of reads and keeps a trail of what it saw. Their factories draw on
a counter of the instances asked for.
-/

namespace ScalarCell

inductive Sample where
  | email
  | number
  | scripted
deriving DecidableEq

namespace Sample

inductive Action where
  /-- A failed read ends the script, unless it is ignored. -/
  | read (k : Kind) (ignore : Bool)
  | raise (e : Error)
  | query

structure Step where
  action : Action
  /-- The step is skipped unless the last read before it failed. -/
  ifFailed : Bool

inductive Trace where
  | got (k : Kind) (v : k.Delivered)
  | failed (e : Error)
  | saw (s : InputStatus)

structure Script where
  steps : List Step
  typeName : String
  trail : List Trace

namespace Script

/-- A script that has not been played. -/
def fresh (steps : List Step) : Script := ⟨steps, "", []⟩

/-- Plays the steps, with whether the last read failed and the trail so far. -/
def play (typeName : String) (all : List Step) : List Step → Bool → List Trace → ReadBody Script
  | [], _, trail => .finish (.ok ⟨all, typeName, trail⟩)
  | step :: rest, lastFailed, trail =>
    if step.ifFailed && !lastFailed then play typeName all rest lastFailed trail
    else
      match step.action with
      | .read k ignore =>
        .read k fun r =>
          match r with
          | .ok v => play typeName all rest false (trail ++ [.got k v])
          | .error e =>
            if ignore then play typeName all rest true (trail ++ [.failed e])
            else .finish (.error e)
      | .raise e => .finish (.error e)
      | .query => .inspect fun s => play typeName all rest lastFailed (trail ++ [.saw s])

end Script

def name : Sample → String
  | email => "app::Email"
  | number => "app::Port"
  | scripted => "app::Scripted"

def Instance : Sample → Type
  | email => String
  | number => Integer .int
  | scripted => Script

/-- A missing address is empty, and a missing number is 0. -/
def readSql : (t : Sample) → t.Instance → String → ReadBody t.Instance
  | email, _, _ => .readThen .string fun (v : Option String) => .finish (.ok (v.getD ""))
  | number, _, _ => .readThen (.integral .int) fun (v : Integer .int) => .finish (.ok v)
  | scripted, (script : Script), typeName =>
    Script.play typeName script.steps script.steps false script.trail

instance : Catalog Sample := ⟨name, Instance, readSql⟩

/-- Counts the instances asked for, and makes one unless it is to fail for a given cause. -/
def countingFactory {α : Type} (fresh : α) (failure : Option String) : Factory Nat α :=
  fun made =>
    match failure with
    | some cause => (.error cause, made + 1)
    | none => (.ok fresh, made + 1)

end Sample

end ScalarCell
