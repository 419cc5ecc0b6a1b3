import StubListing.Failure
import StubListing.Log
/-!
# Actions

An action works on a tree of files and keeps a log. It may fail, and what it did until then stays
done.
-/
namespace StubListing

/-- What an action works on. -/
structure Workplace where
  disk : Disk
  log : Log
  deriving Inhabited

/-- An action with a result. -/
abbrev Action (α : Type) := ExceptT Failure (StateM Workplace) α

namespace Action

def disk : Action Disk := do
  pure (← get).disk

def setDisk (d : Disk) : Action Unit := modify fun w => { w with disk := d }

/-- Put a record into the log. -/
def note (level : Level) (text : String) : Action Unit :=
  modify fun w => { w with log := w.log ++ [⟨level, text⟩] }

/-- Put the texts into the log, all at one level. -/
def noteAll (level : Level) : List String → Action Unit
  | [] => pure ()
  | text :: rest => do
    note level text
    noteAll level rest

def fail {α : Type} (f : Failure) : Action α := throw f

/-- A failure of the action happens in the circumstance. -/
def during {α : Type} (context : String) (action : Action α) : Action α :=
  tryCatch action fun f => throw (f.inside context)

/-- The answer of the system. -/
def answer {α : Type} : Except SystemError α → Action α
  | .ok a => pure a
  | .error e => throw ⟨[], .system e⟩

/-- A call that changes the tree or fails and leaves it alone. -/
def change (call : Disk → Except SystemError Disk) : Action Unit := do
  setDisk (← answer (call (← disk)))

/-- Do the actions in order and count them. -/
def countAll : List (Action Unit) → Action Nat
  | [] => pure 0
  | action :: rest => do
    action
    pure ((← countAll rest) + 1)

end Action

end StubListing
