import StubListing.Disk.Walk
import StubListing.Json.Source
import StubListing.Toml.Source
/-!
# Failures

Why something could not be done: a cause, and what was being done at the time, outermost first.
Where the cause is a text that could not be read, its notation gives the details, and messages end
with what was being read.
-/
namespace StubListing

/-- What went wrong at the bottom. -/
inductive Cause where
  | said (message : String)
  | system (error : SystemError)
  | walk (error : WalkError)
  | json (fault : Json.Fault)
  | yaml
  | toml (fault : Toml.Fault)
  deriving DecidableEq, Repr

/-- A cause and its circumstances, outermost first. -/
structure Failure where
  contexts : List String
  cause : Cause
  deriving DecidableEq, Repr

/-- The wording of a cause, if the cause has one of its own. -/
def Cause.message? : Cause → Option String
  | .said message => some message
  | .system e => some e.message
  | .walk e => some e.message
  | .json _ => none
  | .yaml => none
  | .toml _ => none

namespace Failure

/-- A failure that nothing is said about but its message. -/
def said (message : String) : Failure := ⟨[], .said message⟩

/-- The failure in a wider circumstance. -/
def inside (context : String) (f : Failure) : Failure :=
  { f with contexts := context :: f.contexts }

/-- All that is known, outermost first. -/
def message (f : Failure) : String :=
  Text.joined ": " (f.contexts ++ f.cause.message?.toList)

/-- The widest circumstance, or the cause if there is none. -/
def outermost (f : Failure) : String :=
  match f.contexts with
  | context :: _ => context
  | [] => f.cause.message?.getD ""

@[simp] theorem message_said (m : String) : (said m).message = m := rfl

end Failure

end StubListing
