import StubListing.Stub.Text
import StubListing.Path
/-!
# What became of a class

Every selected class ends in one of two ways: its stub was written, or it was not for some reason.
-/
namespace StubListing.Stub

structure Written where
  ns : String
  className : String
  path : Path
  digest : String
  members : MemberCounts
  deriving DecidableEq, Repr, Inhabited

/-- A class without a stub, and why. -/
structure Failed where
  ns : String
  className : String
  error : String
  deriving DecidableEq, Repr, Inhabited

/-- The stub, or why there is none. -/
abbrev Outcome := Except Failed Written

/-- The stubs among the outcomes, in order. -/
def writtenOf (outcomes : List Outcome) : List Written :=
  outcomes.filterMap fun
    | .ok w => some w
    | .error _ => none

/-- The failures among the outcomes, in order. -/
def failedOf (outcomes : List Outcome) : List Failed :=
  outcomes.filterMap fun
    | .ok _ => none
    | .error f => some f

theorem length_writtenOf_add_length_failedOf (outcomes : List Outcome) :
    (writtenOf outcomes).length + (failedOf outcomes).length = outcomes.length := by
  induction outcomes with
  | nil => rfl
  | cons o rest ih =>
    cases o <;> simp only [writtenOf, failedOf, List.filterMap_cons, List.length_cons] at * <;>
      omega

end StubListing.Stub
