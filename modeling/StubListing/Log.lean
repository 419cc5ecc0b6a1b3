/-!
# Log records

What a run reports on the side. Only the levels that are shown by default are recorded.
-/
namespace StubListing

inductive Level where
  | info
  | warn
  | error
  deriving DecidableEq, Repr

def Level.word : Level → String
  | .info => "INFO"
  | .warn => "WARN"
  | .error => "ERROR"

/-- A record of the log. -/
structure Record where
  level : Level
  text : String
  deriving DecidableEq, Repr

def Record.line (r : Record) : String := r.level.word ++ " " ++ r.text

/-- The records so far, first to last. -/
abbrev Log := List Record

end StubListing
