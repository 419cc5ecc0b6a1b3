import StubListing.Json.Reader
import StubListing.Decode.Source
import StubListing.Text.Quoted
/-!
# Data in JSON

How the tree of a JSON text answers the questions of a reader. The first objection in the order
of the text counts, be it against the text or against what it says. Lists and objects that are
looked into may be nested a hundred and twenty-seven deep; those that are passed over may be
nested as deep as they like. A record may be written as an object or as a list.
-/
namespace StubListing.Json
open StubListing.Decode StubListing.Text

/-- Why a text does not give the data that is wanted. -/
inductive Fault where
  | stopped (stop : Stop)
  | data (mismatch : Mismatch)
  deriving DecidableEq, Repr

/-- How deep data may be nested. -/
def nesting : Nat := 127

def malformed : Fault := .stopped .malformed

/-- The objection to a node where something else is wanted. -/
def misfit (expected : Expected) : Node → Fault
  | .null => .data (.wrongType .null expected)
  | .boolean b => .data (.wrongType (.boolean b) expected)
  | .number n =>
    match n.value.found? with
    | some found => .data (.wrongType found expected)
    | none => malformed
  | .text (some s) => .data (.wrongType (.text (quotedText s)) expected)
  | .text none => malformed
  | .array _ _ => .data (.wrongType .sequence expected)
  | .object _ _ => .data (.wrongType .mapping expected)
  | .broken how _ => .stopped how.wanted

/-- The check that a list or an object was closed. -/
def closing : Option Stop → Except Fault Unit
  | none => .ok ()
  | some stop => .error (.stopped stop)

def asText (expected : Expected) : Node → Except Fault String
  | .text (some s) => .ok s
  | node => .error (misfit expected node)

def asBoolean : Node → Except Fault Bool
  | .boolean b => .ok b
  | node => .error (misfit .boolean node)

/-- A whole number of at most sixty-four bits without a sign. -/
def asCount (node : Node) : Except Fault Nat :=
  match node with
  | .number n =>
    match n.value with
    | .natural n => .ok n
    | .negative n => .error (.data (.negativeCount (-Int.ofNat n)))
    | _ => .error (misfit .count node)
  | _ => .error (misfit .count node)

/-- Nothing for null, and the node itself otherwise. -/
def asOption : Node → Except Fault (Option Node)
  | .null => .ok none
  | node => .ok (some node)

/-- The elements of a list. Where nothing may be nested there can be no list at all. -/
def asItems : Nat → Node → Except Fault (List Node × Except Fault Unit)
  | 0, .array _ _ => .error malformed
  | _ + 1, .array items stop => .ok (items, closing stop)
  | _, node => .error (misfit .sequence node)

/-- The members of an object, or a list of fields. -/
def asRecord (room : Nat) (name : String) :
    Node → Except Fault (Contents (Except Fault) Node)
  | .object members stop =>
    if room = 0 then .error malformed else .ok (.named members (closing stop))
  | .array items stop =>
    if room = 0 then .error malformed else .ok (.positional items (closing stop))
  | node => .error (misfit (.record name) node)

def asKey : Node → Except Fault String
  | .text (some s) => .ok s
  | .broken how begun => .error (if begun then malformed else .stopped how.wanted)
  | _ => .error malformed

/-- What is passed over has to be whole. -/
def asSkipped : Node → Except Fault Unit
  | .array _ stop => closing stop
  | .object _ stop => closing stop
  | .broken how _ => .error (.stopped how.passed)
  | _ => .ok ()

/-- One of several words, by itself or as the key of an object with a single null in it. -/
def asVariant {α : Type} (room : Nat) (known : List (String × α)) : Node → Except Fault α
  | .text (some s) => resolve s
  | .object members stop =>
    if room = 0 then .error malformed
    else match members with
    | [] => .error malformed
    | (key, content) :: more => do
      let a ← resolve (← asText .variant key)
      match content with
      | .null => do
        if more.isEmpty then closing stop else .error malformed
        pure a
      | other => .error (misfit .unit other)
  | .broken how begun => .error (if begun then malformed else .stopped how.wanted)
  | _ => .error malformed
where
  resolve (s : String) : Except Fault α :=
    match known.lookup s with
    | some a => .ok a
    | none => .error (.data (.unknownVariant s (known.map (·.1))))

def source : Source (Except Fault) Node where
  fail mismatch := .error (.data mismatch)
  text := asText
  boolean := asBoolean
  count := asCount
  variant := asVariant
  optional := asOption
  items := asItems
  record := asRecord
  surplus := .error malformed
  key := asKey
  skip := asSkipped

/-- The data that a text holds: what `readData` makes of its tree, with nothing but white space
behind it. -/
def decode {α : Type} (readData : Source (Except Fault) Node → Nat → Node → Except Fault α)
    (text : String) : Except Fault α :=
  let (node, rest) := read text.toList
  match readData source nesting node with
  | .error fault => .error fault
  | .ok value =>
    match rest with
    | .error stop => .error (.stopped stop)
    | .ok rest => if (skipSpace rest).isEmpty then .ok value else .error malformed

end StubListing.Json
