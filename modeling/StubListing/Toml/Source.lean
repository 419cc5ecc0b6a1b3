import StubListing.Toml.Reader
import StubListing.Decode.Source
import StubListing.Decimal.Text
import StubListing.Text.Quoted
/-!
# Data in TOML

How the tables of a TOML text answer the questions of a reader. The whole text has to be TOML
before any of it is looked at. There is nothing like null, so what is written is there; a time is
found as an object where something else is wanted.
-/
namespace StubListing.Toml
open StubListing.Decode

/-- Why a text does not give the data that is wanted. -/
inductive Fault where
  | malformed
  | data (mismatch : Mismatch)
  deriving DecidableEq, Repr

/-- A node as it is found where something else is wanted. -/
def Node.found : Node → Found
  | .text s => .text (Text.quotedText s)
  | .integer n => .integer n
  | .double x => .floating (Decimal.text .positional x)
  | .boolean b => .boolean b
  | .time => .mapping
  | .list _ => .sequence
  | .table _ _ => .mapping
  | .tables _ => .sequence

def misfit {α : Type} (expected : Expected) (node : Node) : Except Fault α :=
  .error (.data (.wrongType node.found expected))

def asText (expected : Expected) : Node → Except Fault String
  | .text s => .ok s
  | node => misfit expected node

def asBoolean : Node → Except Fault Bool
  | .boolean b => .ok b
  | node => misfit .boolean node

/-- A whole number that is not negative. -/
def asCount : Node → Except Fault Nat
  | .integer n => if n < 0 then .error (.data (.negativeCount n)) else .ok n.toNat
  | node => misfit .count node

def asItems : Node → Except Fault (List Node × Except Fault Unit)
  | .list items => .ok (items, .ok ())
  | .tables all => .ok (all.map (.table .header), .ok ())
  | node => misfit .sequence node

/-- The members of a table, each under its key as a text. -/
def asRecord (name : String) : Node → Except Fault (Contents (Except Fault) Node)
  | .table _ members => .ok (.named (members.map fun p => (.text p.1, p.2)) (.ok ()))
  | node => misfit (.record name) node

def asVariant {α : Type} (known : List (String × α)) (node : Node) : Except Fault α :=
  match node with
  | .text s => match known.lookup s with
    | some a => .ok a
    | none => .error (.data (.unknownVariant s (known.map (·.1))))
  | node => misfit .variant node

def source : Source (Except Fault) Node where
  fail mismatch := .error (.data mismatch)
  text := asText
  boolean := asBoolean
  count := asCount
  variant _ := asVariant
  optional node := .ok (some node)
  items _ := asItems
  record _ := asRecord
  surplus := .error .malformed
  key := asText .text
  skip _ := .ok ()

/-- The data that a text holds: what `readData` makes of its table. -/
def decode {α : Type} (readData : Source (Except Fault) Node → Nat → Node → Except Fault α)
    (text : String) : Except Fault α :=
  match read text.toList with
  | none => .error .malformed
  | some members => readData source depthLimit (.table .header members)

end StubListing.Toml
