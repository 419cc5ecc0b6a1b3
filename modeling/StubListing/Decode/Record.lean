import StubListing.Decode.Source
/-!
# Reading records

A record is described by the names of its fields, which of them must be there, and how each one
is filled in. Reading goes through the members in the order of the text. Members of other names
are passed over, a second member of one name is refused before its value is looked at, and what
is missing is told at the end, in the order of the description. A record written by position
gives its fields in that same order and may leave off optional ones at its end.
-/
namespace StubListing.Decode

/-- A field of a record under construction. -/
structure Field (m : Type → Type) (N α : Type) where
  name : String
  required : Bool
  fill : N → α → m α

/-- The description of a record: its name in messages, its fields, and the record before any
field is filled in. -/
structure Schema (m : Type → Type) (N α : Type) where
  name : String
  fields : List (Field m N α)
  blank : α

namespace Schema

variable {m : Type → Type} [Monad m] {N α : Type}

/-- Fill in the members in order; `seen` are the names that have been filled in. -/
def fillNamed (source : Source m N) (fields : List (Field m N α)) :
    List (N × N) → List String → α → m (List String × α)
  | [], seen, draft => pure (seen, draft)
  | (key, value) :: rest, seen, draft => do
    let name ← source.key key
    match fields.find? fun f => f.name == name with
    | none => do
      source.skip value
      fillNamed source fields rest seen draft
    | some f =>
      if seen.contains name then source.fail (.repeatedField name)
      else do
        let draft ← f.fill value draft
        fillNamed source fields rest (name :: seen) draft

/-- Fill in the fields by position; `given` counts those that are there. -/
def fillPositional (source : Source m N) (schema : Schema m N α) :
    List (Field m N α) → Nat → List N → m Unit → α → m α
  | [], _, [], close, draft => do
    close
    pure draft
  | [], _, _ :: _, _, _ => source.surplus
  | f :: fields, given, [], close, draft => do
    close
    match (f :: fields).findIdx? fun f => f.required with
    | none => pure draft
    | some i => source.fail (.tooFew (given + i) schema.name schema.fields.length)
  | f :: fields, given, item :: items, close, draft => do
    let draft ← f.fill item draft
    fillPositional source schema fields (given + 1) items close draft

def read (source : Source m N) (room : Nat) (schema : Schema m N α) (node : N) : m α := do
  match ← source.record room schema.name node with
  | .named members close => do
    let (seen, value) ← fillNamed source schema.fields members [] schema.blank
    close
    match schema.fields.find? fun f => f.required && !seen.contains f.name with
    | none => pure value
    | some f => source.fail (.missingField f.name)
  | .positional items close => fillPositional source schema schema.fields 0 items close schema.blank

end Schema

end StubListing.Decode
