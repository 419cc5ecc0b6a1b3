import StubListing.Yaml.Node
import StubListing.Decode.Source
/-!
# Data in YAML

How the nodes of a YAML document answer the questions of a reader. Every text without quotes is
taken for what is wanted there. Where nothing is written, an empty list or object is found if one
is wanted. Mentions are followed wherever something is read, but only so many in all; what is
passed over is not looked at. Why a text does not give the data is not told.
-/
namespace StubListing.Yaml
open StubListing.Decode

/-- Reading, with the number of mentions that have been followed. -/
abbrev Reading (α : Type) := StateT Nat Option α

/-- How deep data may be nested. -/
def nesting : Nat := 128

/-- The number of mentions that may be followed. -/
def Document.mentionLimit (d : Document) : Nat := 100 * d.root.size

def refuse {α : Type} : Reading α := fun _ => none

/-- The node itself, or what it mentions. -/
def settle (d : Document) : Node → Reading Node
  | .mention number => do
    let followed ← get
    if d.mentionLimit ≤ followed then refuse
    else do
      set (followed + 1)
      match d.find? number with
      | some node => pure node
      | none => refuse
  | node => pure node

def isNullWord (text : String) : Bool := ["null", "Null", "NULL", "~"].contains text

def nullTag : String := "tag:yaml.org,2002:null"

def truthTag : String := "tag:yaml.org,2002:bool"

def isNothing : Node → Bool
  | .void => true
  | .scalar _ text .plain => text.isEmpty
  | _ => false

def asText (d : Document) (node : Node) : Reading String := do
  match ← settle d node with
  | .scalar _ text _ => pure text
  | _ => refuse

def truth? (text : String) : Option Bool :=
  if ["true", "True", "TRUE"].contains text then some true
  else if ["false", "False", "FALSE"].contains text then some false
  else none

def asBoolean (d : Document) (node : Node) : Reading Bool := do
  match ← settle d node with
  | .scalar tag text style =>
    if style = .plain ∨ (style = .bar ∧ tag = some truthTag) then
      match truth? text with
      | some value => pure value
      | none => refuse
    else refuse
  | _ => refuse

/-- Nothing for null, and the node otherwise. -/
def asOption (d : Document) (node : Node) : Reading (Option Node) := do
  match ← settle d node with
  | .void => pure none
  | .scalar none text .plain =>
    pure (if text.isEmpty || isNullWord text then none else some (.scalar none text .plain))
  | .scalar (some tag) text .plain =>
    if tag = nullTag then if isNullWord text then pure none else refuse
    else pure (some (.scalar (some tag) text .plain))
  | node => pure (some node)

def asItems (d : Document) (room : Nat) (node : Node) :
    Reading (List Node × Reading Unit) := do
  match ← settle d node with
  | .list _ items => if room = 0 then refuse else pure (items, pure ())
  | node => if isNothing node then pure ([], pure ()) else refuse

def asRecord (d : Document) (room : Nat) (node : Node) :
    Reading (Contents Reading Node) := do
  match ← settle d node with
  | .object _ members => if room = 0 then refuse else pure (.named members (pure ()))
  | node => if isNothing node then pure (.named [] (pure ())) else refuse

/-- The word that a tag of the document itself is. -/
def tagWord? (tag : String) : Option String :=
  match tag.toList with
  | ['!'] => some "!"
  | '!' :: rest => some (String.ofList rest)
  | _ => none

def meaning {α : Type} (known : List (String × α)) (word : String) : Reading α :=
  match known.lookup word with
  | some a => pure a
  | none => refuse

/-- One of several words, as a text or as the tag of a null. -/
def asVariant {α : Type} (d : Document) (known : List (String × α)) (node : Node) :
    Reading α := do
  match ← settle d node with
  | .scalar tag text style =>
    match tag.bind tagWord? with
    | none => meaning known text
    | some word => do
      let a ← meaning known word
      if style = .plain ∧ (text.isEmpty || isNullWord text) then pure a else refuse
  | _ => refuse

/-- The answers of a YAML document. There are no numbers in what is read from it. -/
def source (d : Document) : Source Reading Node where
  fail _ := refuse
  text _ := asText d
  boolean := asBoolean d
  count _ := refuse
  variant _ := asVariant d
  optional := asOption d
  items := asItems d
  record room _ := asRecord d room
  surplus := refuse
  key := asText d
  skip _ := pure ()

/-- The data that a text holds. -/
def decode {α : Type} (readData : Source Reading Node → Nat → Node → Reading α)
    (text : String) : Option α := do
  let d ← Document.ofText? text.toList
  let (value, _) ← (readData (source d) nesting d.root).run 0
  pure value

end StubListing.Yaml
