import StubListing.Yaml.Tree
/-!
# Names in YAML documents

A mention stands for the node that was given the name before. Names are numbered: a node gets as
its number how many different names there were before it, and a mention takes the number that its
name has at that place. A name given again can so come to share its number with another one. The
node begun last under a number is the one that is meant.
-/
namespace StubListing.Yaml

/-- A node whose mentions are numbered. `void` is the content of a text without a document. -/
inductive Node where
  | void
  | scalar (tag : Option String) (text : String) (style : Style)
  | mention (number : Nat)
  | list (tag : Option String) (items : List Node)
  | object (tag : Option String) (members : List (Node × Node))
  deriving Inhabited

/-- A node under its number; `order` counts named nodes by their beginnings. -/
structure Binding where
  number : Nat
  order : Nat
  node : Node
  deriving Inhabited

/-- The names so far with their numbers, each name once, how many nodes have been named, and the
nodes that are complete. -/
structure Names where
  numbers : List (String × Nat)
  begun : Nat
  bindings : List Binding
  deriving Inhabited

namespace Names

def none : Names := ⟨[], 0, []⟩

/-- The names when a node with that property begins, and its number and order if it is named. -/
def begin (names : Names) (p : Property) : Names × Option (Nat × Nat) :=
  match p.name with
  | Option.none => (names, Option.none)
  | some name =>
    let number := names.numbers.length
    ({ names with
        numbers := (name, number) :: names.numbers.filter fun x => x.1 ≠ name
        begun := names.begun + 1 },
      some (number, names.begun))

/-- The names when a node is complete. -/
def complete (names : Names) (place : Option (Nat × Nat)) (node : Node) : Names :=
  match place with
  | Option.none => names
  | some (number, order) => { names with bindings := ⟨number, order, node⟩ :: names.bindings }

end Names

mutual

/-- Number the mentions of a tree. Nothing is returned if a name is unknown. -/
def Tree.numbered : Tree → Names → Option (Node × Names)
  | .scalar p text style, names =>
    let node := Node.scalar p.tag text style
    let (names, place) := names.begin p
    some (node, names.complete place node)
  | .mention name, names => do pure (.mention (← names.numbers.lookup name), names)
  | .list p items, names => do
    let (names, place) := names.begin p
    let (items, names) ← Tree.numberedItems items names
    let node := Node.list p.tag items
    pure (node, names.complete place node)
  | .object p members, names => do
    let (names, place) := names.begin p
    let (members, names) ← Tree.numberedMembers members names
    let node := Node.object p.tag members
    pure (node, names.complete place node)

def Tree.numberedItems : List Tree → Names → Option (List Node × Names)
  | [], names => some ([], names)
  | tree :: rest, names => do
    let (node, names) ← tree.numbered names
    let (nodes, names) ← Tree.numberedItems rest names
    pure (node :: nodes, names)

def Tree.numberedMembers : List (Tree × Tree) → Names → Option (List (Node × Node) × Names)
  | [], names => some ([], names)
  | (key, value) :: rest, names => do
    let (key, names) ← key.numbered names
    let (value, names) ← value.numbered names
    let (members, names) ← Tree.numberedMembers rest names
    pure ((key, value) :: members, names)

end

mutual

/-- The size of a node: texts and mentions count once, lists and objects twice. -/
def Node.size : Node → Nat
  | .list _ items => 2 + Node.sizeItems items
  | .object _ members => 2 + Node.sizeMembers members
  | _ => 1

def Node.sizeItems : List Node → Nat
  | [] => 0
  | node :: rest => node.size + Node.sizeItems rest

def Node.sizeMembers : List (Node × Node) → Nat
  | [] => 0
  | (key, value) :: rest => key.size + value.size + Node.sizeMembers rest

end

/-- A document: its node, and the nodes that are mentioned in it. -/
structure Document where
  root : Node
  bindings : List Binding
  deriving Inhabited

namespace Document

def later (a : Option Binding) (b : Binding) : Option Binding :=
  match a with
  | none => some b
  | some a => if a.order < b.order then some b else some a

def find? (d : Document) (number : Nat) : Option Node :=
  ((d.bindings.filter fun b => b.number = number).foldl later none).map (·.node)

def ofText? (text : List Char) : Option Document := do
  match ← document (← tokens text) with
  | none => pure ⟨.void, []⟩
  | some tree => do
    let (root, names) ← tree.numbered .none
    pure ⟨root, names.bindings⟩

end Document

end StubListing.Yaml
