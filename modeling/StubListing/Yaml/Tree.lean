import StubListing.Yaml.Token
/-!
# Trees of YAML

The tokens of a text make up one document: a tree of texts, lists and objects, in which other
nodes may be mentioned by name. Indented and bracketed notation give the same trees. Where nothing
is written an empty text without quotes stands.
-/
namespace StubListing.Yaml

/-- The name and the tag of a node. -/
structure Property where
  name : Option String
  tag : Option String
  deriving DecidableEq, Repr, Inhabited

def Property.none : Property := ⟨.none, .none⟩

inductive Tree where
  | scalar (property : Property) (text : String) (style : Style)
  | mention (name : String)
  | list (property : Property) (items : List Tree)
  | object (property : Property) (members : List (Tree × Tree))
  deriving Inhabited

/-- What stands where nothing is written. -/
def Tree.empty : Tree := .scalar .none "" .plain

/-- What the handles of tags stand for. -/
abbrev Handles := List (String × String)

/-- The handles that need no directive. -/
def standardHandles : Handles := [("!", "!"), ("!!", "tag:yaml.org,2002:")]

/-- The tag that a spelling stands for. -/
def TagSpelling.resolve (handles : Handles) (t : TagSpelling) : Option String :=
  if t.handle.isEmpty then some t.suffix
  else (handles.lookup t.handle).map fun meaning => meaning ++ t.suffix

/-- The name and the tag in front of a node, in either order. -/
def property (handles : Handles) (tokens : List Token) : Option (Property × List Token) :=
  match tokens with
  | .name name :: .tag tag :: rest => do pure (⟨some name, some (← tag.resolve handles)⟩, rest)
  | .tag tag :: .name name :: rest => do pure (⟨some name, some (← tag.resolve handles)⟩, rest)
  | .name name :: rest => some (⟨some name, .none⟩, rest)
  | .tag tag :: rest => do pure (⟨.none, some (← tag.resolve handles)⟩, rest)
  | rest => some (.none, rest)

/-- The property of a text: an exclamation mark alone is no tag there. -/
def Property.ofScalar (p : Property) : Property :=
  if p.tag = some "!" then { p with tag := .none } else p

/-- The token begins nothing in an indented object. -/
def endsMember : List Token → Bool
  | .key :: _ => true
  | .value :: _ => true
  | .blockEnd :: _ => true
  | _ => false

/-- The token begins nothing in an indented list; `loose` says that the list is not indented
further than the object it is in. -/
def endsElement (loose : Bool) : List Token → Bool
  | .dash :: _ => true
  | .blockEnd :: _ => true
  | .key :: _ => loose
  | .value :: _ => loose
  | _ => false

/-- The token begins nothing in brackets closed by `close`. -/
def endsPart (close : Token) : List Token → Bool
  | .comma :: _ => true
  | t :: _ => t = close
  | [] => false

mutual

/-- The node at the front. `indented` says that indented notation may be used, and `loose` that a
list may stand here without further indentation. -/
def node (handles : Handles) : Nat → Bool → Bool → List Token → Option (Tree × List Token)
  | 0, _, _, _ => none
  | _ + 1, _, _, .mention name :: rest => some (.mention name, rest)
  | n + 1, indented, loose, tokens => do
    let (p, rest) ← property handles tokens
    match rest with
    | .scalar text style :: rest => pure (.scalar p.ofScalar text style, rest)
    | .listOpen :: rest => do
      let (items, rest) ← bracketItems handles n true rest
      pure (.list p items, rest)
    | .objectOpen :: rest => do
      let (members, rest) ← bracketMembers handles n true rest
      pure (.object p members, rest)
    | .dash :: more =>
      if loose then do
        let (items, rest) ← blockItems handles n true (.dash :: more)
        pure (.list p items, rest)
      else nothing p (.dash :: more)
    | .blockList :: more =>
      if indented then do
        let (items, rest) ← blockItems handles n false more
        pure (.list p items, rest)
      else nothing p (.blockList :: more)
    | .blockObject :: more =>
      if indented then do
        let (members, rest) ← blockMembers handles n more
        pure (.object p members, rest)
      else nothing p (.blockObject :: more)
    | rest => nothing p rest

/-- A node of which only name or tag are written. -/
def nothing (p : Property) (rest : List Token) : Option (Tree × List Token) :=
  if p = .none then .none else some (.scalar p "" .plain, rest)

def blockItems (handles : Handles) : Nat → Bool → List Token → Option (List Tree × List Token)
  | 0, _, _ => none
  | n + 1, loose, .dash :: rest => do
    let (item, rest) ← if endsElement loose rest then pure (Tree.empty, rest)
      else node handles n true false rest
    let (items, rest) ← blockItems handles n loose rest
    pure (item :: items, rest)
  | _ + 1, true, rest => some ([], rest)
  | _ + 1, false, .blockEnd :: rest => some ([], rest)
  | _ + 1, false, _ => none

def blockMembers (handles : Handles) : Nat → List Token → Option (List (Tree × Tree) × List Token)
  | 0, _ => none
  | _ + 1, .blockEnd :: rest => some ([], rest)
  | n + 1, .key :: rest => do
    let (key, rest) ← if endsMember rest then pure (Tree.empty, rest)
      else node handles n true true rest
    let (value, rest) ← blockValue handles n rest
    let (members, rest) ← blockMembers handles n rest
    pure ((key, value) :: members, rest)
  | _ + 1, _ => none

def blockValue (handles : Handles) : Nat → List Token → Option (Tree × List Token)
  | 0, _ => none
  | n + 1, .value :: rest =>
    if endsMember rest then some (Tree.empty, rest) else node handles n true true rest
  | _ + 1, rest => some (Tree.empty, rest)

/-- The elements of a list in brackets. An element may be an object of one member without
brackets of its own. -/
def bracketItems (handles : Handles) : Nat → Bool → List Token →
    Option (List Tree × List Token)
  | 0, _, _ => none
  | n + 1, first, tokens =>
    match tokens with
    | .listClose :: rest => some ([], rest)
    | tokens => do
      let tokens ← if first then pure tokens else afterComma tokens
      match tokens with
      | .listClose :: rest => pure ([], rest)
      | .key :: rest => do
        let (key, rest) ← if endsPart .listClose rest || beginsValue rest then
            pure (Tree.empty, rest.drop 1)
          else node handles n false false rest
        let (value, rest) ← bracketValue handles n .listClose rest
        let (items, rest) ← bracketItems handles n false rest
        pure (.object .none [(key, value)] :: items, rest)
      | tokens => do
        let (item, rest) ← node handles n false false tokens
        let (items, rest) ← bracketItems handles n false rest
        pure (item :: items, rest)

/-- The members of an object in brackets. A key may stand without a value. -/
def bracketMembers (handles : Handles) : Nat → Bool → List Token →
    Option (List (Tree × Tree) × List Token)
  | 0, _, _ => none
  | n + 1, first, tokens =>
    match tokens with
    | .objectClose :: rest => some ([], rest)
    | tokens => do
      let tokens ← if first then pure tokens else afterComma tokens
      match tokens with
      | .objectClose :: rest => pure ([], rest)
      | .key :: rest => do
        let (key, rest) ← if endsPart .objectClose rest || beginsValue rest then
            pure (Tree.empty, rest)
          else node handles n false false rest
        let (value, rest) ← bracketValue handles n .objectClose rest
        let (members, rest) ← bracketMembers handles n false rest
        pure ((key, value) :: members, rest)
      | tokens => do
        let (key, rest) ← node handles n false false tokens
        let (members, rest) ← bracketMembers handles n false rest
        pure ((key, Tree.empty) :: members, rest)

/-- The value of a member in brackets closed by `close`. -/
def bracketValue (handles : Handles) : Nat → Token → List Token → Option (Tree × List Token)
  | 0, _, _ => none
  | n + 1, close, .value :: rest =>
    if endsPart close rest then some (Tree.empty, rest) else node handles n false false rest
  | _ + 1, _, rest => some (Tree.empty, rest)

/-- The tokens behind a comma. -/
def afterComma : List Token → Option (List Token)
  | .comma :: rest => some rest
  | _ => none

/-- The next token is a colon. -/
def beginsValue : List Token → Bool
  | .value :: _ => true
  | _ => false

end

/-- The handles that directives in front of a document give, added to those so far, and whether
the version has been told. -/
def directives : Bool → Handles → List Token → Option (Handles × List Token)
  | told, handles, .directive (.version major minor) :: rest =>
    if told || major ≠ 1 || (minor ≠ 1 && minor ≠ 2) then none else directives true handles rest
  | told, handles, .directive (.handle handle meaning) :: rest =>
    if (handles.lookup handle).isSome then none
    else directives told ((handle, meaning) :: handles) rest
  | _, handles, rest => some (handles, rest)

/-- The token ends the content of a document. -/
def endsDocument : List Token → Bool
  | .directive _ :: _ => true
  | .documentStart :: _ => true
  | .documentEnd :: _ => true
  | .textEnd :: _ => true
  | _ => false

/-- Nothing but ends of the document is left. -/
def isOver (tokens : List Token) : Bool :=
  tokens.dropWhile (· = .documentEnd) = [.textEnd]

/-- The only document of a text. The inner nothing is a text without any. -/
def document (tokens : List Token) : Option (Option Tree) := do
  let fuel := 3 * tokens.length + 3
  match tokens with
  | [.textEnd] => pure none
  | _ => do
    let (handles, rest) ← directives false [] tokens
    let marked := match tokens with
      | .directive _ :: _ => true
      | .documentStart :: _ => true
      | _ => false
    let handles := handles ++ standardHandles
    let (tree, rest) ←
      if marked then
        match rest with
        | .documentStart :: rest =>
          if endsDocument rest then some (Tree.empty, rest) else node handles fuel true false rest
        | _ => none
      else node handles fuel true false rest
    if isOver rest then pure (some tree) else none

end StubListing.Yaml
