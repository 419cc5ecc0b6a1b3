import StubListing.Toml.Scalar
import StubListing.Toml.Table
/-!
# Reading TOML texts

A text is a sequence of lines: headers, key lines, comments and empty ones. Values may reach over
several lines and are nested up to a fixed depth. The result is the table of the whole document,
or nothing when the text is not TOML.
-/
namespace StubListing.Toml

/-- Lists and tables in braces are nested less deep than this, and a dotted key has fewer names. -/
def depthLimit : Nat := 80

/-! ## Keys -/

def isKeyChar (c : Char) : Bool :=
  ('a' ≤ c && c ≤ 'z') || ('A' ≤ c && c ≤ 'Z') || isDigit c || c = '_' || c = '-'

def keyName : List Char → Option (String × List Char)
  | '"' :: rest => basicText (rest.length + 1) rest []
  | '\'' :: rest => literalText rest
  | s =>
    let name := s.takeWhile isKeyChar
    if name.isEmpty then none else some (String.ofList name, s.dropWhile isKeyChar)

/-- The names of a dotted key, with white space around them. -/
def keyNames : Nat → List Char → Option (List String × List Char)
  | 0, _ => none
  | n + 1, s => do
    let (name, rest) ← keyName (skipGap s)
    match skipGap rest with
    | '.' :: rest => do
      let (names, rest) ← keyNames n rest
      pure (name :: names, rest)
    | rest => pure ([name], rest)

/-- A dotted key: the path to a table, and a name in it. -/
def key (s : List Char) : Option ((List String × String) × List Char) := do
  let (names, rest) ← keyNames (s.length + 1) s
  if depthLimit ≤ names.length then none
  else do
    let last ← names.getLast?
    pure ((names.dropLast, last), rest)

/-! ## Values -/

/-- The text without white space, line ends and comments in front. -/
def skipBetween : Nat → List Char → List Char
  | 0, s => s
  | n + 1, s =>
    match skipGap s with
    | '#' :: rest => skipBetween n (skipComment ('#' :: rest))
    | rest => match lineEnd? rest with
      | some rest => skipBetween n rest
      | none => rest

/-- The text between the elements of a list. -/
def skipAround (s : List Char) : List Char := skipBetween (s.length + 1) s

def numberOrTime (s : List Char) : Option (Node × List Char) :=
  match time s with
  | some rest => some (.time, rest)
  | none => (number s).map fun (n, rest) =>
    (match n with
      | .integer value => .integer value
      | .double value => .double value, rest)

/-- The text behind a word. -/
def word (expected : List Char) (node : Node) (s : List Char) : Option (Node × List Char) :=
  if expected.isPrefixOf s then some (node, s.drop expected.length) else none

mutual

/-- The value at the front of a text, `depth` levels inside others. -/
def value : Nat → Nat → List Char → Option (Node × List Char)
  | 0, _, _ => none
  | _, _, [] => none
  | n + 1, depth, c :: rest =>
    if c = '"' ∨ c = '\'' then (text (c :: rest)).map fun (s, rest) => (.text s, rest)
    else if c = '[' then
      if depthLimit ≤ depth + 1 then none
      else (items n (depth + 1) rest).map fun (items, rest) => (.list items, rest)
    else if c = '\x7b' then
      if depthLimit ≤ depth + 1 then none
      else match skipGap rest with
        | '\x7d' :: rest => some (.table .braces [], rest)
        | rest => (members n (depth + 1) rest []).map fun (members, rest) =>
          (.table .braces members, rest)
    else if c = 't' then word ['t', 'r', 'u', 'e'] (.boolean true) (c :: rest)
    else if c = 'f' then word ['f', 'a', 'l', 's', 'e'] (.boolean false) (c :: rest)
    else if c = '+' ∨ c = '-' ∨ c = 'i' ∨ c = 'n' ∨ isDigit c then numberOrTime (c :: rest)
    else none

/-- The elements of a list up to its closing bracket. -/
def items : Nat → Nat → List Char → Option (List Node × List Char)
  | 0, _, _ => none
  | n + 1, depth, s =>
    match skipAround s with
    | ']' :: rest => some ([], rest)
    | rest => do
      let (item, rest) ← value n depth rest
      match skipAround rest with
      | ',' :: rest => do
        let (more, rest) ← items n depth rest
        pure (item :: more, rest)
      | ']' :: rest => pure ([item], rest)
      | _ => none

/-- The members of a table in braces, at least one, added to those before. -/
def members : Nat → Nat → List Char → Members → Option (Members × List Char)
  | 0, _, _, _ => none
  | n + 1, depth, s, before => do
    let ((path, name), rest) ← key s
    let (item, rest) ← value n depth (skipGap (← behind '=' rest))
    let sofar ← addValue path name item .braces before
    match skipGap rest with
    | ',' :: rest => members n depth rest sofar
    | '\x7d' :: rest => pure (sofar, rest)
    | _ => none

end

/-! ## Lines -/

/-- The text behind the rest of a line, in which nothing but a comment may stand. -/
def lineRest (s : List Char) : Option (List Char) :=
  match skipComment (skipGap s) with
  | [] => some []
  | rest => lineEnd? rest

def header (d : Draft) (s : List Char) : Option (Draft × List Char) :=
  match s with
  | '[' :: rest => do
    let ((path, name), rest) ← key rest
    let rest ← lineRest (← behind ']' (← behind ']' rest))
    pure (← d.openRepeated path name, rest)
  | rest => do
    let ((path, name), rest) ← key rest
    let rest ← lineRest (← behind ']' rest)
    pure (← d.openTable path name, rest)

/-- A key line. -/
def keyLine (d : Draft) (s : List Char) : Option (Draft × List Char) := do
  let ((path, name), rest) ← key s
  let (node, rest) ← value (2 * s.length + 2) 0 (skipGap (← behind '=' rest))
  let rest ← lineRest rest
  pure (← d.add path name node, rest)

/-- The lines of a document, added to those before. -/
def lines : Nat → Draft → List Char → Option Draft
  | 0, _, _ => none
  | n + 1, d, s =>
    match skipGap s with
    | [] => some d
    | '#' :: rest => do lines n d (← lineRest ('#' :: rest))
    | '[' :: rest => do
      let (d, rest) ← header d rest
      lines n d rest
    | c :: rest =>
      if c = '\n' ∨ c = '\r' then do lines n d (← lineEnd? (c :: rest))
      else do
        let (d, rest) ← keyLine d (c :: rest)
        lines n d rest

/-- The table that a text describes. A byte-order mark in front is passed over. -/
def read (s : List Char) : Option Members := do
  let s := if s.head? = some '\ufeff' then s.drop 1 else s
  (← lines (s.length + 1) .empty s).close

end StubListing.Toml
