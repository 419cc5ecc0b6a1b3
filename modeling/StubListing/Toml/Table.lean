/-!
# Tables in TOML

A document fills one tree of tables from headers and from dotted keys, and the same table may be
named several times on the way. What may be added to a table depends on how it came to be, so
every table remembers that. Members stay in the order in which they were first named.
-/
namespace StubListing.Toml

/-- How a table came to be: by a header of its own, on the way to the table of a header, by a
dotted key, or in braces. -/
inductive Form where
  | header
  | passed
  | dotted
  | braces
  deriving DecidableEq, Repr

/-- A value or a table. `tables` are the tables that headers in double brackets make. -/
inductive Node where
  | text (value : String)
  | integer (value : Int)
  | double (value : Float)
  | boolean (value : Bool)
  | time
  | list (items : List Node)
  | table (form : Form) (members : List (String × Node))
  | tables (all : List (List (String × Node)))
  deriving Inhabited

abbrev Members := List (String × Node)

/-- The members with another value in place of the key's. -/
def Members.replaced (key : String) (node : Node) : Members → Members
  | [] => []
  | (k, x) :: rest => if k = key then (k, node) :: rest else (k, x) :: replaced key node rest

def Members.without (key : String) (members : Members) : Members :=
  members.filter fun p => p.1 ≠ key

/-- Change the table at the end of a path. Missing tables on the way are made. A dotted key does
not enter a table that has a header of its own. Of several tables under one key the last one is
meant. -/
def atTable {γ : Type} (dotted : Bool) (act : Form → Members → Option (γ × Members)) :
    List String → Form → Members → Option (γ × Members)
  | [], form, members => act form members
  | key :: path, _, members =>
    match members.lookup key with
    | none => do
      let form := if dotted then Form.dotted else .passed
      let (out, inner) ← atTable dotted act path form []
      pure (out, members ++ [(key, .table form inner)])
    | some (.table form inner) =>
      if form = .braces ∨ (dotted ∧ form = .header) then none
      else do
        let (out, inner) ← atTable dotted act path form inner
        pure (out, members.replaced key (.table form inner))
    | some (.tables all) => do
      let (out, inner) ← atTable dotted act path .header (all.getLast?.getD [])
      pure (out, members.replaced key (.tables (all.dropLast ++ [inner])))
    | some _ => none

/-- Add a value under a dotted key, given as the path to its table and its last name. -/
def addValue (path : List String) (key : String) (node : Node) (form : Form)
    (members : Members) : Option Members :=
  (atTable true (fun form inner =>
    if path ≠ [] ∧ form ≠ .dotted then none
    else if (inner.lookup key).isSome then none
    else some ((), inner ++ [(key, node)])) path form members).map (·.2)

/-- The document as far as it has been read: the finished tables, and the one that key lines are
added to, with its header. An empty path is the table before all headers. -/
structure Draft where
  finished : Members
  path : List String
  key : String
  repeated : Bool
  top : Bool
  current : Members

namespace Draft

def empty : Draft := ⟨[], [], "", false, true, []⟩

/-- Put the current table into its place. -/
def close (d : Draft) : Option Members :=
  if d.top then some d.current
  else (atTable false (fun _ inner =>
    match d.repeated, inner.lookup d.key with
    | true, none => some ((), inner ++ [(d.key, .tables [d.current])])
    | true, some (.tables all) =>
      some ((), inner.replaced d.key (.tables (all ++ [d.current])))
    | false, none => some ((), inner ++ [(d.key, .table .header d.current)])
    | _, _ => none) d.path .header d.finished).map (·.2)

/-- Begin the table of a header. A table passed on the way to others is continued, and moves
behind its neighbours. -/
def openTable (d : Draft) (path : List String) (key : String) : Option Draft := do
  let (current, finished) ← atTable false (fun _ inner =>
    match inner.lookup key with
    | none => some ([], inner)
    | some (.table .passed members) => some (members, inner.without key)
    | some _ => none) path .header (← d.close)
  pure ⟨finished, path, key, false, false, current⟩

/-- Begin one of several tables under one key. -/
def openRepeated (d : Draft) (path : List String) (key : String) : Option Draft := do
  let (_, finished) ← atTable false (fun _ inner =>
    match inner.lookup key with
    | none => some ((), inner ++ [(key, .tables [])])
    | some (.tables _) => some ((), inner)
    | some _ => none) path .header (← d.close)
  pure ⟨finished, path, key, true, false, []⟩

/-- Add what a key line says to the current table. -/
def add (d : Draft) (path : List String) (key : String) (node : Node) : Option Draft := do
  let current ← addValue path key node .header d.current
  pure { d with current }

end Draft

end StubListing.Toml
