import StubListing.Decode.Mismatch
/-!
# Where data is read from

The same records are read from several notations. What a notation has to offer is listed here:
how its nodes answer the questions of a reader, and in which monad the answers come. Lists and
objects are handed out together with a closing check, since a text may break off after an
element that was still in order; the check is made once the elements have been read.
-/
namespace StubListing.Decode

/-- A record as it is written: by the names of its fields, or by their positions. -/
inductive Contents (m : Type → Type) (N : Type) where
  | named (members : List (N × N)) (close : m Unit)
  | positional (items : List N) (close : m Unit)

/-- The answers of a notation with nodes of type `N`. For a list, a record and a word the number of
levels that may still be nested is given with the node. Where it is none, a list or a record that
holds something is an error; it depends on the notation whether an empty one is. `surplus` is the
error of an element too many. -/
structure Source (m : Type → Type) (N : Type) where
  fail : {α : Type} → Mismatch → m α
  text : Expected → N → m String
  boolean : N → m Bool
  count : N → m Nat
  variant : {α : Type} → Nat → List (String × α) → N → m α
  optional : N → m (Option N)
  items : Nat → N → m (List N × m Unit)
  record : Nat → String → N → m (Contents m N)
  surplus : {α : Type} → m α
  key : N → m String
  skip : N → m Unit

namespace Source

variable {m : Type → Type} [Monad m] {N α : Type}

/-- Nothing, or what the reader makes of the node. -/
def optionOf (source : Source m N) (read : N → m α) (node : N) : m (Option α) := do
  match ← source.optional node with
  | none => pure none
  | some inner => do pure (some (← read inner))

/-- The elements of a list, first to last. -/
def elements (source : Source m N) (room : Nat) (read : N → m α) (node : N) : m (List α) := do
  let (items, close) ← source.items room node
  let values ← items.mapM read
  close
  pure values

/-- A list whose elements may themselves be nested. Where nothing may be nested there are no
elements. -/
def listOf (source : Source m N) (read : Nat → N → m α) (room : Nat) : N → m (List α) :=
  source.elements room (match room with
    | 0 => fun _ => source.surplus
    | room + 1 => read room)

end Source

end StubListing.Decode
