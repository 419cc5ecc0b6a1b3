import StubListing.Json.Numeral
/-!
# What a JSON text says

The tree of a text as far as it can be read. Where reading stops inside a list or an object, the
elements before that place are still there and the node says how it broke off. So a reader of
the tree meets its own objections and those of the text in the order of the text. Two faults are
no matter of the text but of who reads it: a text with an unpaired surrogate and a number out of
range may be passed over, but not be used.
-/
namespace StubListing.Json

/-- A value, whole or broken off. A member's key is a value as well, since reading stops behind
whatever stands in its place. `broken` is a value that could not be read; `begun` says that it
is the beginning of a word or a number. -/
inductive Node where
  | null
  | boolean (value : Bool)
  | number (spelling : Numeral)
  | text (value : Option String)
  | array (items : List Node) (stop : Option Stop)
  | object (members : List (Node × Node)) (stop : Option Stop)
  | broken (how : Break) (begun : Bool)
  deriving Inhabited

end StubListing.Json
