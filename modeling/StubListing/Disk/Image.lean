import StubListing.Disk.Basic
import StubListing.Json.Node
import StubListing.Json.Value
import StubListing.Text.Hex
import StubListing.Text.Join
import StubListing.Path
/-!
# Trees in writing

A tree as one JSON object, to be handed over or looked at. There is a member for every place
below the home directory, with the path from there as its key: null for a directory, whose key
ends in a slash, the content of a file, or the target of a link. Content that is no text is
written in hexadecimal digits.
-/
namespace StubListing
open StubListing.Json

def contentValue (content : ByteArray) : Value :=
  match String.fromUTF8? content with
  | some text => .object [("text", .text text)]
  | none => .object [("hex", .text (Text.hexText content.toList))]

namespace Entry

/-- What comes behind the path in the key of an entry. -/
def keyEnd : Entry → String
  | .directory => "/"
  | _ => ""

/-- An entry in writing. -/
def value : Entry → Value
  | .directory => .null
  | .file content => contentValue content
  | .link target => .object [("link", .text target)]

/-- The entry that is written so. -/
def ofNode? : Node → Option Entry
  | .null => some .directory
  | .object [(.text (some kind), .text (some given))] none =>
    if kind = "text" then some (.file given.toUTF8)
    else if kind = "hex" then
      (Text.hexBytes? given.toList).map fun bytes => .file ⟨bytes.toArray⟩
    else if kind = "link" then some (.link given)
    else none
  | _ => none

end Entry

namespace Disk

/-- The tree below the home directory in writing. -/
def value (d : Disk) : Value :=
  .object (d.entries.filterMap fun (place, e) =>
    if d.home.isPrefixOf place ∧ place ≠ d.home then
      some (Text.joined "/" (place.drop d.home.length) ++ e.keyEnd, e.value)
    else none)

/-- The entry that a member writes, with its place. -/
def entryOfMember? : Node × Node → Option (Location × Entry)
  | (.text (some key), node) =>
    (Entry.ofNode? node).map fun e => ((Path.segmentsOf key).filter (· ≠ ""), e)
  | _ => none

/-- The tree that is written so, with the top as its home directory. -/
def ofNode? : Node → Option Disk
  | .object members none => (members.mapM entryOfMember?).map fun entries => ⟨entries, []⟩
  | _ => none

end Disk

end StubListing
