import StubListing.Text.Split
import StubListing.Text.Join
/-!
# Paths

A path is kept as the text it was given, because messages show it so, and is read as the
segments between its slashes. Empty segments and dots that are not in front mean nothing, so
several texts name one path: `sameAs` compares what they mean. A path is absolute when its first
segment is empty and another follows.
-/
namespace StubListing

/-- A path by its text. -/
structure Path where
  text : String
  deriving DecidableEq, Repr, Inhabited

namespace Path
open StubListing.Text

inductive Component where
  | root
  | here
  | up
  | name (name : String)
  deriving DecidableEq, Repr

/-- What lies between the slashes of a text. -/
def segmentsOf (text : String) : List String := (pieces '/' text.toList).map String.ofList

/-- What lies between the slashes. -/
def segments (p : Path) : List String := segmentsOf p.text

def isAbsolute (p : Path) : Bool := p.text.toList.head? == some '/'

/-- Segments that lead nowhere, unless they stand in front. -/
def isIdle (segment : String) : Bool := segment.isEmpty || segment == "."

/-- The segments without idle ones at the end; the first segment always stays. -/
def trimmed (segments : List String) : List String :=
  match segments with
  | [] => []
  | first :: rest => first :: (rest.reverse.dropWhile isIdle).reverse

/-- The path spelt by segments of an absolute or a relative path. -/
def ofSegments (absolute : Bool) (segments : List String) : Path :=
  if absolute && segments == [""] then ⟨"/"⟩ else ⟨joined "/" segments⟩

/-- The step that a segment behind the first one makes. -/
def stepOf (segment : String) : Component := if segment == ".." then .up else .name segment

def components (p : Path) : List Component :=
  match p.segments with
  | [] => []
  | first :: rest =>
    let start :=
      if p.isAbsolute then [.root]
      else if first.isEmpty then []
      else if first == "." then [.here]
      else [stepOf first]
    start ++ (rest.filter fun s => !isIdle s).map stepOf

/-- The two texts name the same path. -/
def sameAs (p q : Path) : Bool := p.components == q.components

/-- The path one level up, for a path that ends in a step other than the root. -/
def parent? (p : Path) : Option Path :=
  match trimmed p.segments with
  | [] => none
  | [only] => if only.isEmpty then none else some ⟨""⟩
  | first :: rest => some (ofSegments p.isAbsolute (trimmed (first :: rest.dropLast)))

/-- The path and all paths above it, the path first. -/
def ancestors (p : Path) : List Path := go (p.segments.length + 1) p
where
  /-- At most `n` levels. -/
  go : Nat → Path → List Path
    | 0, _ => []
    | n + 1, p => p :: (match p.parent? with
      | none => []
      | some above => go n above)

/-- The name at the end of the path, if it ends in a name. -/
def fileName? (p : Path) : Option String :=
  match p.components.getLast? with
  | some (.name name) => some name
  | _ => none

/-- What follows the last dot of a file name. A dot in front does not count when it is the only
one. -/
def extensionOf? (name : String) : Option String :=
  let reversed := name.toList.reverse
  let tail := reversed.takeWhile (· != '.')
  let stem := (reversed.dropWhile (· != '.')).drop 1
  if stem.isEmpty then none else some (String.ofList tail.reverse)

/-- The extension of the last name of the path. -/
def extension? (p : Path) : Option String := p.fileName?.bind extensionOf?

/-- The path of something inside the directory: an absolute name stands on its own, and a slash
is put between unless there is one. -/
def join (p : Path) (name : String) : Path :=
  if name.toList.head? == some '/' then ⟨name⟩
  else if p.text.isEmpty || p.text.toList.getLast? == some '/' then ⟨p.text ++ name⟩
  else ⟨p.text ++ "/" ++ name⟩

/-- What is left of the segments after so many steps. -/
def afterSteps : Nat → List String → List String
  | 0, segments => segments.dropWhile isIdle
  | n + 1, segments => afterSteps n ((segments.dropWhile isIdle).drop 1)

/-- The rest of the path below `base`, if `base` is an initial part of it. -/
def below? (base p : Path) : Option Path :=
  if base.components.isPrefixOf p.components then
    match base.components.length, trimmed p.segments with
    | 0, segments => some (ofSegments p.isAbsolute segments)
    | n + 1, segments => some (ofSegments false (afterSteps n (segments.drop 1)))
  else none

/-- The place of a step in the order of steps. -/
def Component.rank : Component → Nat
  | .root => 0
  | .here => 1
  | .up => 2
  | .name _ => 3

/-- The order of steps: names by their characters, after everything else. -/
def Component.before (a b : Component) : Bool :=
  match a, b with
  | .name s, .name t => s < t
  | _, _ => a.rank < b.rank

/-- The order of paths, step by step; a path comes before those inside it. -/
def notAfter : List Component → List Component → Bool
  | [], _ => true
  | _ :: _, [] => false
  | a :: p, b :: q => if a.before b then true else if a = b then notAfter p q else false

/-- A name that can stand for a single file or directory: not empty, no dot or pair of dots, and
without slash, backslash and the null character. -/
def isFileName (name : String) : Bool :=
  !name.isEmpty && name != "." && name != ".." &&
    name.toList.all fun c => c != '/' && c != '\\' && c != '\x00'

end Path

end StubListing
