import StubListing.Disk.Resolve
import StubListing.Text.Ascii
/-!
# Listing directories

`listing` gives what is directly in a directory, links as they are. `filesBelow` gives the files at
any depth and follows links, also to directories; a link back to a directory that the walk came
through would never end and is an error. The walk meets everything in the order of names, so the
first error in that order is the answer.
-/
namespace StubListing

/-- Why a directory cannot be listed. -/
inductive WalkError where
  | system (path : Path) (error : SystemError)
  | loop (child ancestor : Path)
  deriving DecidableEq, Repr

/-- The wording in messages; the system's own words come twice. -/
def WalkError.message : WalkError → String
  | .system path e =>
    "IO error for operation on " ++ path.text ++ ": " ++ e.message ++ ": " ++ e.message
  | .loop child ancestor =>
    "File system loop found: " ++ child.text ++ " points to an ancestor " ++ ancestor.text

namespace Disk

/-- What is directly in a directory: files and links on one side, directories on the other. -/
structure Listing where
  files : List Path
  directories : List Path
  deriving DecidableEq, Repr, Inhabited

/-- What is directly in the directory that the path leads to, in the order of names. A file has
nothing in it. -/
def listing (d : Disk) (p : Path) : Except WalkError Listing :=
  match d.find p with
  | .error e => .error (.system p e)
  | .ok place =>
    match d.get? place with
    | some .directory =>
      let named := d.children place
      let paths (keep : Entry → Bool) :=
        (named.filter fun x => keep x.2).map fun x => p.join x.1
      .ok ⟨paths (· != .directory), paths (· == .directory)⟩
    | _ => .ok ⟨[], []⟩

/-- A directory that the walk is in: its path and its place. -/
abbrev Crumb := Path × Location

/-- The nearest directory on the way that is at the place. -/
def crumbAt? (trail : List Crumb) (place : Location) : Option Path :=
  (trail.find? fun crumb => crumb.2 = place).map (·.1)

mutual

/-- The files below what the path leads to; `linked` says that its last step is a link. A directory
is opened by its path, which may be too long for that; the path of a file is not looked at. -/
def filesAt (d : Disk) : Nat → List Crumb → Path → Location → Bool → Except WalkError (List Path)
  | 0, _, p, _, _ => .error (.system p .tooManyLinks)
  | n + 1, trail, p, place, linked =>
    match d.get? place with
    | some .directory =>
      match if linked then crumbAt? trail place else none with
      | some ancestor => .error (.loop p ancestor)
      | none =>
        match checkPath p with
        | .error e => .error (.system p e)
        | .ok () => filesAmong d n ((p, place) :: trail) p place (d.children place)
    | some (.file _) => .ok [p]
    | _ => .ok []

/-- The files below the listed children of a directory. -/
def filesAmong (d : Disk) : Nat → List Crumb → Path → Location → List (String × Entry) →
    Except WalkError (List Path)
  | 0, _, p, _, _ => .error (.system p .tooManyLinks)
  | _ + 1, _, _, _, [] => .ok []
  | n + 1, trail, p, place, (name, e) :: rest => do
    let child := p.join name
    let first ← match e with
      | .link _ =>
        match d.find child with
        | .error e => .error (.system child e)
        | .ok target => filesAt d n trail child target true
      | _ => filesAt d n trail child (place ++ [name]) false
    let others ← filesAmong d n trail p place rest
    pure (first ++ others)

end

/-- Steps enough for every walk: between two links it only goes down, no two links on the way
lead to the same directory, and each level costs at most one step for each child. -/
def walkFuel (d : Disk) : Nat :=
  let levels := d.entries.length + 3
  levels * levels * levels

/-- The files at any depth below what the path leads to, links followed. -/
def filesBelow (d : Disk) (p : Path) : Except WalkError (List Path) :=
  match d.find p with
  | .error e => .error (.system p e)
  | .ok place => d.filesAt d.walkFuel [] p place true

def insertPath (p : Path) : List Path → List Path
  | [] => [p]
  | q :: rest =>
    if Path.notAfter p.components q.components then p :: q :: rest else q :: insertPath p rest

def orderPaths (paths : List Path) : List Path := paths.foldr insertPath []

end Disk

end StubListing
