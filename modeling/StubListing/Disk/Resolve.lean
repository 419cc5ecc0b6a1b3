import StubListing.Disk.Basic
import StubListing.Disk.SystemError
import StubListing.Path
/-!
# Looking up paths

A path is walked step by step from the top or from the home directory. Every step needs a
directory to start from. A link is replaced by the steps of its target; only so many links are
followed on one way. `resolve` follows a link at the end of the path too and tells what the path
stands for; `locate` goes as far as the last name and leaves it alone, which is what creating and
removing need.
-/
namespace StubListing

/-- Where a path leads. `vacant` is a last name that is not there yet, in a directory that is;
`slash` tells that more slashes follow it. -/
inductive Arrival where
  | reached (place : Location)
  | vacant (directory : Location) (name : String) (slash : Bool)
  deriving DecidableEq, Repr

/-- How far one walk gets: to the end, or to a link. -/
inductive Progress where
  | ended (arrival : Arrival)
  | link (directory : Location) (target : String) (rest : List String)
  deriving DecidableEq, Repr

namespace Disk

/-- The longest name, in bytes. -/
def longestName : Nat := 255

/-- A path has fewer bytes than this. -/
def pathLimit : Nat := 4096

/-- The number of links that may be followed on one way. -/
def linkLimit : Nat := 40

/-- The directory one level up; the top is its own. -/
def above (place : Location) : Location := place.dropLast

/-- Make the steps until they are used up or a link is in the way. -/
def advance (d : Disk) (place : Location) : List String → Except SystemError Progress
  | [] => .ok (.ended (.reached place))
  | step :: rest =>
    match d.get? place with
    | some .directory =>
      if step = "" ∨ step = "." then advance d place rest
      else if step = ".." then advance d (above place) rest
      else if longestName < step.utf8ByteSize then .error .nameTooLong
      else match d.get? (place ++ [step]) with
        | some (.link target) => .ok (.link place target rest)
        | some _ => advance d (place ++ [step]) rest
        | none =>
          if rest.all (· = "") then .ok (.ended (.vacant place step (!rest.isEmpty)))
          else .error .notFound
    | _ => .error .notADirectory

/-- Where a path starts: at the top or at the given directory. -/
def startOf (directory : Location) (text : String) : Location :=
  if text.toList.head? = some '/' then [] else directory

/-- Make the steps and follow at most `n` links. -/
def follow (d : Disk) : Nat → Location → List String → Except SystemError Arrival
  | 0, _, _ => .error .tooManyLinks
  | n + 1, place, steps => do
    match ← d.advance place steps with
    | .ended arrival => .ok arrival
    | .link directory target rest =>
      follow d n (startOf directory target) (Path.segmentsOf target ++ rest)

/-- The steps from some place, all links followed. -/
def walk (d : Disk) (place : Location) (steps : List String) : Except SystemError Arrival :=
  d.follow (linkLimit + 1) place steps

/-- What every path is checked for before it is looked up. -/
def checkPath (p : Path) : Except SystemError Unit :=
  if p.text.toList.contains '\x00' then .error .nullInPath
  else if p.text = "" then .error .notFound
  else if pathLimit ≤ p.text.utf8ByteSize then .error .nameTooLong
  else .ok ()

def resolve (d : Disk) (p : Path) : Except SystemError Arrival := do
  checkPath p
  d.walk (startOf d.home p.text) p.segments

/-- The place that the path stands for. -/
def find (d : Disk) (p : Path) : Except SystemError Location := do
  match ← d.resolve p with
  | .reached place => .ok place
  | .vacant _ _ _ => .error .notFound

/-- The directory that the path goes through last, and the last name in it. There is none when
the path ends in dots or is the top. -/
def locate (d : Disk) (p : Path) : Except SystemError (Option (Location × String)) := do
  checkPath p
  let steps := p.segments.filter (· ≠ "")
  match steps.getLast? with
  | none => .ok none
  | some name => do
    match ← d.walk (startOf d.home p.text) (steps.dropLast ++ ["."]) with
    | .vacant _ _ _ => .error .notFound
    | .reached directory =>
      if name = "." ∨ name = ".." then .ok none
      else if longestName < name.utf8ByteSize then .error .nameTooLong
      else .ok (some (directory, name))

def isDirectory (d : Disk) (p : Path) : Bool :=
  match d.find p with
  | .ok place => d.get? place == some .directory
  | .error _ => false

def isFile (d : Disk) (p : Path) : Bool :=
  match d.find p with
  | .ok place => match d.get? place with
    | some (.file _) => true
    | _ => false
  | .error _ => false

end Disk

end StubListing
