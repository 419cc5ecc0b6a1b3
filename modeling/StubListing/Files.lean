import StubListing.Action
import StubListing.Disk.Change
import StubListing.Digest.Sha256
/-!
# Working with files

The few things that are done with files and directories, each with the words for what was being
done when it fails.
-/
namespace StubListing.Files

/-- Make the directory and those above it, unless it is there. -/
def provide (d : Disk) (p : Path) : Except Failure Unit × Disk :=
  if d.isDirectory p then (.ok (), d)
  else match d.makeDirectories p with
    | (.ok (), d) => (.ok (), d)
    | (.error e, d) => (.error ⟨["Failed to create directory " ++ p.text], .system e⟩, d)

/-- Open a file for writing, after the directory it is in has been provided. -/
def openFile (d : Disk) (p : Path) : Except Failure Location × Disk :=
  match (match p.parent? with
    | some directory => provide d directory
    | none => (.ok (), d)) with
  | (.error f, d) => (.error f, d)
  | (.ok (), d) => match d.create p with
    | .ok (place, d) => (.ok place, d)
    | .error e => (.error ⟨["Failed to create file " ++ p.text], .system e⟩, d)

/-- An action that changes the tree, also when it fails. -/
def carryOut {α : Type} (act : Disk → Except Failure α × Disk) : Action α := do
  let (result, d) := act (← Action.disk)
  Action.setDisk d
  match result with
  | .ok a => pure a
  | .error f => Action.fail f

/-- Make the directory and those above it, unless it is there. -/
def ensureDirectory (p : Path) : Action Unit := carryOut fun d => provide d p

def writeText (p : Path) (text : String) : Action Unit := do
  let place ← carryOut fun d => openFile d p
  Action.setDisk ((← Action.disk).write place text.toUTF8)

def readText (p : Path) : Action String := do
  Action.during ("Failed to read file " ++ p.text) (Action.answer ((← Action.disk).text p))

def digestOf (p : Path) : Action String := do
  Action.during ("Failed to read file " ++ p.text) do
    pure (Digest.Sha256.ofBytes (← Action.answer ((← Action.disk).content p)))

def children (p : Path) : Action Disk.Listing := do
  Action.during ("Failed to list directory " ++ p.text) do
    match (← Action.disk).listing p with
    | .ok listing => pure listing
    | .error e => Action.fail ⟨[], .walk e⟩

def removeFile (p : Path) : Action Unit :=
  Action.during ("Failed to remove file " ++ p.text) (Action.change fun d => d.removeFile p)

def removeDirectory (p : Path) : Action Unit :=
  Action.during ("Failed to remove directory " ++ p.text)
    (Action.change fun d => d.removeDirectory p)

/-- Remove the files and links directly in the directory; the number of them. -/
def clearFiles (p : Path) : Action Nat := do
  let listing ← children p
  Action.countAll (listing.files.map removeFile)

end StubListing.Files
