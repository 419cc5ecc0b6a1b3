import StubListing.Stub.Target
import StubListing.Config.Basic
import StubListing.Manifest.Storing
/-!
# Preparing the output root

The output root is made if it is missing. If it is there, its files are removed, and what the
previous run wrote is cleared away: stubs that are still as they were written, and directories of
namespaces that are no longer exported, once nothing is left in them. Nothing else is touched. A
manifest that cannot be read is not acted on.
-/
namespace StubListing.Run

structure Removed where
  files : Nat
  directories : Nat
  deriving DecidableEq, Repr, Inhabited

/-- The manifest of the previous run, if there is one and it can be read. -/
def previousManifest (c : Config) : Action (Option Manifest) := do
  let p := c.outputRoot.join Manifest.fileName
  if (← Action.disk).isFile p then
    tryCatch (do pure (some (← Manifest.load p))) fun f => do
      Action.note .warn ("Ignoring unreadable manifest, skipping pruning: " ++ f.message)
      pure none
  else pure none

/-- Where the stub of an entry was written. -/
def entryTarget (c : Config) (e : ManifestEntry) : Except Failure Path :=
  Stub.target c.outputRoot e.ns e.className (e.path.extension?.getD c.fileExtension)

/-- Remove the stub of an entry if it is still what was written; the number of files removed. -/
def pruneEntry (c : Config) (e : ManifestEntry) : Action Nat := do
  match entryTarget c e with
  | .error _ => do
    Action.note .warn ("Skipping invalid manifest entry " ++ e.ns ++ "." ++ e.className)
    pure 0
  | .ok p =>
    if (← Action.disk).isFile p then do
      let digest ← Files.digestOf p
      if digest = e.digest then do
        Files.removeFile p
        pure 1
      else do
        Action.note .warn ("Keeping " ++ p.text ++ ": modified since the last run")
        pure 0
    else pure 0

/-- Remove the directory of a namespace that is no longer exported, if it is empty; the number of
directories removed. -/
def pruneNamespace (c : Config) (ns : String) : Action Nat := do
  if c.namespaces.contains ns || !Path.isFileName ns then pure 0
  else do
    let p := c.outputRoot.join ns
    if (← Action.disk).isDirectory p then do
      let listing ← Files.children p
      if listing.files.isEmpty && listing.directories.isEmpty then do
        Files.removeDirectory p
        pure 1
      else do
        Action.note .warn ("Keeping " ++ p.text ++ ": contains files not written by this tool")
        pure 0
    else pure 0

def sumOf : List (Action Nat) → Action Nat
  | [] => pure 0
  | action :: rest => do
    let n ← action
    pure (n + (← sumOf rest))

/-- Clear away what the previous run wrote. -/
def prune (c : Config) (previous : Manifest) : Action Removed := do
  let files ← sumOf (previous.entries.map (pruneEntry c))
  let directories ← sumOf (previous.namespaces.map (pruneNamespace c))
  pure ⟨files, directories⟩

/-- Remove the files in the output root, and what the previous run wrote if its manifest is given. -/
def clear (c : Config) (previous : Option Manifest) : Action Removed := do
  let cleared ← Files.clearFiles c.outputRoot
  match previous with
  | none => pure ⟨cleared, 0⟩
  | some manifest => do
    let removed ← prune c manifest
    pure ⟨cleared + removed.files, removed.directories⟩

/-- Make the output root or clear it. The manifest is read before it is removed with the other
files. -/
def prepare (c : Config) : Action Removed := do
  if (← Action.disk).isDirectory c.outputRoot then do
    let previous ← if c.pruneStale then previousManifest c else pure none
    clear c previous
  else do
    Files.ensureDirectory c.outputRoot
    pure ⟨0, 0⟩

end StubListing.Run
