import StubListing.Run.Plan
import StubListing.Run.Prepare
import StubListing.Catalog.Loading
import StubListing.Config.Loading
/-!
# A run

A run selects the classes of one module, plans their stubs, prepares the output root, writes the
stubs and records them in a manifest. A class that fails does not stop the others; everything else
that fails ends the run.
-/
namespace StubListing.Run
open StubListing.Catalog StubListing.Stub

structure Report where
  written : List Written
  failures : List Failed
  counters : Counters
  writtenFiles : Nat
  failedClasses : Nat
  removed : Removed
  manifestPath : Option Path
  deriving DecidableEq, Repr, Inhabited

/-- Every selected class was written. -/
def Report.isSuccess (r : Report) : Bool := r.failures.isEmpty

def render (c : Config) (planned : List Planned) : Action (List Outcome) := do
  let (outcomes, d) := renderAll c planned (← Action.disk)
  Action.setDisk d
  pure outcomes

/-- Record the run in its manifest, if that is wanted. -/
def record (c : Config) (now : Instant) (module : String) (written : List Written)
    (failures : List Failed) : Action (Option Path) := do
  if c.writeManifest then do
    let p := c.outputRoot.join Manifest.fileName
    (Manifest.ofRun now module c.namespaces c.outputRoot written failures).save p
    pure (some p)
  else pure none

/-- A run for the types of a module. -/
def generateModule (c : Config) (now : Instant) (m : Module) : Action Report := do
  let selected := select c.namespaces m.types
  let counters := count c.namespaces m.types
  Action.note .info ("Selected " ++ toString counters.selected ++ " of " ++
    toString counters.total ++ " types from " ++ m.name)
  let removed ← prepare c
  let outcomes ← render c (plan c selected)
  let written := writtenOf outcomes
  let failures := failedOf outcomes
  Action.noteAll .warn (failures.map fun f =>
    "Failed to generate " ++ f.ns ++ "." ++ f.className ++ ": " ++ f.error)
  let manifestPath ← record c now m.name written failures
  Action.note .info ("Gen finished: " ++ toString written.length ++ " files written, " ++
    toString failures.length ++ " failed")
  pure ⟨written, failures, counters, written.length, failures.length, removed, manifestPath⟩

/-- A run for the configured module of a catalog. Nothing is touched if the module is missing. -/
def generate (c : Config) (now : Instant) (d : Document) : Action Report := do
  match d.require c.module with
  | .error f => Action.fail f
  | .ok m => do
    Action.note .info ("Module name = " ++ m.name)
    generateModule c now m

/-- A run with the catalog that the settings name. -/
def fromDisk (c : Config) (now : Instant) : Action Report := do
  let document ← Action.during ("Failed to load catalog " ++ c.catalogPath.text)
    (load c.catalogPath)
  generate c now document

/-- The classes that a run would write, from the catalog that the settings name. -/
def preview (c : Config) : Action (List Selected) := do
  let document ← load c.catalogPath
  match document.require c.module with
  | .error f => Action.fail f
  | .ok m => pure (select c.namespaces m.types)

/-- A run with settings that have not been checked yet. -/
def checked (c : Config) (now : Instant) : Action Report := do
  fromDisk (← c.check) now

end StubListing.Run
