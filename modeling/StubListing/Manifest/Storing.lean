import StubListing.Manifest.Writing
import StubListing.Manifest.Reading
import StubListing.Files
/-!
# Manifests on disk
-/
namespace StubListing.Manifest

def load (p : Path) : Action Manifest := do
  let text ← Files.readText p
  match parse text with
  | .ok m => pure m
  | .error fault => Action.fail ⟨["Failed to parse manifest file " ++ p.text], .json fault⟩

def save (m : Manifest) (p : Path) : Action Unit := do
  Files.writeText p m.text
  Action.note .info ("Saved manifest with " ++ toString m.entries.length ++ " entries")

end StubListing.Manifest
