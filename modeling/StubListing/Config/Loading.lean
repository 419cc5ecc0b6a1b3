import StubListing.Config.Reading
import StubListing.Files
/-!
# Configurations on disk
-/
namespace StubListing.Config

def parse (text : String) : Except Toml.Fault Config := Toml.decode read text

def load (p : Path) : Action Config := do
  let text ← Files.readText p
  match parse text with
  | .ok c => pure c
  | .error fault => Action.fail ⟨["Failed to parse configuration file " ++ p.text], .toml fault⟩

/-- The configuration in the given file, or in the standard file if it is there, or the standard
configuration. -/
def loadOrStandard : Option Path → Action Config
  | some p => load p
  | none => do
    if (← Action.disk).isFile standardFile then do
      Action.note .info ("Using configuration file " ++ standardFile.text)
      load standardFile
    else pure standard

/-- The settings with every namespace once; what is odd about them is noted. -/
def check (c : Config) : Action Config := do
  let (warnings, result) := c.validate
  Action.noteAll .warn warnings
  match result with
  | .ok c => pure c
  | .error fault => Action.fail (.said fault.message)

end StubListing.Config
