import StubListing.Path
import StubListing.Text.Blank
/-!
# Configurations

What a run is to do: which module and namespaces are exported, where the catalog is, where the
stubs go and how they are named.
-/
namespace StubListing

structure Config where
  module : String
  namespaces : List String
  outputRoot : Path
  catalogPath : Path
  fileExtension : String
  includeInherited : Bool
  pruneStale : Bool
  threads : Option Nat
  showProgress : Bool
  writeManifest : Bool
  deriving DecidableEq, Repr

namespace Config

def standard : Config where
  module := "Assembly-CSharp"
  namespaces := ["Game", "GameLogic"]
  outputRoot := ⟨"GenAPI"⟩
  catalogPath := ⟨"catalog.json"⟩
  fileExtension := "stub"
  includeInherited := true
  pruneStale := true
  threads := none
  showProgress := true
  writeManifest := true

/-- The file that settings are taken from when none is named. -/
def standardFile : Path := ⟨"api-stubgen.toml"⟩

/-- Why settings cannot be used. -/
inductive Fault where
  | emptyModule
  | badExtension (extension : String)
  | noThreads
  | badNamespace (name : String)
  deriving DecidableEq, Repr

def Fault.message (fault : Fault) : String :=
  "Configuration error: " ++ match fault with
  | .emptyModule => "module name cannot be empty"
  | .badExtension extension => "invalid file extension '" ++ extension ++ "'"
  | .noThreads => "parallel_threads must be at least 1"
  | .badNamespace name => "invalid namespace '" ++ name ++ "'"

/-- An extension that settings may give: not empty, and without slash, backslash and dot. -/
def isExtension (extension : String) : Bool :=
  !extension.isEmpty && extension.toList.all fun c => c != '/' && c != '\\' && c != '.'

/-- What is wrong with the settings before the namespaces are looked at. -/
def firstFault? (c : Config) : Option Fault :=
  if Text.allBlank c.module then some .emptyModule
  else if !isExtension c.fileExtension then some (.badExtension c.fileExtension)
  else if c.threads = some 0 then some .noThreads
  else none

/-! ## Checking in place -/

/-- Settings that are being checked, and what was odd about them so far. -/
structure Review where
  settings : Config
  warnings : List String
  deriving DecidableEq, Repr

/-- A part of the check. It may change the settings and it may fail, and what it did until then stays
done. -/
abbrev Checking (α : Type) := ExceptT Fault (StateM Review) α

def warn (text : String) : Checking Unit :=
  modify fun r => { r with warnings := r.warnings ++ [text] }

def setNamespaces (namespaces : List String) : Checking Unit :=
  modify fun r => { r with settings := { r.settings with namespaces } }

/-- The namespaces that are kept, with one more. A repetition is left out with a warning, and what
cannot name a directory ends the check. -/
def keep (kept : List String) (name : String) : Checking (List String) :=
  if !Path.isFileName name then throw (.badNamespace name)
  else if kept.contains name then do
    warn ("Duplicate namespace '" ++ name ++ "' ignored")
    pure kept
  else pure (kept ++ [name])

/-- Check the settings. They are changed at the end only, when every namespace is there once. -/
def settle : Checking Unit := do
  let c := (← get).settings
  match c.firstFault? with
  | some fault => throw fault
  | none => do
    let kept ← c.namespaces.foldlM keep []
    setNamespaces kept
    if kept.isEmpty then warn "No namespaces configured, nothing will be generated"

/-- The settings after the check, or what is wrong with them. The warnings come in any case, as far as
the check got. -/
def validate (c : Config) : List String × Except Fault Config :=
  match settle.run.run ⟨c, []⟩ with
  | (.ok (), r) => (r.warnings, .ok r.settings)
  | (.error fault, r) => (r.warnings, .error fault)

/-- The settings have passed the check. -/
def Valid (c : Config) : Prop :=
  c.firstFault? = none ∧ (∀ name ∈ c.namespaces, Path.isFileName name = true) ∧
    c.namespaces.Nodup

end Config

end StubListing
