import StubListing.Catalog.Reading
import StubListing.Yaml.Source
import StubListing.Files
/-!
# Catalogs on disk

A catalog is a file or a directory. Of a directory all catalog files at any depth are read and
merged, in the order of their paths. The extension of a file tells its notation.
-/
namespace StubListing.Catalog
open StubListing.Text

inductive Notation where
  | json
  | yaml
  deriving DecidableEq, Repr

/-- The path ends in the extension, whatever the case of its letters. -/
def hasExtension (p : Path) (extension : String) : Bool :=
  p.extension?.any fun e => sameIgnoringCase e extension

def hasAnyExtension (p : Path) (extensions : List String) : Bool :=
  extensions.any (hasExtension p)

def notationOf? (p : Path) : Option Notation :=
  if hasExtension p "json" then some .json
  else if hasAnyExtension p ["yaml", "yml"] then some .yaml
  else none

/-- The extensions of the files that are collected from a directory. -/
def catalogExtensions : List String := ["json", "yaml", "yml"]

def parse (form : Notation) (text : String) : Except Cause Document :=
  match form with
  | .json => match Json.decode Document.read text with
    | .ok document => .ok document
    | .error fault => .error (.json fault)
  | .yaml => match Yaml.decode Document.read text with
    | some document => .ok document
    | none => .error .yaml

def loadFile (p : Path) : Action Document := do
  let text ← Files.readText p
  match notationOf? p with
  | none => Action.fail (.said ("Unsupported catalog file format: " ++ p.text))
  | some n => match parse n text with
    | .ok document => pure document
    | .error cause => Action.fail ⟨["Failed to parse catalog file " ++ p.text], cause⟩

/-- The catalog files at any depth below a directory, in the order of paths. -/
def collect (p : Path) : Action (List Path) := do
  match (← Action.disk).filesBelow p with
  | .ok files =>
    pure (Disk.orderPaths (files.filter fun file => hasAnyExtension file catalogExtensions))
  | .error e => Action.fail ⟨["Failed to read catalog directory " ++ p.text], .walk e⟩

/-- Load the files in order and merge each into what was loaded before. -/
def loadAll : Document → List Path → Action Document
  | document, [] => pure document
  | document, p :: rest => do
    let next ← loadFile p
    loadAll (document.merge next) rest

/-- The catalog in a file, or in all catalog files of a directory. -/
def load (p : Path) : Action Document := do
  if (← Action.disk).isDirectory p then do
    let files ← collect p
    Action.note .info
      ("Loading catalog from " ++ toString files.length ++ " files in " ++ p.text)
    loadAll .empty files
  else loadFile p

/-- The module of that name, which has to be there. -/
def Document.require (d : Document) (name : String) : Except Failure Module :=
  match d.find? name with
  | some m => .ok m
  | none => .error (.said ("Module '" ++ name ++ "' not found in catalog (available: " ++
      joined ", " d.names ++ ")"))

end StubListing.Catalog
