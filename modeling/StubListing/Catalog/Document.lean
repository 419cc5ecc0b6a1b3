import StubListing.Catalog.Basic
/-!
# Documents and their merging

A document is a list of modules, and what one catalog file holds. Documents are merged by module
name: the types of a module that is already there are appended to it, and a module that is new
goes to the end. A module read from one document can thus receive types from the next module of
that same document.
-/
namespace StubListing.Catalog

/-- A module with the types it declares, in the order the catalog gives them. -/
structure Module where
  name : String
  types : List TypeDecl
  deriving Repr, Inhabited

structure Document where
  modules : List Module
  deriving Repr, Inhabited

namespace Document

def empty : Document := ⟨[]⟩

/-- The module names in order, repetitions kept. -/
def names (d : Document) : List String := d.modules.map (·.name)

def find? (d : Document) (name : String) : Option Module :=
  d.modules.find? fun m => m.name == name

/-- The list with one more module in it: joined to the first one of the same name, or last. -/
def absorb (m : Module) : List Module → List Module
  | [] => [m]
  | present :: rest =>
    if present.name == m.name then { present with types := present.types ++ m.types } :: rest
    else present :: absorb m rest

/-- The first document extended by the modules of the second, one after the other. -/
def merge (d other : Document) : Document :=
  ⟨other.modules.foldl (fun modules m => absorb m modules) d.modules⟩

def mergeAll (documents : List Document) : Document := documents.foldl merge empty

/-- Absorbing a module adds its name to the names, unless it is there already. -/
theorem map_name_absorb (m : Module) (modules : List Module) :
    (absorb m modules).map (·.name) =
      if m.name ∈ modules.map (·.name) then modules.map (·.name)
      else modules.map (·.name) ++ [m.name] := by
  induction modules with
  | nil => simp [absorb]
  | cons present rest ih =>
    by_cases h : present.name = m.name
    · simp [absorb, h]
    · have h' : ¬ m.name = present.name := fun e => h e.symm
      simp only [absorb, beq_iff_eq, h, if_false, List.map_cons, ih, List.mem_cons, h', false_or]
      split <;> simp

end Document

end StubListing.Catalog
