import StubListing.Stub.Job
import StubListing.Config.Basic
import StubListing.Catalog.Selection
/-!
# Planning a run

Before anything is written, every selected class is either accepted, or turned down because its
stub has no path of its own. The order stays that of the catalog.
-/
namespace StubListing.Run
open StubListing.Catalog StubListing.Stub

/-- A class to be written, or why it is not. -/
abbrev Planned := Except Failed Selected

/-- The path of the class's stub under the settings. -/
def targetOf (c : Config) (s : Selected) : Except Failure Path :=
  target c.outputRoot s.ns s.type.name c.fileExtension

/-- The class is turned down. -/
def refused (s : Selected) (error : String) : Planned := .error ⟨s.ns, s.type.name, error⟩

/-- The plan for the classes when the paths are already taken. -/
def planFrom (c : Config) (taken : List Path) : List Selected → List Planned
  | [] => []
  | s :: rest =>
    match targetOf c s with
    | .error f => refused s f.message :: planFrom c taken rest
    | .ok path =>
      if taken.any path.sameAs then
        refused s ("Duplicate output path " ++ path.text) :: planFrom c taken rest
      else .ok s :: planFrom c (path :: taken) rest

def plan (c : Config) (selected : List Selected) : List Planned := planFrom c [] selected

/-- The stub of an accepted class. -/
def jobOf (c : Config) (s : Selected) : Job :=
  ⟨s.type, s.ns, c.outputRoot, c.fileExtension, c.includeInherited⟩

/-- Write what is planned, one class after the other. -/
def renderAll (c : Config) : List Planned → Disk → List Outcome × Disk
  | [], d => ([], d)
  | .error f :: rest, d =>
    let (outcomes, d) := renderAll c rest d
    (.error f :: outcomes, d)
  | .ok s :: rest, d =>
    let (result, d) := (jobOf c s).run d
    let (outcomes, d) := renderAll c rest d
    ((jobOf c s).outcome result :: outcomes, d)

/-- Every selected class has its place in the plan. -/
theorem length_planFrom (c : Config) (taken : List Path) (selected : List Selected) :
    (planFrom c taken selected).length = selected.length := by
  induction selected generalizing taken with
  | nil => rfl
  | cons s rest ih =>
    simp only [planFrom]
    split
    · simp [ih]
    · split <;> simp [ih]

/-- Every class in the plan has an outcome. -/
theorem length_renderAll (c : Config) (planned : List Planned) (d : Disk) :
    (renderAll c planned d).1.length = planned.length := by
  induction planned generalizing d with
  | nil => rfl
  | cons p rest ih => cases p <;> simp [renderAll, ih]

end StubListing.Run
