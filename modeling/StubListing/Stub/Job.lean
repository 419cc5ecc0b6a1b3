import StubListing.Stub.Target
import StubListing.Stub.Outcome
import StubListing.Files
/-!
# Writing one stub

Writing a stub is done in three steps: its directory is provided, its file is emptied or made, and
its text is written. Several stubs may be written at the same time, so a step is the unit in which
their work mixes; `Job.run` makes the steps of one stub without interruption.
-/
namespace StubListing.Stub
open StubListing.Catalog

/-- A stub to be written. -/
structure Job where
  type : TypeDecl
  ns : String
  root : Path
  extension : String
  inherited : Bool
  deriving Inhabited

/-- How far the writing of a stub has come. -/
inductive Stage where
  | waiting
  | housed (path : Path)
  | opened (path : Path) (place : Location)
  | finished (result : Except Failure Written)

namespace Job

def text (j : Job) : String := classText j.inherited j.ns j.type

def path (j : Job) : Except Failure Path := target j.root j.ns j.type.name j.extension

/-- What is told of a stub that was written to the path. -/
def written (j : Job) (path : Path) : Written :=
  ⟨j.ns, j.type.name, path, Digest.Sha256.ofString j.text, memberCounts j.inherited j.type⟩

/-- The next step. Nothing follows when the work is finished. -/
def step (j : Job) (d : Disk) : Stage → Stage × Disk
  | .waiting =>
    match j.path with
    | .error f => (.finished (.error f), d)
    | .ok path =>
      match Files.provide d (j.root.join j.ns) with
      | (.ok (), d) => (.housed path, d)
      | (.error f, d) => (.finished (.error f), d)
  | .housed path =>
    match Files.openFile d path with
    | (.ok place, d) => (.opened path place, d)
    | (.error f, d) => (.finished (.error f), d)
  | .opened path place => (.finished (.ok (j.written path)), d.write place j.text.toUTF8)
  | .finished result => (.finished result, d)

/-- All steps one after the other. -/
def run (j : Job) (d : Disk) : Except Failure Written × Disk :=
  match j.path with
  | .error f => (.error f, d)
  | .ok path =>
    match Files.provide d (j.root.join j.ns) with
    | (.error f, d) => (.error f, d)
    | (.ok (), d) =>
      match Files.openFile d path with
      | (.error f, d) => (.error f, d)
      | (.ok place, d) => (.ok (j.written path), d.write place j.text.toUTF8)

/-- Three steps are enough. -/
theorem steps_eq_run (j : Job) (d : Disk) :
    let once := j.step d .waiting
    let twice := j.step once.2 once.1
    j.step twice.2 twice.1 = (.finished (j.run d).1, (j.run d).2) := by
  simp only [step, run]
  cases j.path with
  | error f => rfl
  | ok path =>
    rcases Files.provide d (j.root.join j.ns) with ⟨_ | _, d₁⟩
    · rfl
    · dsimp only
      rcases Files.openFile d₁ path with ⟨_ | _, d₂⟩ <;> rfl

/-- What became of the class, given the result of its steps. -/
def outcome (j : Job) : Except Failure Written → Outcome
  | .ok w => .ok w
  | .error f => .error ⟨j.ns, j.type.name, f.message⟩

end Job

end StubListing.Stub
