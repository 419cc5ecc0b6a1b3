import StubListing.CommandLine.Arguments
import StubListing.Run.Generate
/-!
# The commands

`generate` writes the stubs and succeeds if every class has one. `list` names the classes that
would be written and touches nothing. Both take their settings from a configuration and from
options, which win.
-/
namespace StubListing.CommandLine
open StubListing.Catalog

/-- What is seen of an execution beside files and log. -/
structure Result where
  exitCode : Nat
  output : String
  deriving DecidableEq, Repr, Inhabited

def versionLine : String := "api-stubgen " ++ Manifest.currentVersion ++ "\n"

/-- The settings with what the options say. -/
def Options.override (o : Options) (c : Config) : Config :=
  { c with
    catalogPath := o.catalog.getD c.catalogPath
    outputRoot := o.output.getD c.outputRoot
    module := o.module.getD c.module
    namespaces := if o.namespaces.isEmpty then c.namespaces else o.namespaces
    threads := o.threads.or c.threads
    showProgress := !o.noProgress && c.showProgress
    pruneStale := !o.noPrune && c.pruneStale }

/-- The settings of a command, checked. -/
def settings (o : Options) : Action Config := do
  let c ← Config.loadOrStandard o.config
  (o.override c).check

/-- Write the stubs; whether every class has one. -/
def generate (o : Options) (now : Instant) : Action (Bool × String) := do
  let c ← settings o
  let report ← Run.fromDisk c now
  Action.noteAll .error (report.failures.map fun f => f.ns ++ "." ++ f.className ++ ": " ++ f.error)
  pure (report.isSuccess, "")

def listLine (s : Selected) : String := s.ns ++ "." ++ s.type.name ++ "\n"

/-- Name the classes that would be written. -/
def list (o : Options) : Action (Bool × String) := do
  let c ← settings o
  let selected ← Run.preview c
  Action.note .info (toString selected.length ++ " classes selected")
  pure (true, Text.joined "" (selected.map listLine))

def action (now : Instant) (o : Options) : Command → Action (Bool × String)
  | .generate => generate o now
  | .list => list o

/-- Carry out a command. What ends it early is put into the log, with all that is known or, when
more is to be told anyway, by its widest circumstance. -/
def carryOut (now : Instant) (command : Command) (o : Options) (w : Workplace) :
    Result × Workplace :=
  match (action now o command).run.run w with
  | (.ok (success, output), w) => (⟨if success then 0 else 1, output⟩, w)
  | (.error f, w) =>
    let text := if o.verbose then f.outermost else f.message
    (⟨1, ""⟩, { w with log := w.log ++ [⟨.error, text⟩] })

/-- Carry out a command line. A wrong one touches nothing. -/
def execute (now : Instant) (arguments : List String) (w : Workplace) : Result × Workplace :=
  match Request.ofArguments? arguments with
  | none => (⟨2, ""⟩, w)
  | some .version => (⟨0, versionLine⟩, w)
  | some (.command command o) => carryOut now command o w

end StubListing.CommandLine
