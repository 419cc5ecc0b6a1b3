import StubListing.CommandLine.Execute
import StubListing.Disk.Image
import StubListing.Json.Reader
/-!
# The program

The arguments are those of the command line. What the command works on comes as one line of
standard input, an object with the time and the tree; what it leaves behind goes to standard
output in the same form, with the text that it prints. Log records are lines of standard error.
-/
namespace StubListing
open StubListing.Json

/-- The time and the tree that a line hands over. -/
def given? (line : String) : Option (Instant × Disk) :=
  match (read line.toList).1 with
  | .object [(.text (some "time"), .text (some time)), (.text (some "tree"), tree)] none => do
    pure (← (Instant.parse time).toOption, ← Disk.ofNode? tree)
  | _ => none

/-- What a command leaves behind. -/
def leftBehind (result : CommandLine.Result) (d : Disk) : Value :=
  .object [("output", .text result.output), ("tree", d.value)]

end StubListing

open StubListing in
/-- Carry out the command line on the tree that is handed over. -/
def main (arguments : List String) : IO UInt32 := do
  match given? (← (← IO.getStdin).getLine) with
  | none =>
    IO.eprintln "a time and a tree are needed"
    pure 2
  | some (now, disk) =>
    let (result, place) := CommandLine.execute now arguments ⟨disk, []⟩
    place.log.forM fun record => IO.eprintln record.line
    IO.println (leftBehind result place.disk).compact
    pure (UInt32.ofNat result.exitCode)
