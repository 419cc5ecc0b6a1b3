import StubListing.Path
import StubListing.Text.Ascii
/-!
# Arguments of the command line

A command is followed by options. Some options take a value, in the same word or in the next one;
short ones may share a word. Every option but `--namespace` is given at most once, and nothing but
options is accepted. Help is not modelled: `help`, `--help` and `-h` would print how to use the commands and
succeed, and are refused here like any other word that is no option.
-/
namespace StubListing.CommandLine
open StubListing.Text

inductive Command where
  | generate
  | list
  deriving DecidableEq, Repr

/-- The options that take a value. -/
inductive Valued where
  | config
  | catalog
  | output
  | module
  | ns
  | threads
  deriving DecidableEq, Repr

/-- The options that stand alone. -/
inductive Switch where
  | noProgress
  | noPrune
  | verbose
  deriving DecidableEq, Repr

structure Options where
  config : Option Path
  catalog : Option Path
  output : Option Path
  module : Option String
  namespaces : List String
  threads : Option Nat
  noProgress : Bool
  noPrune : Bool
  verbose : Bool
  deriving DecidableEq, Repr, Inhabited

def Options.none : Options :=
  ⟨.none, .none, .none, .none, [], .none, false, false, false⟩

def Valued.ofName? (name : String) : Option Valued :=
  [("config", Valued.config), ("catalog", .catalog), ("output", .output), ("module", .module),
    ("namespace", .ns), ("threads", .threads)].lookup name

def Valued.ofLetter? (letter : Char) : Option Valued :=
  [('c', Valued.config), ('o', .output), ('m', .module), ('n', .ns), ('t', .threads)].lookup letter

def Switch.ofName? (name : String) : Option Switch :=
  [("no-progress", Switch.noProgress), ("no-prune", .noPrune), ("verbose", .verbose)].lookup name

def Switch.ofLetter? (letter : Char) : Option Switch :=
  if letter = 'v' then some .verbose else .none

/-- A number of at most sixty-four bits; a plus may stand in front. -/
def number? (text : String) : Option Nat :=
  let digits := match text.toList with
    | '+' :: rest => rest
    | s => s
  if digits.isEmpty then .none
  else (numeralValue? 10 digitValue? digits).filter fun n => n < UInt64.size

/-- A first value; a further one is refused. -/
def once {α : Type} (present : Option α) (value : α) : Option (Option α) :=
  if present.isSome then .none else some (some value)

/-- A path, which cannot be empty. -/
def path? (text : String) : Option Path := if text.isEmpty then .none else some ⟨text⟩

namespace Options

/-- The options with a value more. -/
def give (o : Options) (option : Valued) (value : String) : Option Options :=
  match option with
  | .config => do pure { o with config := ← once o.config (← path? value) }
  | .catalog => do pure { o with catalog := ← once o.catalog (← path? value) }
  | .output => do pure { o with output := ← once o.output (← path? value) }
  | .module => do pure { o with module := ← once o.module value }
  | .ns => some { o with namespaces := o.namespaces ++ [value] }
  | .threads => do pure { o with threads := ← once o.threads (← number? value) }

/-- The options with a switch turned on that was off. -/
def turnOn (o : Options) : Switch → Option Options
  | .noProgress => if o.noProgress then .none else some { o with noProgress := true }
  | .noPrune => if o.noPrune then .none else some { o with noPrune := true }
  | .verbose => if o.verbose then .none else some { o with verbose := true }

/-- Read a long option, given as name and value. The option whose value is still to come is
returned with the others. -/
def readLong (o : Options) (name : String) (value? : Option String) :
    Option (Options × Option Valued) :=
  match Valued.ofName? name, value? with
  | some option, some value => (o.give option value).map fun o => (o, .none)
  | some option, .none => some (o, some option)
  | .none, some _ => .none
  | .none, .none => do
    let o ← o.turnOn (← Switch.ofName? name)
    pure (o, .none)

/-- Read short options, given as the letters of their word. -/
def readShort (o : Options) : List Char → Option (Options × Option Valued)
  | [] => some (o, .none)
  | letter :: rest =>
    match Valued.ofLetter? letter with
    | some option =>
      match rest with
      | [] => some (o, some option)
      | '=' :: value => (o.give option (String.ofList value)).map fun o => (o, .none)
      | value => (o.give option (String.ofList value)).map fun o => (o, .none)
    | .none => do
      let o ← o.turnOn (← Switch.ofLetter? letter)
      readShort o rest

def readWord (o : Options) (word : String) : Option (Options × Option Valued) :=
  match word.toList with
  | '-' :: '-' :: rest =>
    let name := rest.takeWhile (· != '=')
    let value? := match rest.dropWhile (· != '=') with
      | [] => .none
      | _ :: value => some (String.ofList value)
    o.readLong (String.ofList name) value?
  | '-' :: c :: rest => o.readShort (c :: rest)
  | _ => .none

/-- The word looks like an option and so is no value. -/
def looksLikeOption (word : String) : Bool := word.toList.head? == some '-' && word != "-"

/-- Read all words. `pending` is the option whose value comes next. Two dashes end the options,
and there is nothing else. -/
def read (pending : Option Valued) (o : Options) : List String → Option Options
  | [] => if pending.isSome then .none else some o
  | word :: rest =>
    match pending with
    | some option =>
      if looksLikeOption word then .none
      else (o.give option word).bind fun o => read .none o rest
    | .none =>
      if word = "--" then (if rest.isEmpty then some o else .none)
      else (o.readWord word).bind fun (o, pending) => read pending o rest

end Options

/-- What a command line asks for. -/
inductive Request where
  | version
  | command (command : Command) (options : Options)
  deriving DecidableEq, Repr

/-- The request of a command line, unless it is used wrongly or asks for help. -/
def Request.ofArguments? : List String → Option Request
  | [] => .none
  | word :: rest =>
    if word = "generate" then (Options.read .none .none rest).map (.command .generate)
    else if word = "list" then (Options.read .none .none rest).map (.command .list)
    else if word = "--version" ∨ ['-', 'V'].isPrefixOf word.toList then some .version
    else .none

end StubListing.CommandLine
