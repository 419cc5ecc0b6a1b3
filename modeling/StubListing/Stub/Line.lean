import StubListing.Catalog.Basic
import StubListing.Text.Join
/-!
# Lines of a stub

How type names, parameter lists and members are written. A modifier that is absent leaves no
word behind, so a line has single spaces between its words and none at its ends, as long as the
names in it are free of spaces themselves. Arguments of a type and parameters of a method are
both separated by a comma with a space on either side.
-/
namespace StubListing.Stub
open StubListing.Catalog StubListing.Text

/-- What stands between arguments and between parameters. -/
def listSeparator : String := " , "

/-- A name up to its arity marker. -/
def bareName (name : String) : String :=
  String.ofList (name.toList.takeWhile (· != arityMarker))

mutual

/-- A type as it is shown: a generic one without its arity marker and with its arguments in
angle brackets, at every depth; a namespace is never shown. -/
def typeName : TypeRef → String
  | ⟨name, ns, arguments⟩ =>
    if (TypeRef.mk name ns arguments).isGeneric then
      bareName name ++ "<" ++ joined listSeparator (typeNames arguments) ++ ">"
    else name

def typeNames : List TypeRef → List String
  | [] => []
  | t :: rest => typeName t :: typeNames rest

end

/-- A parameter: its type, then its name. -/
def parameterText (p : Parameter) : String := typeName p.type ++ " " ++ p.name

/-- The parameters of a method without the parentheses around them. -/
def parametersText (parameters : List Parameter) : String :=
  joined listSeparator (parameters.map parameterText)

/-- The word if the condition holds, and no word otherwise. -/
def wordIf (condition : Bool) (word : String) : String := if condition then word else ""

/-- The visibility that is shown; a member both private and public counts as private. -/
def visibility (flags : Flags) : String :=
  if flags.isPrivate then "private" else wordIf flags.isPublic "public"

/-- The result type that is shown; constructors show none. -/
def resultText (m : Method) : String :=
  match m.result with
  | some t => if m.flags.isConstructor then "" else typeName t
  | none => ""

/-- The line of a method, without the end of line. -/
def methodLine (m : Method) : String :=
  line [visibility m.flags, wordIf m.flags.isStatic "static", wordIf m.flags.isVirtual "virtual",
    wordIf m.flags.isAbstract "abstract", resultText m,
    m.name ++ "(" ++ parametersText m.parameters ++ ")"]

/-- The line of a property or a field, without the end of line. -/
def dataLine (flags : Flags) (type : TypeRef) (name : String) : String :=
  line ["public", wordIf flags.isStatic "static", typeName type, name]

theorem typeNames_eq_map (types : List TypeRef) : typeNames types = types.map typeName := by
  induction types with
  | nil => simp [typeNames]
  | cons t rest ih => simp [typeNames, ih]

end StubListing.Stub
