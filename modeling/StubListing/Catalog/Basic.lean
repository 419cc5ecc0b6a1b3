/-!
# Catalogs of types

A catalog records, module by module, the types a program library declares and their members.
Names are kept as they are written: a generic type's name may carry an arity marker, and a
namespace that is absent is told apart from an empty one although both mean the global
namespace.
-/
namespace StubListing.Catalog

/-- The character between a generic type's name and the number of its parameters. -/
def arityMarker : Char := '`'

inductive TypeKind where
  | plainClass
  | interface
  | struct
  | enumeration
  deriving DecidableEq, Repr, Inhabited

/-- The kinds with the words that name them in a catalog. -/
def TypeKind.words : List (String × TypeKind) :=
  [("class", .plainClass), ("interface", .interface), ("struct", .struct), ("enum", .enumeration)]

def TypeKind.word : TypeKind → String
  | .plainClass => "class"
  | .interface => "interface"
  | .struct => "struct"
  | .enumeration => "enum"

/-- A mention of a type, with the types it is applied to. -/
structure TypeRef where
  name : String
  ns : Option String
  arguments : List TypeRef
  deriving Repr, Inhabited

structure Flags where
  isPublic : Bool
  isPrivate : Bool
  isStatic : Bool
  isVirtual : Bool
  isAbstract : Bool
  isConstructor : Bool
  deriving DecidableEq, Repr, Inhabited

def Flags.none : Flags := ⟨false, false, false, false, false, false⟩

/-- A property or a field: a named value of some type. `declaredBy` names the type that declares
the member when the catalog says so. -/
structure DataMember where
  name : String
  type : TypeRef
  flags : Flags
  declaredBy : Option String
  deriving Repr, Inhabited

structure Parameter where
  name : String
  type : TypeRef
  deriving Repr, Inhabited

/-- A method or a constructor; a constructor's result type, if there is one, is not shown. -/
structure Method where
  name : String
  result : Option TypeRef
  flags : Flags
  parameters : List Parameter
  declaredBy : Option String
  deriving Repr, Inhabited

structure TypeDecl where
  name : String
  ns : Option String
  kind : TypeKind
  base : Option TypeRef
  attributes : List String
  arguments : List TypeRef
  properties : List DataMember
  fields : List DataMember
  methods : List Method
  deriving Repr, Inhabited

namespace TypeRef

/-- A type outside any namespace that takes no arguments. -/
def simple (name : String) : TypeRef := ⟨name, none, []⟩

/-- A type of a namespace that takes no arguments. -/
def qualified (ns name : String) : TypeRef := ⟨name, some ns, []⟩

/-- A type applied to arguments. -/
def applied (name : String) (arguments : List TypeRef) : TypeRef := ⟨name, none, arguments⟩

/-- Generic types are applied to something or carry an arity marker in their name. -/
def isGeneric (t : TypeRef) : Bool := !t.arguments.isEmpty || t.name.toList.contains arityMarker

/-- The name with its namespace in front; the global namespace shows nothing. -/
def fullName (t : TypeRef) : String :=
  match t.ns with
  | none => t.name
  | some ns => if ns.isEmpty then t.name else ns ++ "." ++ t.name

end TypeRef

namespace TypeDecl

def emptyClass (ns name : String) : TypeDecl :=
  ⟨name, some ns, .plainClass, none, [], [], [], [], []⟩

/-- Interfaces, structures and enumerations are no classes. -/
def isClass (t : TypeDecl) : Bool := t.kind == .plainClass

/-- The namespace a type lives in, unless that is the global one. -/
def home (t : TypeDecl) : Option String := t.ns.filter fun ns => !ns.isEmpty

/-- The part of a dotted name after its last dot. -/
def simpleName (name : List Char) : List Char :=
  (name.reverse.takeWhile (· != '.')).reverse

/-- A name without the ending `Attribute`, if it has that ending. -/
def shortName (name : List Char) : List Char :=
  let ending := "Attribute".toList
  if ending.isSuffixOf name then name.take (name.length - ending.length) else name

/-- The spellings under which an attribute may be recorded: in full, without its namespace, and
also without the ending `Attribute`. -/
def attributeSpellings (name : String) : List String :=
  let simple := simpleName name.toList
  [name, String.ofList simple, String.ofList (shortName simple)]

/-- Whether a type carries the attribute under any of its spellings. -/
def hasAttribute (t : TypeDecl) (name : String) : Bool :=
  t.attributes.any fun spelling => (attributeSpellings name).contains spelling

end TypeDecl

end StubListing.Catalog
