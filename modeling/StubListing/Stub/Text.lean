import StubListing.Stub.Line
/-!
# The text of a stub

A stub shows the public properties and fields of a class and all of its methods, in that order
and each in catalog order. Members that the class inherits are shown on request only; a member
counts as inherited when the catalog names another type as the one that declares it.
-/
namespace StubListing.Stub
open StubListing.Catalog

/-- How many members of each sort a stub shows. -/
structure MemberCounts where
  properties : Nat
  fields : Nat
  methods : Nat
  deriving DecidableEq, Repr, Inhabited

/-- Whether a member is shown, given who declares it. -/
def keeps (inherited : Bool) (owner : String) (declaredBy : Option String) : Bool :=
  inherited || declaredBy.all (· == owner)

def shownData (inherited : Bool) (owner : String) (members : List DataMember) :
    List DataMember :=
  members.filter fun m => m.flags.isPublic && keeps inherited owner m.declaredBy

def shownMethods (inherited : Bool) (owner : String) (methods : List Method) : List Method :=
  methods.filter fun m => keeps inherited owner m.declaredBy

/-- The class with nothing left but what its stub shows. -/
def visiblePart (inherited : Bool) (c : TypeDecl) : TypeDecl :=
  { c with
    properties := shownData inherited c.name c.properties
    fields := shownData inherited c.name c.fields
    methods := shownMethods inherited c.name c.methods }

/-- The lines of properties or fields, each ended. -/
def dataText (members : List DataMember) : String :=
  (members.map fun m => dataLine m.flags m.type m.name ++ "\n").foldr (· ++ ·) ""

/-- The lines of methods, each ended and followed by an empty one. -/
def methodsText (methods : List Method) : String :=
  (methods.map fun m => methodLine m ++ "\n\n").foldr (· ++ ·) ""

/-- The text of the stub of a class. -/
def classText (inherited : Bool) (ns : String) (c : TypeDecl) : String :=
  let shown := visiblePart inherited c
  "namespace " ++ ns ++ " \x7b\n\n" ++ "public Class " ++ c.name ++ " \x7b\n" ++
    dataText shown.properties ++ dataText shown.fields ++ methodsText shown.methods ++
    "\x7d\n\x7d\n"

def memberCounts (inherited : Bool) (c : TypeDecl) : MemberCounts :=
  let shown := visiblePart inherited c
  ⟨shown.properties.length, shown.fields.length, shown.methods.length⟩

end StubListing.Stub
