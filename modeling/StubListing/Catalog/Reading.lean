import StubListing.Catalog.Document
import StubListing.Decode.Record
/-!
# Reading catalogs

The records of a catalog with the names of their fields, in the order in which they are declared.
Only names, and the type of a data member or a parameter, have to be there; everything else has a
default. The reader of a record takes the number of levels that may still be nested, so a chain
of type arguments ends where the notation says that nesting ends.
-/
namespace StubListing.Catalog
open StubListing.Decode

variable {m : Type → Type} [Monad m] {N α : Type}

/-- A field that holds a text and has to be there. -/
def textField (source : Source m N) (name : String) (set : String → α → α) : Field m N α :=
  ⟨name, true, fun node draft => do pure (set (← source.text .text node) draft)⟩

/-- A field that may hold a text. -/
def optionalTextField (source : Source m N) (name : String) (set : Option String → α → α) :
    Field m N α :=
  ⟨name, false, fun node draft => do
    pure (set (← source.optionOf (source.text .text) node) draft)⟩

/-- A field with a default, read by `read`. -/
def defaultField {β : Type} (name : String) (read : N → m β) (set : β → α → α) : Field m N α :=
  ⟨name, false, fun node draft => do pure (set (← read node) draft)⟩

/-- A field that has to be there, read by `read`. -/
def neededField {β : Type} (name : String) (read : N → m β) (set : β → α → α) : Field m N α :=
  ⟨name, true, fun node draft => do pure (set (← read node) draft)⟩

/-- The fields of a mention of a type, given how its arguments are read. -/
def TypeRef.schema (source : Source m N) (arguments : N → m (List TypeRef)) :
    Schema m N TypeRef :=
  ⟨"TypeRef",
    [textField source "name" fun name t => { t with name },
      optionalTextField source "namespace" fun ns t => { t with ns },
      defaultField "generic_arguments" arguments fun arguments t => { t with arguments }],
    ⟨"", none, []⟩⟩

/-- A mention of a type. Its arguments are two levels further in: a list and a record. -/
def TypeRef.read (source : Source m N) : Nat → N → m TypeRef
  | room + 2, node =>
    (TypeRef.schema source (source.elements (room + 1) (TypeRef.read source room))).read source
      (room + 2) node
  | room, node =>
    (TypeRef.schema source (source.elements 0 fun _ => source.surplus)).read source room node

def Flags.read (source : Source m N) (room : Nat) : N → m Flags :=
  Schema.read source room ⟨"MemberFlags",
      [defaultField "public" source.boolean fun isPublic f => { f with isPublic },
        defaultField "private" source.boolean fun isPrivate f => { f with isPrivate },
        defaultField "static" source.boolean fun isStatic f => { f with isStatic },
        defaultField "virtual" source.boolean fun isVirtual f => { f with isVirtual },
        defaultField "abstract" source.boolean fun isAbstract f => { f with isAbstract },
        defaultField "constructor" source.boolean fun isConstructor f => { f with isConstructor }],
      Flags.none⟩

/-- A property or a field; messages name the two differently. -/
def DataMember.read (source : Source m N) (record : String) (room : Nat) : N → m DataMember :=
  Schema.read source room ⟨record,
      [textField source "name" fun name d => { d with name },
        neededField "type" (TypeRef.read source (room - 1)) fun type d => { d with type },
        defaultField "flags" (Flags.read source (room - 1)) fun flags d => { d with flags },
        optionalTextField source "declaring_type" fun declaredBy d => { d with declaredBy }],
      ⟨"", ⟨"", none, []⟩, Flags.none, none⟩⟩

def Parameter.read (source : Source m N) (room : Nat) : N → m Parameter :=
  Schema.read source room ⟨"ParameterDescriptor",
      [textField source "name" fun name p => { p with name },
        neededField "type" (TypeRef.read source (room - 1)) fun type p => { p with type }],
      ⟨"", ⟨"", none, []⟩⟩⟩

def Method.read (source : Source m N) (room : Nat) : N → m Method :=
  Schema.read source room ⟨"MethodDescriptor",
      [textField source "name" fun name d => { d with name },
        defaultField "return_type" (source.optionOf (TypeRef.read source (room - 1)))
          fun result d => { d with result },
        defaultField "flags" (Flags.read source (room - 1)) fun flags d => { d with flags },
        defaultField "parameters" (source.listOf (Parameter.read source) (room - 1))
          fun parameters d => { d with parameters },
        optionalTextField source "declaring_type" fun declaredBy d => { d with declaredBy }],
      ⟨"", none, Flags.none, [], none⟩⟩

def TypeDecl.read (source : Source m N) (room : Nat) : N → m TypeDecl :=
  Schema.read source room ⟨"TypeDescriptor",
      [textField source "name" fun name t => { t with name },
        optionalTextField source "namespace" fun ns t => { t with ns },
        defaultField "kind" (source.variant (room - 1) TypeKind.words)
          fun kind t => { t with kind },
        defaultField "base_type" (source.optionOf (TypeRef.read source (room - 1)))
          fun base t => { t with base },
        defaultField "attributes" (source.listOf (fun _ => source.text .text) (room - 1))
          fun attributes t => { t with attributes },
        defaultField "generic_arguments" (source.listOf (TypeRef.read source) (room - 1))
          fun arguments t => { t with arguments },
        defaultField "properties"
          (source.listOf (DataMember.read source "PropertyDescriptor") (room - 1))
          fun properties t => { t with properties },
        defaultField "fields" (source.listOf (DataMember.read source "FieldDescriptor") (room - 1))
          fun fields t => { t with fields },
        defaultField "methods" (source.listOf (Method.read source) (room - 1))
          fun methods t => { t with methods }],
      ⟨"", none, .plainClass, none, [], [], [], [], []⟩⟩

def Module.read (source : Source m N) (room : Nat) : N → m Module :=
  Schema.read source room ⟨"ModuleCatalog",
      [textField source "name" fun name d => { d with name },
        defaultField "types" (source.listOf (TypeDecl.read source) (room - 1))
          fun types d => { d with types }],
      ⟨"", []⟩⟩

def Document.read (source : Source m N) (room : Nat) : N → m Document :=
  Schema.read source room ⟨"CatalogDocument",
      [defaultField "modules" (source.listOf (Module.read source) (room - 1))
        fun modules d => { d with modules }],
      Document.empty⟩

end StubListing.Catalog
