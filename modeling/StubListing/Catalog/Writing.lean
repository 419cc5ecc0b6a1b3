import StubListing.Catalog.Document
import StubListing.Json.Value
/-!
# Writing catalogs

The JSON form of a catalog. Members are in the order in which they are declared. A mention of a
type leaves out a namespace and arguments that it does not have, and a member of a type leaves
out who declares it and what it returns when that is not said; everything else is always there.
-/
namespace StubListing.Catalog
open StubListing.Json (Value)

/-- A member, unless there is nothing to say. -/
def optionalMember {α : Type} (name : String) (value : α → Value) :
    Option α → List (String × Value)
  | none => []
  | some a => [(name, value a)]

mutual

def TypeRef.value : TypeRef → Value
  | ⟨name, ns, arguments⟩ =>
    .object ((("name", .text name) :: optionalMember "namespace" .text ns) ++
      (match arguments with
        | [] => []
        | first :: rest =>
          [("generic_arguments", .array (TypeRef.value first :: TypeRef.values rest))]))

def TypeRef.values : List TypeRef → List Value
  | [] => []
  | t :: rest => TypeRef.value t :: TypeRef.values rest

end

def Flags.value (f : Flags) : Value :=
  .object [("public", .boolean f.isPublic), ("private", .boolean f.isPrivate),
    ("static", .boolean f.isStatic), ("virtual", .boolean f.isVirtual),
    ("abstract", .boolean f.isAbstract), ("constructor", .boolean f.isConstructor)]

def DataMember.value (d : DataMember) : Value :=
  .object ([("name", .text d.name), ("type", d.type.value), ("flags", d.flags.value)] ++
    optionalMember "declaring_type" .text d.declaredBy)

def Parameter.value (p : Parameter) : Value :=
  .object [("name", .text p.name), ("type", p.type.value)]

def Method.value (d : Method) : Value :=
  .object ([("name", Value.text d.name)] ++
    optionalMember "return_type" TypeRef.value d.result ++
    [("flags", d.flags.value), ("parameters", .array (d.parameters.map Parameter.value))] ++
    optionalMember "declaring_type" .text d.declaredBy)

def TypeDecl.value (t : TypeDecl) : Value :=
  .object [("name", .text t.name), ("namespace", .ofOption .text t.ns),
    ("kind", .text t.kind.word), ("base_type", .ofOption TypeRef.value t.base),
    ("attributes", .texts t.attributes),
    ("generic_arguments", .array (t.arguments.map TypeRef.value)),
    ("properties", .array (t.properties.map DataMember.value)),
    ("fields", .array (t.fields.map DataMember.value)),
    ("methods", .array (t.methods.map Method.value))]

def Module.value (d : Module) : Value :=
  .object [("name", .text d.name), ("types", .array (d.types.map TypeDecl.value))]

def Document.value (d : Document) : Value :=
  .object [("modules", .array (d.modules.map Module.value))]

theorem TypeRef.values_eq_map (types : List TypeRef) :
    TypeRef.values types = types.map TypeRef.value := by
  induction types with
  | nil => rfl
  | cons t rest ih => simp [TypeRef.values, ih]

end StubListing.Catalog
