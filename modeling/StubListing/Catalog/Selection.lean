import StubListing.Catalog.Document
/-!
# Selecting classes for export

Of a module's types only some get a stub: classes of an allowed namespace that are neither made
by the compiler nor delegates. Every type is given one verdict, the first that applies, so the
counters of a selection add up to the number of types.
-/
namespace StubListing.Catalog

/-- The attribute of types that the compiler made up. -/
def compilerGeneratedAttribute : String :=
  "System.Runtime.CompilerServices.CompilerGeneratedAttribute"

/-- The name every delegate's base type has. -/
def delegateBaseName : String := "MulticastDelegate"

/-- The full name every delegate's base type has. -/
def delegateBase : String := "System.MulticastDelegate"

namespace TypeDecl

def isCompilerGenerated (t : TypeDecl) : Bool := t.hasAttribute compilerGeneratedAttribute

/-- Whether the type is a delegate. A base type recorded without its namespace counts, one of
the same name in another namespace does not. -/
def isDelegate (t : TypeDecl) : Bool :=
  match t.base with
  | none => false
  | some base =>
    base.fullName == delegateBase ||
      ((base.ns.getD "").isEmpty && base.name == delegateBaseName)

end TypeDecl

/-- Why a type is exported or not. -/
inductive Verdict where
  | compilerGenerated
  | notAClass
  | delegate
  | foreignNamespace
  | selected (ns : String)
  deriving DecidableEq, Repr

/-- The first verdict that applies to a type. -/
def verdict (allowed : List String) (t : TypeDecl) : Verdict :=
  if t.isCompilerGenerated then .compilerGenerated
  else if !t.isClass then .notAClass
  else if t.isDelegate then .delegate
  else match t.home with
    | none => .foreignNamespace
    | some ns => if allowed.contains ns then .selected ns else .foreignNamespace

/-- A class chosen for export, with the namespace it is exported under. -/
structure Selected where
  type : TypeDecl
  ns : String
  deriving Repr, Inhabited

/-- How many types met each verdict. -/
structure Counters where
  total : Nat
  selected : Nat
  compilerGenerated : Nat
  notAClass : Nat
  delegates : Nat
  foreignNamespace : Nat
  deriving DecidableEq, Repr, Inhabited

namespace Counters

def zero : Counters := ⟨0, 0, 0, 0, 0, 0⟩

def add (a b : Counters) : Counters :=
  ⟨a.total + b.total, a.selected + b.selected, a.compilerGenerated + b.compilerGenerated,
    a.notAClass + b.notAClass, a.delegates + b.delegates,
    a.foreignNamespace + b.foreignNamespace⟩

/-- The count of a single type. -/
def ofVerdict : Verdict → Counters
  | .compilerGenerated => { zero with total := 1, compilerGenerated := 1 }
  | .notAClass => { zero with total := 1, notAClass := 1 }
  | .delegate => { zero with total := 1, delegates := 1 }
  | .foreignNamespace => { zero with total := 1, foreignNamespace := 1 }
  | .selected _ => { zero with total := 1, selected := 1 }

end Counters

/-- The type with its namespace, if the verdict selects it. -/
def chosen? (allowed : List String) (t : TypeDecl) : Option Selected :=
  match verdict allowed t with
  | .selected ns => some ⟨t, ns⟩
  | _ => none

/-- The selected classes in catalog order. -/
def select (allowed : List String) (types : List TypeDecl) : List Selected :=
  types.filterMap (chosen? allowed)

/-- The verdicts of all types, counted. -/
def count (allowed : List String) (types : List TypeDecl) : Counters :=
  types.foldr (fun t counters => (Counters.ofVerdict (verdict allowed t)).add counters)
    Counters.zero

@[simp] theorem select_nil (allowed : List String) : select allowed [] = [] := rfl

@[simp] theorem count_nil (allowed : List String) : count allowed [] = Counters.zero := rfl

theorem count_cons (allowed : List String) (t : TypeDecl) (types : List TypeDecl) :
    count allowed (t :: types) =
      (Counters.ofVerdict (verdict allowed t)).add (count allowed types) := rfl

end StubListing.Catalog
