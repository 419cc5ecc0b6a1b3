import Mathlib.Data.List.Basic
import StubListing.Catalog.Selection
/-!
# What a selection keeps

A type is left out for one of four reasons, and they are looked at in a fixed order. A selection keeps
exactly the types that there is no reason to leave out, in catalog order and as often as they are there,
each with its own namespace. Every other type is counted once, under the first reason that applies to
it. Of the list of allowed namespaces only its members matter, not their order or repetitions.
-/
namespace StubListing.Catalog

/-! ## Reasons to leave a type out -/

/-- The names of the attribute of types that the compiler made up. -/
def compilerGeneratedNames : List String :=
  ["System.Runtime.CompilerServices.CompilerGeneratedAttribute", "CompilerGeneratedAttribute",
    "CompilerGenerated"]

/-- The base type of every delegate. Where its namespace is not recorded, it may be part of the name or
missing. -/
def IsDelegateBase (base : TypeRef) : Prop :=
  base.ns = some "System" ∧ base.name = "MulticastDelegate" ∨
    (base.ns = none ∨ base.ns = some "") ∧
      (base.name = "System.MulticastDelegate" ∨ base.name = "MulticastDelegate")

instance (base : TypeRef) : Decidable (IsDelegateBase base) :=
  inferInstanceAs (Decidable (_ ∧ _ ∨ (_ ∨ _) ∧ (_ ∨ _)))

/-- The type lives in a namespace, not the global one, that is among these. -/
def LivesIn (allowed : List String) (t : TypeDecl) : Prop := ∃ ns ∈ allowed, ns ≠ "" ∧ t.ns = some ns

instance (allowed : List String) (t : TypeDecl) : Decidable (LivesIn allowed t) :=
  inferInstanceAs (Decidable (∃ ns ∈ allowed, ns ≠ "" ∧ t.ns = some ns))

inductive Reason where
  | compilerGenerated
  | notAClass
  | delegate
  | foreignNamespace
  deriving DecidableEq, Repr

namespace Reason

/-- The reasons in the order in which they are looked at. -/
def all : List Reason := [.compilerGenerated, .notAClass, .delegate, .foreignNamespace]

theorem mem_all (r : Reason) : r ∈ all := by
  cases r <;> decide

def Applies (allowed : List String) (t : TypeDecl) : Reason → Prop
  | .compilerGenerated => ∃ name ∈ t.attributes, name ∈ compilerGeneratedNames
  | .notAClass => t.kind ≠ .plainClass
  | .delegate => ∃ base ∈ t.base, IsDelegateBase base
  | .foreignNamespace => ¬ LivesIn allowed t

instance (allowed : List String) (t : TypeDecl) : DecidablePred (Applies allowed t)
  | .compilerGenerated => inferInstanceAs (Decidable (∃ name ∈ t.attributes, _))
  | .notAClass => inferInstanceAs (Decidable (t.kind ≠ _))
  | .delegate => inferInstanceAs (Decidable (∃ base ∈ t.base, IsDelegateBase base))
  | .foreignNamespace => inferInstanceAs (Decidable (¬ LivesIn allowed t))

/-- The first reason to leave the type out, if there is one. -/
def first? (allowed : List String) (t : TypeDecl) : Option Reason :=
  all.find? fun r => r.Applies allowed t

/-- The verdict on a type that is left out for the reason. -/
def verdict : Reason → Verdict
  | .compilerGenerated => .compilerGenerated
  | .notAClass => .notAClass
  | .delegate => .delegate
  | .foreignNamespace => .foreignNamespace

end Reason

/-- There is no reason to leave the type out. -/
def Exportable (allowed : List String) (t : TypeDecl) : Prop := ∀ r : Reason, ¬ r.Applies allowed t

instance (allowed : List String) (t : TypeDecl) : Decidable (Exportable allowed t) :=
  decidable_of_iff (∀ r ∈ Reason.all, ¬ r.Applies allowed t)
    ⟨fun h r => h r r.mem_all, fun h r _ => h r⟩

/-! ## The verdict on one type -/

variable {allowed allowed' : List String} {t : TypeDecl}

theorem isCompilerGenerated_iff :
    t.isCompilerGenerated = true ↔ Reason.compilerGenerated.Applies allowed t := by
  have hspellings : TypeDecl.attributeSpellings compilerGeneratedAttribute = compilerGeneratedNames := by
    decide
  simp only [TypeDecl.isCompilerGenerated, TypeDecl.hasAttribute, hspellings, List.any_eq_true,
    List.contains_iff_mem, Reason.Applies]

theorem isClass_eq_false_iff : t.isClass = false ↔ Reason.notAClass.Applies allowed t := by
  simp [TypeDecl.isClass, Reason.Applies]

/-- A text with one dot in it is divided by a dot in one way only. -/
theorem append_dot_eq_iff {a b front back : String} (ha : '.' ∉ a.toList) (hb : '.' ∉ b.toList) :
    front ++ "." ++ back = a ++ "." ++ b ↔ front = a ∧ back = b := by
  have hdot : ".".toList = ['.'] := rfl
  simp only [← String.toList_inj, String.toList_append, hdot, List.append_assoc, List.singleton_append]
  rw [eq_comm, List.append_cons_inj_of_notMem ha hb]
  simp only [eq_comm, true_and]

theorem isDelegate_iff : t.isDelegate = true ↔ Reason.delegate.Applies allowed t := by
  cases hbase : t.base with
  | none => simp [TypeDecl.isDelegate, Reason.Applies, hbase]
  | some base =>
    simp only [TypeDecl.isDelegate, Reason.Applies, hbase, TypeRef.fullName, IsDelegateBase,
      delegateBase, delegateBaseName, Bool.or_eq_true, Bool.and_eq_true, beq_iff_eq,
      Option.mem_some_iff, exists_eq_left']
    cases hns : base.ns with
    | none => simp
    | some ns =>
      by_cases hempty : ns = ""
      · simp [hempty]
      · have hsplit := @append_dot_eq_iff "System" "MulticastDelegate" ns base.name (by decide) (by decide)
        have hname : "System" ++ "." ++ "MulticastDelegate" = "System.MulticastDelegate" := by decide
        rw [hname] at hsplit
        simp [hempty, hsplit]

theorem home_eq_some_iff {ns : String} : t.home = some ns ↔ t.ns = some ns ∧ ns ≠ "" := by
  simp [TypeDecl.home, Option.filter_eq_some_iff]

theorem foreignNamespace_applies_iff :
    Reason.foreignNamespace.Applies allowed t ↔ ∀ ns, t.home = some ns → ns ∉ allowed := by
  simp only [Reason.Applies, LivesIn, home_eq_some_iff]
  grind

/-- The verdict with its tests as reasons. -/
theorem verdict_eq_ite :
    verdict allowed t =
      if Reason.compilerGenerated.Applies allowed t then .compilerGenerated
      else if Reason.notAClass.Applies allowed t then .notAClass
      else if Reason.delegate.Applies allowed t then .delegate
      else if Reason.foreignNamespace.Applies allowed t then .foreignNamespace
      else .selected (t.ns.getD "") := by
  simp only [verdict, @isCompilerGenerated_iff allowed t, Bool.not_eq_true',
    @isClass_eq_false_iff allowed t, @isDelegate_iff allowed t, foreignNamespace_applies_iff]
  cases hhome : t.home with
  | none => simp
  | some ns => simp [(home_eq_some_iff.mp hhome).1]

/-- The verdict tells the first reason to leave the type out. Without any the type is selected, under its
own namespace. -/
theorem verdict_eq_first? :
    verdict allowed t =
      match Reason.first? allowed t with
      | some r => r.verdict
      | none => .selected (t.ns.getD "") := by
  rw [verdict_eq_ite]
  simp only [Reason.first?, Reason.all, List.find?_cons, List.find?_nil]
  split_ifs with hmade hkind hdelegate hforeign
  · simp [hmade, Reason.verdict]
  · simp [hmade, hkind, Reason.verdict]
  · simp [hmade, hkind, hdelegate, Reason.verdict]
  · simp [hmade, hkind, hdelegate, hforeign, Reason.verdict]
  · simp [hmade, hkind, hdelegate, hforeign]

theorem first?_eq_none_iff : Reason.first? allowed t = none ↔ Exportable allowed t := by
  simp [Reason.first?, Exportable, Reason.mem_all]

theorem chosen?_eq :
    chosen? allowed t = if Exportable allowed t then some ⟨t, t.ns.getD ""⟩ else none := by
  simp only [chosen?, verdict_eq_first?, ← first?_eq_none_iff]
  cases Reason.first? allowed t with
  | none => rfl
  | some r => cases r <;> rfl

/-- Only a type of an allowed namespace is chosen, and under this one. -/
theorem eq_some_of_chosen? {s : Selected} (h : chosen? allowed t = some s) :
    s.type = t ∧ s.ns ∈ allowed ∧ s.ns ≠ "" ∧ t.ns = some s.ns := by
  rw [chosen?_eq, Option.ite_none_right_eq_some] at h
  obtain ⟨hexportable, hs⟩ := h
  obtain rfl := Option.some.inj hs
  obtain ⟨ns, hallowed, hne, hns⟩ := not_not.mp (hexportable .foreignNamespace)
  rw [hns, Option.getD_some]
  exact ⟨rfl, hallowed, hne, rfl⟩

theorem verdict_congr (h : ∀ ns, ns ∈ allowed ↔ ns ∈ allowed') :
    verdict allowed t = verdict allowed' t := by
  simp only [verdict, List.contains_iff_mem, h]

/-! ## All types of a catalog -/

/-- How many types are left out for the reason, as the first that applies to them. -/
def Reason.count (allowed : List String) (types : List TypeDecl) (r : Reason) : Nat :=
  types.countP fun t => first? allowed t = some r

theorem select_eq_filter (allowed : List String) (types : List TypeDecl) :
    select allowed types =
      (types.filter fun t => Exportable allowed t).map fun t => ⟨t, t.ns.getD ""⟩ := by
  rw [select, ← List.filterMap_eq_map, List.filterMap_filter]
  congr 1
  funext t
  simp [chosen?_eq]

theorem count_eq (allowed : List String) (types : List TypeDecl) :
    count allowed types =
      ⟨types.length, (select allowed types).length, Reason.count allowed types .compilerGenerated,
        Reason.count allowed types .notAClass, Reason.count allowed types .delegate,
        Reason.count allowed types .foreignNamespace⟩ := by
  induction types with
  | nil => rfl
  | cons t rest ih =>
    rw [count_cons, ih, verdict_eq_first?]
    simp only [select, List.filterMap_cons, chosen?, verdict_eq_first?, Reason.count, List.countP_cons]
    cases Reason.first? allowed t with
    | none => simp [Counters.add, Counters.ofVerdict, Counters.zero, Nat.add_comm]
    | some r =>
      cases r <;>
        simp [Reason.verdict, Counters.add, Counters.ofVerdict, Counters.zero, Nat.add_comm]

theorem selected_count (allowed : List String) (types : List TypeDecl) :
    (count allowed types).selected = (select allowed types).length := by
  rw [count_eq]

/-- Every type is counted once beside the total. -/
theorem total_count (allowed : List String) (types : List TypeDecl) :
    (count allowed types).total =
      (count allowed types).selected + (count allowed types).compilerGenerated +
        (count allowed types).notAClass + (count allowed types).delegates +
        (count allowed types).foreignNamespace := by
  induction types with
  | nil => rfl
  | cons t rest ih =>
    rw [count_cons]
    simp only [Counters.add, ih]
    cases verdict allowed t <;> simp only [Counters.ofVerdict, Counters.zero] <;> omega

/-- A selection has the types that there is no reason to leave out, in catalog order and as often as they
are there, each with its own namespace, which is never the global one. Of the counters the total is the
number of types, and it is the sum of the others; a type that is left out is counted under the first
reason that applies to it. Allowed namespaces in another order or repeated make no difference. -/
theorem select_exact (allowed : List String) (types : List TypeDecl) :
    select allowed types =
        (types.filter fun t => Exportable allowed t).map (fun t => ⟨t, t.ns.getD ""⟩) ∧
      (∀ s ∈ select allowed types, s.ns ∈ allowed ∧ s.ns ≠ "" ∧ s.type.ns = some s.ns) ∧
      count allowed types =
        ⟨types.length, (select allowed types).length, Reason.count allowed types .compilerGenerated,
          Reason.count allowed types .notAClass, Reason.count allowed types .delegate,
          Reason.count allowed types .foreignNamespace⟩ ∧
      (count allowed types).total =
        (count allowed types).selected + (count allowed types).compilerGenerated +
          (count allowed types).notAClass + (count allowed types).delegates +
          (count allowed types).foreignNamespace ∧
      ∀ allowed' : List String, (∀ ns, ns ∈ allowed ↔ ns ∈ allowed') →
        select allowed types = select allowed' types ∧ count allowed types = count allowed' types := by
  refine ⟨select_eq_filter allowed types, fun s hs => ?_, count_eq allowed types,
    total_count allowed types, fun allowed' h => ?_⟩
  · obtain ⟨t, -, hchosen⟩ := List.mem_filterMap.mp hs
    obtain ⟨rfl, hallowed, hne, hns⟩ := eq_some_of_chosen? hchosen
    exact ⟨hallowed, hne, hns⟩
  · have hverdict : verdict allowed = verdict allowed' := funext fun _ => verdict_congr h
    have hchosen : chosen? allowed = chosen? allowed' := by
      funext t
      rw [chosen?, chosen?, hverdict]
    exact ⟨by rw [select, select, hchosen], by rw [count, count, hverdict]⟩

/-- Of these types the first is left out for two reasons, and the second for its base type, whose name
holds the namespace. The base type of the third only looks like that of a delegate. The fourth is in the
global namespace, which cannot be allowed, and the fifth is there twice. -/
theorem select_exact_of_lookalikes :
    let types : List TypeDecl :=
      [{ TypeDecl.emptyClass "Game" "Made" with kind := .struct, attributes := ["CompilerGenerated"] },
        { TypeDecl.emptyClass "Game" "Handler" with base := some ⟨"System.MulticastDelegate", some "", []⟩ },
        { TypeDecl.emptyClass "Game" "Relay" with base := some (.qualified "Game" "MulticastDelegate") },
        .emptyClass "" "Global", .emptyClass "Game" "A", .emptyClass "Game" "A"]
    (∀ ns, ns ∈ ["", "Game", "Game"] ↔ ns ∈ ["Game", ""]) ∧
      select ["", "Game", "Game"] types = select ["Game", ""] types ∧
      count ["", "Game", "Game"] types = count ["Game", ""] types ∧
      (select ["Game", ""] types).map (fun s => (s.ns, s.type.name)) =
        [("Game", "Relay"), ("Game", "A"), ("Game", "A")] ∧
      count ["Game", ""] types = ⟨6, 3, 1, 0, 1, 1⟩ := by
  intro types
  have hsame : ∀ ns, ns ∈ ["", "Game", "Game"] ↔ ns ∈ ["Game", ""] := by
    intro ns
    simp [or_comm]
  obtain ⟨-, -, -, -, hallowed⟩ := select_exact ["", "Game", "Game"] types
  obtain ⟨hselect, hcount⟩ := hallowed ["Game", ""] hsame
  exact ⟨hsame, hselect, hcount, by decide, by decide⟩

end StubListing.Catalog
