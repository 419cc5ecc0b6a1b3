import StubListing.Proofs.Catalog.Merging
import StubListing.Proofs.Occurrences
import StubListing.Catalog.Selection
/-!
# Merging as concatenation

Merged into an empty document, documents give one module for each name, in the order in which the names
first occur, with the types of all modules of the name one behind the other. So a selection from such a
module is made of the selections from the single modules. Merging is associative where no name is
repeated, although a document that is merged changes while it is read: a module that is there already
takes up the types of a later one in its place, whatever is absorbed in between.
-/
namespace StubListing.Catalog
namespace Document

/-! ## Absorbing one module -/

variable {m p : Module} {modules others : List Module} {name : String}

theorem absorb_of_not_mem (h : m.name ∉ modules.map (·.name)) : absorb m modules = modules ++ [m] := by
  induction modules with
  | nil => rfl
  | cons present rest ih =>
    rw [List.map_cons, List.mem_cons, not_or] at h
    rw [absorb, if_neg (by simpa using Ne.symm h.1), ih h.2, List.cons_append]

/-- Two modules of one name are absorbed as one with the types of both. -/
theorem absorb_absorb_of_eq (h : p.name = m.name) :
    absorb m (absorb p modules) = absorb ⟨p.name, p.types ++ m.types⟩ modules := by
  induction modules with
  | nil => simp [absorb, h]
  | cons present rest ih =>
    by_cases hp : present.name = p.name
    · simp [absorb, hp, h]
    · simp [absorb, hp, ← h, ih]

/-- A module whose name is there is absorbed in its place, so another one may come in between. -/
theorem absorb_comm (hm : m.name ∈ modules.map (·.name)) (h : p.name ≠ m.name) :
    absorb m (absorb p modules) = absorb p (absorb m modules) := by
  induction modules with
  | nil => simp at hm
  | cons present rest ih =>
    by_cases hp : present.name = p.name
    · have hm' : ¬ present.name = m.name := fun e => h (hp.symm.trans e)
      simp [absorb, hp, h]
    · by_cases hm' : present.name = m.name
      · have hother : ¬ m.name = p.name := fun e => h e.symm
        simp [absorb, hm', hother]
      · have hrest : m.name ∈ rest.map (·.name) := by
          rw [List.map_cons, List.mem_cons] at hm
          exact hm.resolve_left (Ne.symm hm')
        simp [absorb, hp, hm', ih hrest]

/-! ## Merging -/

variable {a b c d : Document}

theorem merge_cons (d : Document) (m : Module) (rest : List Module) :
    d.merge ⟨m :: rest⟩ = (Document.mk (absorb m d.modules)).merge ⟨rest⟩ := rfl

theorem mem_names_absorb : name ∈ (absorb m modules).map (·.name) ↔
    name ∈ modules.map (·.name) ∨ name = m.name := by
  rw [map_name_absorb]
  split <;> grind

theorem nodup_absorb (h : (modules.map (·.name)).Nodup) : ((absorb m modules).map (·.name)).Nodup := by
  rw [map_name_absorb]
  split
  · exact h
  · rename_i hnew
    rw [← List.concat_eq_append]
    exact h.concat hnew

/-- A module whose name is there can as well be absorbed after modules of other names. -/
theorem merge_absorb_of_mem (hm : m.name ∈ d.names) (h : m.name ∉ others.map (·.name)) :
    (Document.mk (absorb m d.modules)).merge ⟨others⟩ = ⟨absorb m (d.merge ⟨others⟩).modules⟩ := by
  induction others generalizing d with
  | nil => rfl
  | cons p rest ih =>
    rw [List.map_cons, List.mem_cons, not_or] at h
    rw [merge_cons, merge_cons, ← absorb_comm hm (Ne.symm h.1)]
    exact ih (d := ⟨absorb p d.modules⟩) (mem_names_absorb.mpr (Or.inl hm)) h.2

/-- What is absorbed before a merge can as well be absorbed after it, if no name is repeated. -/
theorem merge_absorb (d : Document) (h : (others.map (·.name)).Nodup) :
    d.merge ⟨absorb m others⟩ = ⟨absorb m (d.merge ⟨others⟩).modules⟩ := by
  induction others generalizing d with
  | nil => rfl
  | cons p rest ih =>
    rw [List.map_cons, List.nodup_cons] at h
    by_cases hp : p.name = m.name
    · rw [absorb, if_pos (by simpa using hp), merge_cons, merge_cons, ← absorb_absorb_of_eq hp]
      exact merge_absorb_of_mem (d := ⟨absorb p d.modules⟩) (mem_names_absorb.mpr (Or.inr hp.symm))
        (hp ▸ h.1)
    · rw [absorb, if_neg (by simpa using hp), merge_cons, merge_cons]
      exact ih _ h.2

theorem merge_assoc (a c : Document) (h : b.names.Nodup) : (a.merge b).merge c = a.merge (b.merge c) := by
  obtain ⟨modules⟩ := c
  induction modules generalizing b with
  | nil => rfl
  | cons m rest ih =>
    rw [merge_cons, merge_cons, ← merge_absorb a h]
    exact ih (b := ⟨absorb m b.modules⟩) (nodup_absorb h)

/-- Modules of new names stay as they are. -/
theorem merge_of_nodup (h : (d.names ++ others.map (·.name)).Nodup) :
    d.merge ⟨others⟩ = ⟨d.modules ++ others⟩ := by
  induction others generalizing d with
  | nil => simp [merge]
  | cons m rest ih =>
    have hnew : m.name ∉ d.names := by
      rw [List.map_cons, List.nodup_middle, List.nodup_cons, List.mem_append, not_or] at h
      exact h.1.1
    rw [merge_cons, absorb_of_not_mem hnew, ih]
    · simp
    · simpa [names] using h

theorem empty_merge (h : d.names.Nodup) : empty.merge d = d := merge_of_nodup h

/-! ## Merging many documents -/

theorem merge_append (d : Document) (front back : List Module) :
    d.merge ⟨front ++ back⟩ = (d.merge ⟨front⟩).merge ⟨back⟩ := by
  simp only [merge, List.foldl_append]

/-- Documents are merged like one that has the modules of all of them. -/
theorem mergeAll_eq_merge (documents : List Document) :
    mergeAll documents = empty.merge ⟨documents.flatMap (·.modules)⟩ := by
  suffices ∀ d : Document, documents.foldl merge d = d.merge ⟨documents.flatMap (·.modules)⟩ from
    this empty
  induction documents with
  | nil => exact fun d => rfl
  | cons doc rest ih =>
    intro d
    rw [List.foldl_cons, ih, List.flatMap_cons, merge_append]

/-- No name is repeated, and the names are in the order in which they first occur. -/
theorem names_empty_merge (modules : List Module) :
    (empty.merge ⟨modules⟩).names = (modules.map (·.name)).eraseDups := by
  induction modules using List.reverseRecOn with
  | nil => rfl
  | append_singleton front m ih =>
    have hm : m.name ∈ (empty.merge ⟨front⟩).names ↔ m.name ∈ front.map (·.name) := by
      rw [ih, List.mem_eraseDups]
    rw [List.map_append, List.map_singleton, eraseDups_concat, ← ih, merge_append]
    show (absorb m (empty.merge ⟨front⟩).modules).map (·.name) = _
    rw [map_name_absorb]
    simp only [names] at hm ⊢
    simp only [hm]

/-- Where names are not repeated, a module is found under its name. -/
theorem find?_of_mem (h : d.names.Nodup) (hm : m ∈ d.modules) : d.find? m.name = some m := by
  obtain ⟨modules⟩ := d
  induction modules with
  | nil => cases hm
  | cons first rest ih =>
    obtain ⟨hfirst, hrest⟩ := List.nodup_cons.mp h
    rcases List.mem_cons.mp hm with rfl | hm
    · simp [find?]
    · have hne : first.name ≠ m.name := fun e => hfirst (List.mem_map.mpr ⟨m, hm, e.symm⟩)
      rw [find?, List.find?_cons_of_neg (by simpa using hne)]
      exact ih hrest hm

end Document

/-! ## Selecting from several modules -/

namespace Counters

/-- The counters of several selections, added. -/
def sum (counters : List Counters) : Counters := counters.foldr add zero

theorem zero_add (a : Counters) : zero.add a = a := by
  simp [add, zero]

theorem add_assoc (a b c : Counters) : (a.add b).add c = a.add (b.add c) := by
  simp only [add, Nat.add_assoc]

end Counters

theorem count_append (allowed : List String) (front back : List TypeDecl) :
    count allowed (front ++ back) = (count allowed front).add (count allowed back) := by
  induction front with
  | nil => rw [List.nil_append, count_nil, Counters.zero_add]
  | cons t rest ih => rw [List.cons_append, count_cons, ih, count_cons, Counters.add_assoc]

theorem select_flatMap (allowed : List String) (modules : List Module) :
    select allowed (modules.flatMap (·.types)) = modules.flatMap fun m => select allowed m.types :=
  List.filterMap_flatMap

theorem count_flatMap (allowed : List String) (modules : List Module) :
    count allowed (modules.flatMap (·.types)) =
      Counters.sum (modules.map fun m => count allowed m.types) := by
  induction modules with
  | nil => rfl
  | cons m rest ih =>
    rw [List.flatMap_cons, count_append, ih]
    rfl

/-! ## Documents as concatenations -/

/-- The document has, module by module, what the modules hold between them: one module for each name that
occurs, in the order of their first occurrences, with the types of all modules of the name in order. A
name is found and provided exactly if it occurs; and what is selected under it is what is selected from
the modules of the name, one behind the other, with the counters added. -/
structure Concatenates (modules : List Module) (d : Document) : Prop where
  distinct : d.names.Nodup
  occurring : ∀ name, name ∈ d.names ↔ name ∈ modules.map (·.name)
  ordered : d.names.Pairwise fun a b =>
    (modules.map (·.name)).idxOf a < (modules.map (·.name)).idxOf b
  types : ∀ m ∈ d.modules, m.types = typesNamed m.name modules
  found : ∀ name m, d.find? name = some m ↔
    name ∈ modules.map (·.name) ∧ m = ⟨name, typesNamed name modules⟩
  required : ∀ name m, d.require name = .ok m ↔
    name ∈ modules.map (·.name) ∧ m = ⟨name, typesNamed name modules⟩
  selected : ∀ name m, d.find? name = some m → ∀ allowed, select allowed m.types =
    (modules.filter fun part => part.name == name).flatMap fun part => select allowed part.types
  counted : ∀ name m, d.find? name = some m → ∀ allowed, count allowed m.types =
    Counters.sum
      ((modules.filter fun part => part.name == name).map fun part => count allowed part.types)

theorem concatenates_empty_merge (modules : List Module) :
    Concatenates modules (Document.empty.merge ⟨modules⟩) := by
  have hfound : ∀ name m, (Document.empty.merge ⟨modules⟩).find? name = some m ↔
      name ∈ modules.map (·.name) ∧ m = ⟨name, typesNamed name modules⟩ := fun name m =>
    Document.require_eq_ok_iff.symm.trans Document.require_merge_empty
  have hnames := Document.names_empty_merge modules
  have hdistinct : (Document.empty.merge ⟨modules⟩).names.Nodup := hnames ▸ nodup_eraseDups _
  refine ⟨hdistinct, fun name => ?_, hnames ▸ pairwise_eraseDups _, fun m hm => ?_, hfound,
    fun name m => Document.require_merge_empty, fun name m h allowed => ?_, fun name m h allowed => ?_⟩
  · rw [hnames, List.mem_eraseDups]
  · obtain ⟨-, heq⟩ := (hfound _ _).mp (Document.find?_of_mem hdistinct hm)
    exact congrArg Module.types heq
  · obtain ⟨-, rfl⟩ := (hfound _ _).mp h
    exact select_flatMap allowed _
  · obtain ⟨-, rfl⟩ := (hfound _ _).mp h
    exact count_flatMap allowed _

/-- Documents merged one by one into an empty one give a document that has what they hold between them.
Merging is associative if the document in the middle repeats no name; and the empty document does not
change such a document, on either side. -/
theorem mergeAll_concatenates (documents : List Document) (a b c : Document) :
    Concatenates (documents.flatMap (·.modules)) (Document.mergeAll documents) ∧
      (b.names.Nodup →
        (a.merge b).merge c = a.merge (b.merge c) ∧
          b.merge .empty = b ∧ Document.empty.merge b = b) := by
  refine ⟨?_, fun hb => ⟨Document.merge_assoc a c hb, rfl, Document.empty_merge hb⟩⟩
  rw [Document.mergeAll_eq_merge]
  exact concatenates_empty_merge _

/-- The first of these documents repeats a name, and the later ones have it neither first nor last. -/
theorem mergeAll_concatenates_of_repeating :
    let module (name : String) (types : List String) : Module := ⟨name, types.map (.emptyClass "Game")⟩
    let a : Document := ⟨[module "M" ["A"], module "N" [], module "M" ["B"]]⟩
    let b : Document := ⟨[module "P" ["C"], module "N" ["A"]]⟩
    let c : Document := ⟨[module "N" ["D"], module "M" ["A"], module "P" []]⟩
    b.names.Nodup ∧ (a.merge b).merge c = a.merge (b.merge c) ∧
      b.merge .empty = b ∧ Document.empty.merge b = b ∧
      Concatenates (a.modules ++ b.modules ++ c.modules) (Document.mergeAll [a, b, c]) ∧
      (Document.mergeAll [a, b, c]).modules.map (fun m => (m.name, m.types.map (·.name))) =
        [("M", ["A", "B", "A"]), ("N", ["A", "D"]), ("P", ["C"])] := by
  intro module a b c
  have hb : b.names.Nodup := by decide
  obtain ⟨hconcatenates, hlaws⟩ := mergeAll_concatenates [a, b, c] a b c
  obtain ⟨hassoc, hright, hleft⟩ := hlaws hb
  exact ⟨hb, hassoc, hright, hleft, hconcatenates, by decide⟩

end StubListing.Catalog
