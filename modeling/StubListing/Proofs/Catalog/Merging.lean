import StubListing.Catalog.Loading
/-!
# What merging does to a name

Looked up in a merged document, a name stands for the types of all modules that bear it, in the order of
the documents and of the modules in them. Looked up in a document as it was read, it stands for those of
the first such module.
-/
namespace StubListing.Catalog

/-- The types of all modules of that name, in order. -/
def typesNamed (name : String) (modules : List Module) : List TypeDecl :=
  (modules.filter fun m => m.name == name).flatMap (·.types)

theorem typesNamed_cons_self {name : String} {m : Module} (h : m.name = name) (rest : List Module) :
    typesNamed name (m :: rest) = m.types ++ typesNamed name rest := by
  simp [typesNamed, h]

theorem typesNamed_cons_of_ne {name : String} {m : Module} (h : m.name ≠ name) (rest : List Module) :
    typesNamed name (m :: rest) = typesNamed name rest := by
  simp [typesNamed, h]

theorem typesNamed_of_not_mem {name : String} {modules : List Module}
    (h : name ∉ modules.map (·.name)) : typesNamed name modules = [] := by
  induction modules with
  | nil => rfl
  | cons m rest ih =>
    rw [List.map_cons, List.mem_cons, not_or] at h
    rw [typesNamed_cons_of_ne (Ne.symm h.1), ih h.2]

namespace Document

/-- The first module of that name begins the types of the name, and they are all if the name is borne
once. -/
theorem find?_types {modules : List Module} {name : String} {m : Module}
    (h : modules.find? (fun x => x.name == name) = some m) :
    m.types <+: typesNamed name modules ∧
      ((modules.map (·.name)).count name = 1 → m.types = typesNamed name modules) := by
  induction modules with
  | nil => cases h
  | cons first rest ih =>
    by_cases hname : first.name = name
    · rw [List.find?_cons_of_pos (by simpa using hname)] at h
      obtain rfl := Option.some.inj h
      rw [typesNamed_cons_self hname]
      refine ⟨List.prefix_append _ _, fun hcount => ?_⟩
      rw [List.map_cons, hname, List.count_cons_self] at hcount
      have hnone : (rest.map (·.name)).count name = 0 := by omega
      rw [typesNamed_of_not_mem (List.count_eq_zero.mp hnone), List.append_nil]
    · rw [List.find?_cons_of_neg (by simpa using hname)] at h
      obtain ⟨hfront, hall⟩ := ih h
      rw [typesNamed_cons_of_ne hname, List.map_cons, List.count_cons_of_ne hname]
      exact ⟨hfront, hall⟩

theorem find?_isSome {modules : List Module} {name : String} :
    (modules.find? fun x => x.name == name).isSome = true ↔ name ∈ modules.map (·.name) := by
  simp only [List.find?_isSome, beq_iff_eq, List.mem_map]

/-- A module that is absorbed is found under its name, behind what was there; no other name changes. -/
theorem find?_absorb (m : Module) (modules : List Module) (name : String) :
    ((absorb m modules).find? fun x => x.name == name) =
      if m.name = name then
        some ⟨name, ((modules.find? fun x => x.name == name).map (·.types)).getD [] ++ m.types⟩
      else modules.find? fun x => x.name == name := by
  induction modules with
  | nil =>
    by_cases hname : m.name = name
    · obtain ⟨_, types⟩ := m
      obtain rfl := hname
      simp [absorb]
    · simp [absorb, hname]
  | cons present rest ih =>
    by_cases hsame : present.name = m.name
    · by_cases hname : m.name = name
      · simp [absorb, hsame, hname]
      · simp [absorb, hsame, hname]
    · by_cases hname : m.name = name
      · have hpresent : present.name ≠ name := fun h => hsame (h.trans hname.symm)
        rw [if_pos hname] at ih ⊢
        simp [absorb, hsame, hpresent, ih]
      · rw [if_neg hname] at ih ⊢
        by_cases hpresent : present.name = name
        · have hother : ¬ name = m.name := fun h => hname h.symm
          simp [absorb, hpresent, hother]
        · simp [absorb, hsame, hpresent, ih]

/-- Modules absorbed one after the other leave under each name what was there, followed by the types of
all of them that bear it. -/
theorem find?_foldl_absorb (others modules : List Module) (name : String) :
    ((others.foldl (fun ms m => absorb m ms) modules).find? fun x => x.name == name) =
      if name ∈ others.map (·.name) then
        some ⟨name, ((modules.find? fun x => x.name == name).map (·.types)).getD [] ++
          typesNamed name others⟩
      else modules.find? fun x => x.name == name := by
  induction others generalizing modules with
  | nil => simp
  | cons m rest ih =>
    rw [List.foldl_cons, ih, find?_absorb, List.map_cons]
    by_cases hname : m.name = name
    · rw [if_pos hname, typesNamed_cons_self hname]
      by_cases hrest : name ∈ rest.map (·.name)
      · simp [hrest]
      · rw [if_neg hrest, if_pos (by simp [hname]), typesNamed_of_not_mem hrest, List.append_nil]
    · have hname' : name ≠ m.name := Ne.symm hname
      rw [if_neg hname, typesNamed_cons_of_ne hname]
      simp only [List.mem_cons, hname', false_or]

/-- Looking a name up after a merge. -/
theorem find?_merge (d other : Document) (name : String) :
    (d.merge other).find? name =
      if name ∈ other.names then
        some ⟨name, ((d.find? name).map (·.types)).getD [] ++ typesNamed name other.modules⟩
      else d.find? name :=
  find?_foldl_absorb other.modules d.modules name

theorem require_eq_ok_iff {d : Document} {name : String} {m : Module} :
    d.require name = .ok m ↔ d.find? name = some m := by
  unfold require
  cases d.find? name <;> simp

/-- Merged into an empty document, a document has modules of the same names, each with all the types of
its name. -/
theorem require_merge_empty {d : Document} {name : String} {m : Module} :
    (empty.merge d).require name = .ok m ↔
      name ∈ d.names ∧ m = ⟨name, typesNamed name d.modules⟩ := by
  rw [require_eq_ok_iff, find?_merge]
  have hnone : empty.find? name = none := rfl
  by_cases hname : name ∈ d.names
  · simp [hname, hnone, eq_comm]
  · simp [hname, hnone]

theorem require_isOk_iff {d : Document} {name : String} :
    (∃ m, d.require name = .ok m) ↔ name ∈ d.names := by
  simp only [require_eq_ok_iff, ← Option.isSome_iff_exists]
  exact find?_isSome

end Document

end StubListing.Catalog
