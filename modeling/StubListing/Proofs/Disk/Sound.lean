import Mathlib.Data.List.Induction
import Mathlib.Data.List.Nodup
import Mathlib.Data.List.Perm.Basic
import StubListing.Disk.Change
import StubListing.Proofs.Path.Segments
/-!
# Sound trees

A tree as a file system keeps it: every location is listed once, whatever is listed is in a
directory, and its name can be written as one segment of a path. The listing of a directory then
shows exactly what is in it, and the single changes leave a sound tree behind.
-/
namespace StubListing.Disk

/-- A name that the system accepts for an entry. -/
structure IsStorable (name : String) : Prop extends Path.IsEntryName name where
  short : name.utf8ByteSize ≤ longestName
  noNull : '\x00' ∉ name.toList

structure Sound (d : Disk) : Prop where
  distinct : (d.entries.map (·.1)).Nodup
  housed : ∀ {place : Location} {name : String} {e : Entry},
    d.get? (place ++ [name]) = some e → d.get? place = some .directory
  named : ∀ {place : Location} {name : String} {e : Entry},
    d.get? (place ++ [name]) = some e → IsStorable name

/-- The location lies below the directory, at any depth. -/
def Inside (directory place : Location) : Prop :=
  ∃ name rest, place = directory ++ name :: rest

theorem inside_child (directory : Location) (name : String) : Inside directory (directory ++ [name]) :=
  ⟨name, [], rfl⟩

theorem inside_append {directory place : Location} (h : Inside directory place) (more : Location) :
    Inside directory (place ++ more) := by
  obtain ⟨name, rest, rfl⟩ := h
  exact ⟨name, rest ++ more, by simp⟩

/-- What is two names down is not one name down. -/
theorem grandchild_ne_child (directory : Location) (a b c : String) :
    directory ++ [a] ++ [b] ≠ directory ++ [c] := by
  intro h
  have := congrArg List.length h
  simp at this

theorem not_inside_of_isPrefix {directory place : Location} (h : place <+: directory) :
    ¬ Inside directory place := by
  rintro ⟨name, rest, rfl⟩
  have := h.length_le
  rw [List.length_append, List.length_cons] at this
  omega

theorem not_inside_self (directory : Location) : ¬ Inside directory directory :=
  not_inside_of_isPrefix List.prefix_rfl

@[simp] theorem get?_top (d : Disk) : d.get? [] = some .directory := by simp [get?]

/-- Above everything there are directories only. -/
theorem Sound.directory_above {d : Disk} (hd : d.Sound) (place : Location) :
    ∀ {rest : Location} {e : Entry}, rest ≠ [] → d.get? (place ++ rest) = some e →
      d.get? place = some .directory := by
  intro rest
  induction rest using List.reverseRecOn with
  | nil => intro e h; exact absurd rfl h
  | append_singleton rest name ih =>
    intro e _ h
    rw [← List.append_assoc] at h
    have hup := hd.housed h
    by_cases hrest : rest = []
    · simpa [hrest] using hup
    · exact ih hrest hup

theorem Sound.nothing_below {d : Disk} (hd : d.Sound) {place : Location}
    (h : d.get? place ≠ some .directory) {l : Location} (hl : Inside place l) : d.get? l = none := by
  obtain ⟨name, rest, rfl⟩ := hl
  cases hg : d.get? (place ++ name :: rest) with
  | none => rfl
  | some e => exact absurd (hd.directory_above place (by simp) hg) h

/-! ## Checking -/

theorem lookup_eq_some_iff_mem {entries : List (Location × Entry)}
    (h : (entries.map (·.1)).Nodup) {place : Location} {e : Entry} :
    entries.lookup place = some e ↔ (place, e) ∈ entries := by
  induction entries with
  | nil => simp
  | cons p rest ih =>
    obtain ⟨k, x⟩ := p
    simp only [List.map_cons, List.nodup_cons] at h
    by_cases hk : place = k
    · subst hk
      have : (place, e) ∉ rest := fun hm => h.1 (List.mem_map.mpr ⟨_, hm, rfl⟩)
      simp [this, eq_comm]
    · have hb : (place == k) = false := by simpa using hk
      simp [List.lookup_cons, hb, ih h.2, hk]

instance (name : String) : Decidable (IsStorable name) :=
  decidable_of_iff
    ('/' ∉ name.toList ∧ Path.isIdle name = false ∧ name ≠ ".." ∧ name.utf8ByteSize ≤ longestName ∧
      '\x00' ∉ name.toList)
    ⟨fun ⟨hslash, hidle, hup, hshort, hnull⟩ => ⟨⟨hslash, hidle, hup⟩, hshort, hnull⟩,
      fun h => ⟨h.noSlash, h.notIdle, h.notUp, h.short, h.noNull⟩⟩

/-- The location is in a directory and its name can be stored. -/
def isPlaced (d : Disk) (place : Location) : Bool :=
  match place.reverse with
  | [] => true
  | name :: above => decide (d.get? above.reverse = some .directory ∧ IsStorable name)

theorem isPlaced_append_singleton {d : Disk} {place : Location} {name : String} :
    d.isPlaced (place ++ [name]) = true ↔ d.get? place = some .directory ∧ IsStorable name := by
  simp [isPlaced]

/-- Soundness can be checked entry by entry. -/
theorem sound_iff {d : Disk} :
    d.Sound ↔ (d.entries.map (·.1)).Nodup ∧ ∀ x ∈ d.entries, d.isPlaced x.1 = true := by
  constructor
  · refine fun hd => ⟨hd.distinct, fun x hx => ?_⟩
    obtain ⟨place, e⟩ := x
    induction place using List.reverseRecOn with
    | nil => rfl
    | append_singleton place name _ =>
      have hget : d.get? (place ++ [name]) = some e := by
        rw [get?, if_neg (by simp)]
        exact (lookup_eq_some_iff_mem hd.distinct).mpr hx
      exact isPlaced_append_singleton.mpr ⟨hd.housed hget, hd.named hget⟩
  · rintro ⟨hdistinct, hplaced⟩
    have hlisted : ∀ {place : Location} {name : String} {e : Entry},
        d.get? (place ++ [name]) = some e →
          d.get? place = some .directory ∧ IsStorable name := by
      intro place name e h
      rw [get?, if_neg (by simp), lookup_eq_some_iff_mem hdistinct] at h
      exact isPlaced_append_singleton.mp (hplaced _ h)
    exact ⟨hdistinct, fun h => (hlisted h).1, fun h => (hlisted h).2⟩

instance (d : Disk) : Decidable d.Sound := decidable_of_iff _ sound_iff.symm

/-! ## Listings -/

theorem nameIn?_eq_some {directory place : Location} {name : String} :
    nameIn? directory place = some name ↔ place = directory ++ [name] := by
  induction directory generalizing place with
  | nil =>
    match place with
    | [] => simp [nameIn?]
    | [a] => simp [nameIn?]
    | a :: b :: rest => simp [nameIn?]
  | cons a directory ih =>
    cases place with
    | nil => simp [nameIn?]
    | cons b place =>
      by_cases hab : a = b
      · subst hab; simp [nameIn?, ih]
      · have : ¬ b = a := fun e => hab e.symm
        simp [nameIn?, hab, this]

theorem insertByName_perm {α : Type} (name : String) (value : α) (named : List (String × α)) :
    (insertByName name value named).Perm ((name, value) :: named) := by
  induction named with
  | nil => exact List.Perm.refl _
  | cons p rest ih =>
    simp only [insertByName]
    split
    · exact List.Perm.refl _
    · exact (ih.cons p).trans (List.Perm.swap _ _ _)

theorem orderByName_perm {α : Type} (named : List (String × α)) : (orderByName named).Perm named := by
  have h : ∀ ordered : List (String × α),
      (named.foldl (fun ordered p => insertByName p.1 p.2 ordered) ordered).Perm
        (named ++ ordered) := by
    induction named with
    | nil => exact fun ordered => List.Perm.refl _
    | cons p rest ih =>
      intro ordered
      refine (ih _).trans ?_
      exact ((insertByName_perm p.1 p.2 ordered).append_left rest).trans List.perm_middle
  simpa [orderByName] using h []

theorem Sound.mem_children {d : Disk} (hd : d.Sound) {directory : Location} {name : String}
    {e : Entry} : (name, e) ∈ d.children directory ↔ d.get? (directory ++ [name]) = some e := by
  have hne : directory ++ [name] ≠ [] := by simp
  rw [children, (orderByName_perm _).mem_iff, get?, if_neg hne, lookup_eq_some_iff_mem hd.distinct,
    List.mem_filterMap]
  constructor
  · rintro ⟨⟨place, x⟩, hm, hx⟩
    simp only [Option.map_eq_some_iff, Prod.mk.injEq] at hx
    obtain ⟨n, hn, rfl, rfl⟩ := hx
    rwa [nameIn?_eq_some.mp hn] at hm
  · intro hm
    exact ⟨_, hm, by simp [nameIn?_eq_some.mpr rfl]⟩

theorem Sound.nodup_children {d : Disk} (hd : d.Sound) (directory : Location) :
    ((d.children directory).map (·.1)).Nodup := by
  rw [children, ((orderByName_perm _).map _).nodup_iff]
  have hsub : ∀ entries : List (Location × Entry), (entries.map (·.1)).Nodup →
      ((entries.filterMap fun p => (nameIn? directory p.1).map fun name => (name, p.2)).map
        (·.1)).Nodup := by
    intro entries
    induction entries with
    | nil => simp
    | cons p rest ih =>
      intro h
      simp only [List.map_cons, List.nodup_cons] at h
      cases hn : nameIn? directory p.1 with
      | none => simpa [List.filterMap_cons, hn] using ih h.2
      | some name =>
        simp only [List.filterMap_cons, hn, Option.map_some, List.map_cons, List.nodup_cons]
        refine ⟨fun hm => ?_, ih h.2⟩
        simp only [List.mem_map, List.mem_filterMap, Option.map_eq_some_iff] at hm
        obtain ⟨⟨_, _⟩, ⟨q, hq, m, hm, hmq⟩, rfl⟩ := hm
        simp only [Prod.mk.injEq] at hmq
        apply h.1
        rw [nameIn?_eq_some.mp hn, ← hmq.1, ← nameIn?_eq_some.mp hm]
        exact List.mem_map.mpr ⟨q, hq, rfl⟩
  exact hsub d.entries hd.distinct

theorem Sound.children_isEmpty {d : Disk} (hd : d.Sound) (directory : Location) :
    (d.children directory).isEmpty = true ↔ ∀ name, d.get? (directory ++ [name]) = none := by
  rw [List.isEmpty_iff, List.eq_nil_iff_forall_not_mem]
  constructor
  · intro h name
    cases hg : d.get? (directory ++ [name]) with
    | none => rfl
    | some e => exact absurd (hd.mem_children.mpr hg) (h _)
  · rintro h ⟨name, e⟩ hm
    have := hd.mem_children.mp hm
    rw [h name] at this
    cases this

/-! ## Changes -/

theorem keys_placed (place : Location) (e : Entry) (entries : List (Location × Entry)) :
    (placed place e entries).map (·.1) =
      if place ∈ entries.map (·.1) then entries.map (·.1) else entries.map (·.1) ++ [place] := by
  induction entries with
  | nil => simp [placed]
  | cons p rest ih =>
    obtain ⟨l, x⟩ := p
    by_cases hl : l = place
    · simp [placed, hl]
    · have : ¬ place = l := fun e => hl e.symm
      simp only [placed, hl, if_false, List.map_cons, ih, List.mem_cons, this, false_or]
      split <;> simp

/-- Something new in a directory, or something else in place of a file. -/
theorem Sound.put {d : Disk} (hd : d.Sound) {directory : Location} {name : String} {e : Entry}
    (hdir : d.get? directory = some .directory) (hname : IsStorable name)
    (hkeep : d.get? (directory ++ [name]) = some .directory → e = .directory) :
    (d.put (directory ++ [name]) e).Sound := by
  have hne : directory ++ [name] ≠ [] := by simp
  have hget := fun l => get?_put d (directory ++ [name]) l e hne
  refine ⟨?_, ?_, ?_⟩
  · rw [Disk.put, keys_placed]
    split
    · exact hd.distinct
    · rename_i hmem
      refine List.nodup_append.mpr ⟨hd.distinct, by simp, ?_⟩
      intro a ha b hb hab
      rw [List.mem_singleton.mp hb] at hab
      exact hmem (hab ▸ ha)
  · intro place n x h
    rw [hget] at h ⊢
    split at h
    · rename_i heq
      have hself : ¬ place = directory ++ [name] := by
        rintro rfl
        have := congrArg List.length heq
        simp at this
      have hplace : place = directory := (List.append_inj' heq rfl).1
      rw [if_neg hself, hplace]
      exact hdir
    · have hup := hd.housed h
      split
      · rename_i hself
        rw [hself] at hup
        rw [hkeep hup]
      · exact hup
  · intro place n x h
    rw [hget] at h
    split at h
    · rename_i heq
      have := (List.append_inj' heq rfl).2
      rw [List.singleton_inj.mp this]
      exact hname
    · exact hd.named h

/-- Nothing is left where nothing else was. -/
theorem Sound.drop {d : Disk} (hd : d.Sound) {place : Location} (hne : place ≠ [])
    (hempty : ∀ name, d.get? (place ++ [name]) = none) : (d.drop place).Sound := by
  have hget := fun l => get?_drop d place l hne
  refine ⟨?_, ?_, ?_⟩
  · exact hd.distinct.sublist (List.filter_sublist.map _)
  · intro directory name x h
    rw [hget] at h ⊢
    split at h
    · cases h
    · split
      · rename_i hself
        rw [hself, hempty] at h
        cases h
      · exact hd.housed h
  · intro directory name x h
    rw [hget] at h
    split at h
    · cases h
    · exact hd.named h

end StubListing.Disk
