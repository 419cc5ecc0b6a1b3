/-!
# File trees

A disk is a tree of directories, files and symbolic links, kept as a list of locations with what
is there. A location is the list of names that lead to it from the top, links not followed. The
top itself is always a directory and is not listed. What is at a location is its view `get?`;
every change is described by what it does to that view.
-/
namespace StubListing

/-- The names that lead to a place from the top of the tree. -/
abbrev Location := List String

inductive Entry where
  | directory
  | file (content : ByteArray)
  | link (target : String)
  deriving Inhabited

instance : DecidableEq Entry
  | .directory, .directory => .isTrue rfl
  | .file a, .file b =>
    @decidable_of_decidable_of_iff (a = b) _ (ByteArray.instDecidableEq a b) (by simp)
  | .link a, .link b => decidable_of_decidable_of_iff (p := a = b) (by simp)
  | .directory, .file _ => .isFalse nofun
  | .directory, .link _ => .isFalse nofun
  | .file _, .directory => .isFalse nofun
  | .file _, .link _ => .isFalse nofun
  | .link _, .directory => .isFalse nofun
  | .link _, .file _ => .isFalse nofun

/-- A tree of files, and the directory from which relative paths start. -/
structure Disk where
  entries : List (Location × Entry)
  home : Location
  deriving Inhabited

namespace Disk

/-- What is at a location. -/
def get? (d : Disk) (place : Location) : Option Entry :=
  if place = [] then some .directory else d.entries.lookup place

/-- The list with the entry at the location, in place of what was there. -/
def placed (place : Location) (e : Entry) : List (Location × Entry) → List (Location × Entry)
  | [] => [(place, e)]
  | (l, x) :: rest => if l = place then (l, e) :: rest else (l, x) :: placed place e rest

def put (d : Disk) (place : Location) (e : Entry) : Disk :=
  { d with entries := placed place e d.entries }

def drop (d : Disk) (place : Location) : Disk :=
  { d with entries := d.entries.filter fun p => p.1 ≠ place }

/-- The tree with nothing at the location or below it. -/
def dropAll (d : Disk) (place : Location) : Disk :=
  { d with entries := d.entries.filter fun p => !place.isPrefixOf p.1 }

/-- The name that leads from the directory to the location in one step. -/
def nameIn? : Location → Location → Option String
  | [], [name] => some name
  | a :: directory, b :: place => if a = b then nameIn? directory place else none
  | _, _ => none

def insertByName {α : Type} (name : String) (value : α) :
    List (String × α) → List (String × α)
  | [] => [(name, value)]
  | (n, v) :: rest =>
    if name < n then (name, value) :: (n, v) :: rest else (n, v) :: insertByName name value rest

def orderByName {α : Type} (named : List (String × α)) : List (String × α) :=
  named.foldl (fun ordered p => insertByName p.1 p.2 ordered) []

/-- What is directly in the directory, by name and in the order of names. -/
def children (d : Disk) (directory : Location) : List (String × Entry) :=
  orderByName (d.entries.filterMap fun p => (nameIn? directory p.1).map fun name => (name, p.2))

theorem lookup_placed (place l : Location) (e : Entry) (entries : List (Location × Entry)) :
    (placed place e entries).lookup l = if l = place then some e else entries.lookup l := by
  induction entries with
  | nil =>
    by_cases hl : l = place
    · simp [placed, hl]
    · have hb : (l == place) = false := by simpa using hl
      simp [placed, List.lookup_cons, hl, hb]
  | cons p rest ih =>
    obtain ⟨k, x⟩ := p
    by_cases hl : l = k
    · subst hl
      by_cases hk : l = place <;> simp [placed, hk]
    · have hb : (l == k) = false := by simpa using hl
      by_cases hk : k = place
      · subst hk
        simp [placed, List.lookup_cons, hb, hl]
      · simp [placed, hk, List.lookup_cons, hb, ih]

/-- Putting an entry somewhere changes what is there and nothing else. -/
theorem get?_put (d : Disk) (place l : Location) (e : Entry) (h : place ≠ []) :
    (d.put place e).get? l = if l = place then some e else d.get? l := by
  by_cases hl : l = []
  · subst hl
    have : ¬ ([] : Location) = place := fun e => h e.symm
    simp [get?, this]
  · simp [get?, hl, put, lookup_placed]

theorem lookup_filter_ne (place l : Location) (entries : List (Location × Entry)) :
    (entries.filter fun p => p.1 ≠ place).lookup l =
      if l = place then none else entries.lookup l := by
  induction entries with
  | nil => simp
  | cons p rest ih =>
    obtain ⟨k, x⟩ := p
    rw [List.filter_cons]
    by_cases hk : k = place
    · have hd : decide ((k, x).1 ≠ place) = false := by simp [hk]
      rw [hd]
      by_cases hl : l = place
      · simpa [hl] using ih
      · have hb : (l == k) = false := by simp [hk, hl]
        simpa [List.lookup_cons, hb, hl] using ih
    · have hd : decide ((k, x).1 ≠ place) = true := by simp [hk]
      rw [hd]
      by_cases hl : l = k
      · subst hl
        simp [hk]
      · have hb : (l == k) = false := by simpa using hl
        simpa [List.lookup_cons, hb] using ih

/-- Dropping what is somewhere changes nothing else. -/
theorem get?_drop (d : Disk) (place l : Location) (h : place ≠ []) :
    (d.drop place).get? l = if l = place then none else d.get? l := by
  by_cases hl : l = []
  · subst hl
    have : ¬ ([] : Location) = place := fun e => h e.symm
    simp [get?, this]
  · simp only [get?, hl, if_false, drop]
    exact lookup_filter_ne place l d.entries

end Disk

end StubListing
