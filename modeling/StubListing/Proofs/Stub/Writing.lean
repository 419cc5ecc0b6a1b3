import StubListing.Proofs.Disk.Leads
import StubListing.Stub.Job
/-!
# The steps of one stub

A stub touches two places of the tree: the directory of its namespace and its own file in it.
What each step does is told by what is at these two places, whatever else the tree holds, so the
fate of a stub can be read off the tree before anything is written.
-/
namespace StubListing

namespace Disk

/-- Putting there what is there changes nothing. -/
theorem put_self {d : Disk} {place : Location} {e : Entry} (hne : place ≠ [])
    (h : d.get? place = some e) : d.put place e = d := by
  have hplaced : ∀ entries : List (Location × Entry), entries.lookup place = some e →
      placed place e entries = entries := by
    intro entries
    induction entries with
    | nil => intro h; cases h
    | cons p rest ih =>
      obtain ⟨l, x⟩ := p
      intro h
      by_cases hl : l = place
      · subst hl
        simp only [List.lookup_cons, beq_self_eq_true, Option.some.injEq] at h
        simp [placed, h]
      · have hb : (place == l) = false := by simpa using fun e => hl e.symm
        simp only [List.lookup_cons, hb] at h
        simp [placed, hl, ih h]
  rw [get?, if_neg hne] at h
  rw [put, hplaced _ h]

theorem write_empty {d : Disk} {place : Location} (h : d.get? place = some (.file .empty))
    (content : ByteArray) : d.write place content = d.put place (.file content) := by
  have hempty : (ByteArray.empty).extract content.size 0 = ByteArray.empty := by
    apply ByteArray.ext
    simp
  rw [write, h]
  simp [hempty]

end Disk

namespace Files
open StubListing.Path (IsEntryName)
open StubListing.Disk (Leads Unlinked checkPath longestName)

/-- Whether a directory can be had where this is. -/
def housing (p : Path) (name : String) (here : Option Entry) : Except SystemError Unit :=
  (checkPath p).bind fun _ =>
    if longestName < name.utf8ByteSize then .error .nameTooLong
    else if here.all (· == .directory) then .ok () else .error .alreadyThere

/-- Whether a file can be opened where this is. -/
def opening (p : Path) (name : String) (here : Option Entry) : Except SystemError Unit :=
  (checkPath p).bind fun _ =>
    if longestName < name.utf8ByteSize then .error .nameTooLong
    else if here = some .directory then .error .isADirectory else .ok ()

theorem housing_eq_ok {p : Path} {name : String} {here : Option Entry} :
    housing p name here = .ok () ↔
      checkPath p = .ok () ∧ name.utf8ByteSize ≤ longestName ∧
        (here = none ∨ here = some .directory) := by
  unfold housing
  cases checkPath p with
  | error e => simp [Except.bind]
  | ok _ =>
    by_cases hlen : longestName < name.utf8ByteSize
    · simp [Except.bind, hlen, Nat.not_le.mpr hlen]
    · cases here <;> simp [Except.bind, hlen, Nat.not_lt.mp hlen]

theorem opening_eq_ok {p : Path} {name : String} {here : Option Entry} :
    opening p name here = .ok () ↔
      checkPath p = .ok () ∧ name.utf8ByteSize ≤ longestName ∧ here ≠ some .directory := by
  unfold opening
  cases checkPath p with
  | error e => simp [Except.bind]
  | ok _ =>
    by_cases hlen : longestName < name.utf8ByteSize
    · simp [Except.bind, hlen, Nat.not_le.mpr hlen]
    · simp [Except.bind, hlen, Nat.not_lt.mp hlen]

variable {d : Disk} {root : Path} {place : Location} {name : String}

/-- A directory that can be had is there afterwards; otherwise nothing changes. -/
theorem provide_child (h : Leads d root place) (hn : IsEntryName name)
    (hu : Unlinked d (place ++ [name])) :
    provide d (root.join name) =
      match housing (root.join name) name (d.get? (place ++ [name])) with
      | .ok _ => (.ok (), d.put (place ++ [name]) .directory)
      | .error e => (.error ⟨["Failed to create directory " ++ (root.join name).text], .system e⟩, d) := by
  have hfind := h.find_child hn hu
  have hplace := h.place_child hn .directory
  rw [provide, h.makeDirectories_child hn, Disk.secure, Disk.makeDirectory, hplace, Disk.isDirectory, hfind,
    housing]
  cases checkPath (root.join name) with
  | error e =>
    cases e <;> simp [Except.bind]
  | ok _ =>
    by_cases hlen : longestName < name.utf8ByteSize
    · simp [Except.bind, hlen]
    · cases hg : d.get? (place ++ [name]) with
      | none => simp [Except.bind, hlen]
      | some e =>
        cases e with
        | link target => exact absurd hg (hu target)
        | directory =>
          have hself := Disk.put_self (by simp) hg
          simp [Except.bind, hlen, hg, hself]
        | file content => simp [Except.bind, hlen, hg]

/-- Opening a file in a directory that is there. -/
theorem openFile_child {directory : String} (h : Leads d root place) (hd : IsEntryName directory)
    (hhouse : housing (root.join directory) directory (d.get? (place ++ [directory])) = .ok ())
    (hdir : d.get? (place ++ [directory]) = some .directory) (hn : IsEntryName name)
    (hu : Unlinked d (place ++ [directory] ++ [name])) :
    openFile d ((root.join directory).join name) =
      match opening ((root.join directory).join name) name
          (d.get? (place ++ [directory] ++ [name])) with
      | .ok _ => (.ok (place ++ [directory] ++ [name]),
          d.put (place ++ [directory] ++ [name]) (.file .empty))
      | .error e => (.error ⟨["Failed to create file " ++ ((root.join directory).join name).text],
          .system e⟩, d) := by
  obtain ⟨hcheck, hlen, _⟩ := housing_eq_ok.mp hhouse
  have hprovide := provide_child h hd (Disk.unlinked_of_directory hdir)
  rw [hhouse, Disk.put_self (by simp) hdir] at hprovide
  have hchild := h.child hd hlen hdir
  rw [openFile, Path.parent?_join_join root hd hn]
  simp only [hprovide, hchild.create_child hn hu, opening]
  cases checkPath ((root.join directory).join name) with
  | error e => rfl
  | ok _ =>
    simp only [Except.bind]
    by_cases hlong : longestName < name.utf8ByteSize
    · simp [hlong]
    · by_cases hg : d.get? (place ++ [directory] ++ [name]) = some .directory
      · simp only [if_neg hlong, if_pos hg]
      · simp only [if_neg hlong, if_neg hg]

end Files

namespace Stub.Job
open StubListing.Path (IsEntryName)
open StubListing.Disk (Leads Unlinked)
open StubListing.Files (housing opening)

/-- The name of the stub's file. -/
def fileName (j : Job) : String := j.type.name ++ "." ++ j.extension

/-- The place of the directory that the stub goes to, below the place of the output root. -/
def house (j : Job) (root : Location) : Location := root ++ [j.ns]

/-- The place of the stub's file. -/
def spot (j : Job) (root : Location) : Location := root ++ [j.ns] ++ [j.fileName]

/-- The path of the stub's directory. -/
def housePath (j : Job) : Path := j.root.join j.ns

/-- The path of the stub's file. -/
def spotPath (j : Job) : Path := (j.root.join j.ns).join j.fileName

/-- Namespace, class and extension name a directory and a file in it. -/
structure Proper (j : Job) : Prop where
  ns : Path.isFileName j.ns = true
  className : Path.isFileName j.type.name = true
  noSlash : '/' ∉ j.extension.toList

theorem Proper.isEntryName_ns {j : Job} (h : j.Proper) : IsEntryName j.ns :=
  Path.isEntryName_of_isFileName h.ns

theorem Proper.isEntryName_fileName {j : Job} (h : j.Proper) : IsEntryName j.fileName :=
  Path.isEntryName_append (Path.isEntryName_of_isFileName h.className) h.noSlash

theorem Proper.path_eq {j : Job} (h : j.Proper) : j.path = .ok j.spotPath := by
  rw [path, target_eq_ok h.ns h.className]
  rfl

/-- What becomes of a stub whose directory and file are found like this. -/
def fate (j : Job) (house spot : Option Entry) : Except Failure Written :=
  match housing j.housePath j.ns house with
  | .error e => .error ⟨["Failed to create directory " ++ j.housePath.text], .system e⟩
  | .ok _ =>
    match opening j.spotPath j.fileName spot with
    | .error e => .error ⟨["Failed to create file " ++ j.spotPath.text], .system e⟩
    | .ok _ => .ok (j.written j.spotPath)

theorem fate_eq_ok_iff {j : Job} {house spot : Option Entry} {w : Written} :
    j.fate house spot = .ok w ↔
      housing j.housePath j.ns house = .ok () ∧ opening j.spotPath j.fileName spot = .ok () ∧
        w = j.written j.spotPath := by
  unfold fate
  cases housing j.housePath j.ns house with
  | error e => simp
  | ok _ =>
    cases opening j.spotPath j.fileName spot with
    | error e => simp
    | ok _ => simp [eq_comm]

variable {j : Job} {d : Disk} {root : Location}

theorem step_waiting (hj : j.Proper) (h : Leads d j.root root) (hu : Unlinked d (j.house root)) :
    j.step d .waiting =
      match housing j.housePath j.ns (d.get? (j.house root)) with
      | .ok _ => (.housed j.spotPath, d.put (j.house root) .directory)
      | .error e =>
        (.finished (.error ⟨["Failed to create directory " ++ j.housePath.text], .system e⟩), d) := by
  rw [step, hj.path_eq]
  simp only [Files.provide_child h hj.isEntryName_ns hu]
  unfold housePath house
  cases housing (j.root.join j.ns) j.ns (d.get? (root ++ [j.ns])) <;> rfl

theorem step_housed (hj : j.Proper) (h : Leads d j.root root)
    (hhouse : housing j.housePath j.ns (d.get? (j.house root)) = .ok ())
    (hdir : d.get? (j.house root) = some .directory) (hu : Unlinked d (j.spot root)) :
    j.step d (.housed j.spotPath) =
      match opening j.spotPath j.fileName (d.get? (j.spot root)) with
      | .ok _ => (.opened j.spotPath (j.spot root), d.put (j.spot root) (.file .empty))
      | .error e =>
        (.finished (.error ⟨["Failed to create file " ++ j.spotPath.text], .system e⟩), d) := by
  have hopen := Files.openFile_child h hj.isEntryName_ns hhouse hdir hj.isEntryName_fileName hu
  rw [step]
  unfold spotPath spot at *
  rw [hopen]
  cases opening ((j.root.join j.ns).join j.fileName) j.fileName
    (d.get? (root ++ [j.ns] ++ [j.fileName])) <;> rfl

theorem step_opened {path : Path} (hget : d.get? (j.spot root) = some (.file .empty)) :
    j.step d (.opened path (j.spot root)) =
      (.finished (.ok (j.written path)), d.put (j.spot root) (.file j.text.toUTF8)) := by
  rw [step, Disk.write_empty hget]

/-- What each of the steps keeps, they keep together. -/
theorem run_keeps {P : Disk → Prop} (h : P d)
    (hprovide : ∀ d, P d → P (Files.provide d (j.root.join j.ns)).2)
    (hopen : ∀ path, j.path = .ok path → ∀ d result d', P d → Files.openFile d path = (result, d') →
      P d' ∧ ∀ place, result = .ok place → P (d'.write place j.text.toUTF8)) :
    P (j.run d).2 := by
  unfold run
  cases hpath : j.path with
  | error f => exact h
  | ok path =>
    have hhoused := hprovide d h
    dsimp only
    rcases hfirst : Files.provide d (j.root.join j.ns) with ⟨_ | _, d₁⟩
    all_goals rw [hfirst] at hhoused
    · exact hhoused
    · dsimp only
      rcases hcall : Files.openFile d₁ path with ⟨_ | place, d₂⟩
      · exact (hopen path hpath _ _ _ hhoused hcall).1
      · exact (hopen path hpath _ _ _ hhoused hcall).2 place rfl

end Stub.Job

end StubListing
