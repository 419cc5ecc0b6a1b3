import StubListing.Proofs.Action
import StubListing.Proofs.Disk.Removing
/-!
# Clearing a directory

Removing the files directly in a directory, one after the other: the files and links that were
there are gone, and nothing else is.
-/
namespace StubListing

namespace Files
open StubListing.Action

variable {w w' : Workplace} {p : Path} {u : Unit}

theorem returns_removeFile :
    (removeFile p).Returns w u w' ↔
      ∃ d, w.disk.removeFile p = .ok d ∧ w' = { w with disk := d } := by
  unfold removeFile
  rw [returns_during, returns_change]

theorem returns_removeDirectory :
    (removeDirectory p).Returns w u w' ↔
      ∃ d, w.disk.removeDirectory p = .ok d ∧ w' = { w with disk := d } := by
  unfold removeDirectory
  rw [returns_during, returns_change]

theorem returns_children {listing : Disk.Listing} :
    (children p).Returns w listing w' ↔ w.disk.listing p = .ok listing ∧ w' = w := by
  unfold children
  rw [returns_during]
  constructor
  · intro h
    obtain ⟨d, w₁, hdisk, h⟩ := returns_bind.mp h
    obtain ⟨rfl, rfl⟩ := returns_disk.mp hdisk
    cases hl : w₁.disk.listing p with
    | error e =>
      rw [hl] at h
      exact absurd h returns_fail
    | ok found =>
      rw [hl] at h
      obtain ⟨rfl, rfl⟩ := returns_pure.mp h
      exact ⟨rfl, rfl⟩
  · rintro ⟨hl, rfl⟩
    refine returns_bind.mpr ⟨_, _, returns_disk.mpr ⟨rfl, rfl⟩, ?_⟩
    rw [hl]
    exact returns_pure.mpr ⟨rfl, rfl⟩

theorem returns_digestOf {digest : String} :
    (digestOf p).Returns w digest w' ↔
      ∃ content, w.disk.content p = .ok content ∧ digest = Digest.Sha256.ofBytes content ∧ w' = w := by
  unfold digestOf
  rw [returns_during]
  constructor
  · intro h
    obtain ⟨d, w₁, hdisk, h⟩ := returns_bind.mp h
    obtain ⟨rfl, rfl⟩ := returns_disk.mp hdisk
    obtain ⟨content, w₂, hans, hend⟩ := returns_bind.mp h
    obtain ⟨hcontent, rfl⟩ := returns_answer.mp hans
    obtain ⟨hdigest, rfl⟩ := returns_pure.mp hend
    exact ⟨content, hcontent, hdigest, rfl⟩
  · rintro ⟨content, hcontent, hdigest, rfl⟩
    refine returns_bind.mpr ⟨_, _, returns_disk.mpr ⟨rfl, rfl⟩, ?_⟩
    exact returns_bind.mpr ⟨content, _, returns_answer.mpr ⟨hcontent, rfl⟩,
      returns_pure.mpr ⟨hdigest, rfl⟩⟩

theorem readsOnly_children (p : Path) : (children p).ReadsOnly := by
  apply ReadsOnly.during
  apply readsOnly_disk.bind
  intro d
  cases d.listing p with
  | error e => exact readsOnly_fail _
  | ok listing => exact readsOnly_pure _

theorem readsOnly_digestOf (p : Path) : (digestOf p).ReadsOnly := by
  apply ReadsOnly.during
  apply readsOnly_disk.bind
  intro d
  exact (readsOnly_answer _).bind fun _ => readsOnly_pure _

end Files

namespace Run
open StubListing.Action
open StubListing.Disk (Sound Anchored Leads Removes Inside checkPath)
open StubListing.Path (IsEntryName)

variable {w w' : Workplace} {root : Path} {place : Location} {n : Nat}

theorem removeFile_removes {name : String} {u : Unit} (hd : w.disk.Sound)
    (hroot : Leads w.disk root place) (hn : IsEntryName name)
    (h : (Files.removeFile (root.join name)).Returns w u w') :
    Removes (· = place ++ [name]) w.disk w'.disk := by
  obtain ⟨d, hcall, rfl⟩ := Files.returns_removeFile.mp h
  obtain ⟨-, -, ⟨e, he, hfile⟩, rfl⟩ := (hroot.removeFile_child hn).mp hcall
  exact Disk.removes_drop hd (by simp) (hd.nothing_in he hfile)

/-- The named files go one by one. -/
theorem removeFiles_removes {names : List String} (hnames : ∀ name ∈ names, IsEntryName name)
    (hd : w.disk.Sound) (hroot : Anchored w.disk root place)
    (h : (countAll (names.map fun name => Files.removeFile (root.join name))).Returns w n w') :
    Removes (fun l => ∃ name ∈ names, l = place ++ [name]) w.disk w'.disk := by
  induction names generalizing w n with
  | nil =>
    obtain ⟨-, rfl⟩ := returns_pure.mp h
    exact (Disk.removes_nothing hd).congr fun l e _ => by simp
  | cons name rest ih =>
    obtain ⟨_, w₁, hfirst, h⟩ := returns_bind.mp h
    obtain ⟨k, w₂, hrest, h⟩ := returns_bind.mp h
    obtain ⟨-, rfl⟩ := returns_pure.mp h
    have hone := removeFile_removes hd hroot.leads (hnames name (by simp)) hfirst
    have hroot' : Anchored w₁.disk root place :=
      hroot.agrees (hone.agreesOutside fun l hl => hl ▸ Disk.inside_child place name)
    have hmore := ih (fun name hm => hnames name (List.mem_cons_of_mem _ hm)) hone.sound hroot' hrest
    exact (hone.trans hmore).congr fun l e _ => by simp

/-- Something other than a directory stands directly in the directory. -/
def Loose (d : Disk) (place l : Location) : Prop :=
  (∃ name, l = place ++ [name]) ∧ d.get? l ≠ some .directory

/-- After clearing, what stood loose is gone. -/
theorem clearFiles_removes (hd : w.disk.Sound) (hroot : Anchored w.disk root place)
    (hc : checkPath root = .ok ()) (h : (Files.clearFiles root).Returns w n w') :
    Removes (Loose w.disk place) w.disk w'.disk := by
  obtain ⟨listing, w₁, hlist, h⟩ := returns_bind.mp h
  obtain ⟨hlisting, rfl⟩ := Files.returns_children.mp hlist
  rw [hroot.leads.listing_eq hc] at hlisting
  cases hlisting
  let names := ((w₁.disk.children place).filter fun x => x.2 != .directory).map (·.1)
  have hmem : ∀ name, name ∈ names ↔
      ∃ e, w₁.disk.get? (place ++ [name]) = some e ∧ e ≠ .directory := by
    intro name
    simp only [names, List.mem_map, List.mem_filter, Prod.exists, bne_iff_ne, ne_eq,
      exists_and_right, exists_eq_right, hd.mem_children]
  have hnames : ∀ name ∈ names, IsEntryName name := fun name hm => by
    obtain ⟨e, he, -⟩ := (hmem name).mp hm
    exact (hd.named he).toIsEntryName
  have hactions : ((w₁.disk.children place).filter fun x => x.2 != .directory).map
      (fun x => Files.removeFile (root.join x.1)) =
        names.map fun name => Files.removeFile (root.join name) := by
    simp only [names, List.map_map]
    rfl
  simp only [List.map_map] at h
  have hremoves := removeFiles_removes hnames hd hroot (hactions ▸ h)
  refine hremoves.congr fun l e he => ?_
  constructor
  · rintro ⟨name, hm, rfl⟩
    obtain ⟨x, hx, hfile⟩ := (hmem name).mp hm
    exact ⟨⟨name, rfl⟩, by rw [hx]; simpa using hfile⟩
  · rintro ⟨⟨name, rfl⟩, hfile⟩
    refine ⟨name, (hmem name).mpr ⟨e, he, ?_⟩, rfl⟩
    rintro rfl
    exact hfile he

theorem inside_of_loose {d : Disk} {l : Location} (h : Loose d place l) : Inside place l := by
  obtain ⟨⟨name, rfl⟩, -⟩ := h
  exact Disk.inside_child place name

end Run

end StubListing
