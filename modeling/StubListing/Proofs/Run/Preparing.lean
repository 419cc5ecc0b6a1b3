import StubListing.Proofs.Disk.Making
import StubListing.Proofs.Run.Pruning
/-!
# Preparing the output root

Either the root was missing and is now a new and empty directory, or it was there and has lost
exactly what is gone by the rules: loose files, files that the old manifest condemns, and
directories that this leaves deserted.
-/
namespace StubListing.Run
open StubListing.Action StubListing.Stub
open StubListing.Disk (Sound Anchored Removes Inside Unlinked checkPath Grows Ordinary AgreesOutside)

variable {c : Config} {w w' : Workplace} {place : Location} {d d' : Disk}

/-- The manifest that a run goes by when it prunes. -/
def heeded (c : Config) (d : Disk) : Option Manifest :=
  if c.pruneStale then storedManifest d (c.outputRoot.join Manifest.fileName) else none

/-- Some entry of the manifest that is heeded condemns what is at the location. -/
def Condemned (c : Config) (d : Disk) (place l : Location) : Prop :=
  ∃ m, heeded c d = some m ∧ ∃ e ∈ m.entries, Condemns c d place e l

/-- The directory of a namespace that is no longer exported, and all that is in it is condemned. -/
structure Emptied (c : Config) (d : Disk) (place : Location) (ns : String) : Prop where
  listed : ∃ m, heeded c d = some m ∧ ns ∈ m.namespaces
  dropped : ns ∉ c.namespaces
  valid : Path.isFileName ns = true
  reachable : checkPath (c.outputRoot.join ns) = .ok ()
  directory : d.get? (place ++ [ns]) = some .directory
  condemned : ∀ name, (d.get? (place ++ [ns] ++ [name])).isSome = true →
    Condemned c d place (place ++ [ns] ++ [name])

/-- What is gone from a root that was there, after it has been prepared. -/
def Gone (c : Config) (d : Disk) (place l : Location) : Prop :=
  Loose d place l ∨ Condemned c d place l ∨ ∃ ns, Emptied c d place ns ∧ l = place ++ [ns]

theorem inside_of_gone {l : Location} (h : Gone c d place l) : Inside place l := by
  rcases h with h | ⟨m, -, e, -, h⟩ | ⟨ns, -, rfl⟩
  · exact inside_of_loose h
  · exact inside_of_condemns h
  · exact Disk.inside_child place ns

/-- The links below the directory stand directly in it. -/
def LinksLoose (d : Disk) (place : Location) : Prop :=
  ∀ l target, Inside place l → d.get? l = some (.link target) → ∃ name, l = place ++ [name]

/-- A removal that takes what is loose leaves no link below. -/
theorem unlinked_of_removes {gone : Location → Prop} (hlinks : LinksLoose d place)
    (hloose : ∀ l, Loose d place l → gone l) (h : Removes gone d d') :
    ∀ l, Inside place l → Unlinked d' l := by
  intro l hl target ht
  obtain ⟨hlink, hkept⟩ := h.get?_eq_some.mp ht
  exact hkept (hloose l ⟨hlinks l target hl hlink, by rw [hlink]; simp⟩)

theorem not_loose_of_condemns {e : ManifestEntry} {l : Location}
    (h : Condemns c d' place e l) : ¬ Loose d place l := by
  rintro ⟨⟨name, heq⟩, -⟩
  exact Disk.grandchild_ne_child _ _ _ _ (h.place_eq.symm.trans heq)

/-- What an entry condemns is the same before and after the loose files have gone. -/
theorem condemns_of_cleared (h : Removes (Loose d place) d d') {e : ManifestEntry} {l : Location} :
    Condemns c d' place e l ↔ Condemns c d place e l := by
  constructor
  · exact fun hl => (condemns_congr (h.kept (not_loose_of_condemns hl))).mp hl
  · exact fun hl => (condemns_congr (h.kept (not_loose_of_condemns hl))).mpr hl

theorem not_doomed_below {ns name : String} (h : ¬ Condemned c d place (place ++ [ns] ++ [name])) :
    ¬ (Loose d place (place ++ [ns] ++ [name]) ∨ Condemned c d place (place ++ [ns] ++ [name])) := by
  rintro (⟨⟨other, heq⟩, -⟩ | hcon)
  · exact Disk.grandchild_ne_child _ _ _ _ heq
  · exact h hcon

/-- The directories are judged after the files have gone: one is deserted by then if all that was in
it is condemned. -/
theorem deserted_iff_emptied {m : Manifest} (hm : heeded c d = some m)
    (h : Removes (fun l => Loose d place l ∨ Condemned c d place l) d d') {l : Location}
    (hstay : ¬ (Loose d place l ∨ Condemned c d place l)) :
    (∃ ns ∈ m.namespaces, Deserted c d' place ns l) ↔
      ∃ ns, Emptied c d place ns ∧ l = place ++ [ns] := by
  have hhere := h.kept hstay
  constructor
  · rintro ⟨ns, hns, hl⟩
    refine ⟨ns, ⟨⟨m, hm, hns⟩, hl.dropped, hl.valid, hl.reachable, ?_, fun name hname => ?_⟩,
      hl.place_eq⟩
    · rw [← hl.place_eq, ← hhere, hl.directory]
    · have hno := hl.empty name
      rw [hl.place_eq] at hno
      by_contra hcon
      rw [← h.kept (not_doomed_below hcon), hno] at hname
      cases hname
  · rintro ⟨ns, hns, rfl⟩
    obtain ⟨m', hm', hlisted⟩ := hns.listed
    rw [hm] at hm'
    cases hm'
    refine ⟨ns, hlisted, hns.dropped, hns.valid, rfl, hns.reachable, hhere.trans hns.directory,
      fun name => ?_⟩
    by_cases hcon : Condemned c d place (place ++ [ns] ++ [name])
    · exact h.none_of (Or.inr hcon)
    · rw [h.kept (not_doomed_below hcon)]
      cases hg : d.get? (place ++ [ns] ++ [name]) with
      | none => rfl
      | some e => exact absurd (hns.condemned name (by rw [hg]; rfl)) hcon

/-- Clearing by the manifest that is heeded takes what is gone by the rules and nothing else. -/
theorem clear_removes (hc : c.Valid) (hd : w.disk.Sound) (hroot : Anchored w.disk c.outputRoot place)
    (hcheck : checkPath c.outputRoot = .ok ()) (hlinks : LinksLoose w.disk place) {removed : Removed}
    (h : (clear c (heeded c w.disk)).Returns w removed w') :
    Removes (Gone c w.disk place) w.disk w'.disk := by
  obtain ⟨cleared, w₁, hclear, hpruning⟩ := returns_bind.mp h
  have hloose := clearFiles_removes hd hroot hcheck hclear
  have hunlinked := unlinked_of_removes hlinks (fun _ => id) hloose
  have hroot₁ := hroot.agrees (hloose.agreesOutside fun l => inside_of_loose)
  cases hm : heeded c w.disk with
  | none =>
    rw [hm] at hpruning
    obtain ⟨-, rfl⟩ := returns_pure.mp hpruning
    refine hloose.congr fun l e _ => ⟨Or.inl, ?_⟩
    rintro (hl | ⟨m, hm', -⟩ | ⟨ns, hns, -⟩)
    · exact hl
    · rw [hm] at hm'
      cases hm'
    · obtain ⟨m, hm', -⟩ := hns.listed
      rw [hm] at hm'
      cases hm'
  | some m =>
    rw [hm] at hpruning
    obtain ⟨counts, w₂, hprune, hpure⟩ := returns_bind.mp hpruning
    obtain ⟨-, rfl⟩ := returns_pure.mp hpure
    obtain ⟨files, w₃, hentries, hdirs⟩ := returns_bind.mp hprune
    obtain ⟨directories, w₄, hnamespaces, hpure⟩ := returns_bind.mp hdirs
    obtain ⟨-, rfl⟩ := returns_pure.mp hpure
    have hfiles := pruneEntries_removes hc hloose.sound hroot₁ hunlinked hentries
    have hroot₂ := hroot₁.agrees (hfiles.agreesOutside fun l ⟨e, _, hl⟩ => inside_of_condemns hl)
    have hempty := pruneNamespaces_removes hfiles.sound hroot₂
      (fun l hl => hfiles.unlinked (hunlinked l hl)) hnamespaces
    have hboth : Removes (fun l => Loose w.disk place l ∨ Condemned c w.disk place l) w.disk
        w₃.disk := by
      refine (hloose.trans hfiles).congr fun l e _ => ?_
      simp only [Condemned, hm, Option.some.injEq, exists_eq_left', condemns_of_cleared hloose]
    refine (hboth.trans hempty).congr fun l x _ => ?_
    rw [Gone, ← or_assoc]
    by_cases hdoomed : Loose w.disk place l ∨ Condemned c w.disk place l
    · simp [hdoomed]
    · simp only [hdoomed, false_or, deserted_iff_emptied hm hboth hdoomed]

/-- The manifest is looked up, if it is to be heeded, and the root is cleared by it. -/
theorem prepare_there (hdir : w.disk.isDirectory c.outputRoot = true) {removed : Removed}
    (h : (prepare c).Returns w removed w') :
    ∃ w₁, w₁.disk = w.disk ∧ (clear c (heeded c w.disk)).Returns w₁ removed w' := by
  obtain ⟨d, w₁, hdisk, hrest⟩ := returns_bind.mp h
  obtain ⟨rfl, rfl⟩ := returns_disk.mp hdisk
  rw [if_pos hdir] at hrest
  unfold heeded
  dsimp only at hrest
  split at hrest
  · rename_i hprune
    obtain ⟨previous, w₂, hprevious, hclear⟩ := returns_bind.mp hrest
    obtain ⟨hsame, rfl⟩ := returns_previousManifest hprevious
    rw [if_pos hprune]
    exact ⟨w₂, hsame, hclear⟩
  · rename_i hkeep
    obtain ⟨previous, w₂, hprevious, hclear⟩ := returns_bind.mp hrest
    obtain ⟨rfl, rfl⟩ := returns_pure.mp hprevious
    rw [if_neg hkeep]
    exact ⟨_, rfl, hclear⟩

/-- A root that was there has lost what is gone by the rules and nothing else. -/
theorem prepare_removes (hc : c.Valid) (hd : w.disk.Sound)
    (hroot : Anchored w.disk c.outputRoot place) (hdir : w.disk.isDirectory c.outputRoot = true)
    (hlinks : LinksLoose w.disk place) {removed : Removed} (h : (prepare c).Returns w removed w') :
    Removes (Gone c w.disk place) w.disk w'.disk := by
  obtain ⟨hcheck, -⟩ := Disk.leads_of_isDirectory hdir
  obtain ⟨w₁, hsame, hclear⟩ := prepare_there hdir h
  rw [← hsame] at hd hroot hlinks hclear ⊢
  exact clear_removes hc hd hroot hcheck hlinks hclear

/-- A root that is missing is provided. -/
theorem prepare_missing (hdir : w.disk.isDirectory c.outputRoot = false) {removed : Removed} :
    (prepare c).Returns w removed w' ↔
      removed = ⟨0, 0⟩ ∧ ∃ d, Files.provide w.disk c.outputRoot = (.ok (), d) ∧
        w' = { w with disk := d } := by
  unfold prepare
  constructor
  · intro h
    obtain ⟨d, w₁, hdisk, hrest⟩ := returns_bind.mp h
    obtain ⟨rfl, rfl⟩ := returns_disk.mp hdisk
    rw [if_neg (by simp [hdir])] at hrest
    obtain ⟨_, w₂, hensure, hpure⟩ := returns_bind.mp hrest
    obtain ⟨hremoved, rfl⟩ := returns_pure.mp hpure
    exact ⟨hremoved, returns_carryOut.mp hensure⟩
  · intro h
    obtain ⟨rfl, d, hprovide, rfl⟩ := h
    apply returns_bind.mpr
    refine ⟨w.disk, w, returns_disk.mpr ⟨rfl, rfl⟩, ?_⟩
    rw [if_neg (by simp [hdir])]
    apply returns_bind.mpr
    exact ⟨(), _, returns_carryOut.mpr ⟨d, hprovide, rfl⟩, returns_pure.mpr ⟨rfl, rfl⟩⟩

/-- A root that was missing is new and empty. -/
theorem prepare_grows (hd : w.disk.Sound) (hordinary : Ordinary c.outputRoot)
    (hmoves : c.outputRoot.moves ≠ []) (hdir : w.disk.isDirectory c.outputRoot = false)
    {removed : Removed} (h : (prepare c).Returns w removed w') :
    Grows w.disk w'.disk ∧ ∃ place, w.disk.get? place = none ∧
      (∀ l, Inside place l → w'.disk.get? l = none) ∧ Anchored w'.disk c.outputRoot place := by
  obtain ⟨-, d, hprovide, rfl⟩ := (prepare_missing hdir).mp h
  exact Disk.provide_new hordinary hmoves hd hdir hprovide

end StubListing.Run
