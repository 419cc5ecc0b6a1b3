import StubListing.Proofs.Manifest.Storing
import StubListing.Proofs.Run.Clearing
import StubListing.Proofs.Path.Below
import StubListing.Proofs.Run.Planning
import StubListing.Run.Prepare
/-!
# Clearing away the previous run

Which files an old manifest condemns, and which directories it leaves behind empty. Nothing else
goes, whatever the manifest says.
-/
namespace StubListing

namespace Run
open StubListing.Action StubListing.Stub
open StubListing.Disk (Sound Anchored Leads Removes Inside Unlinked checkPath)
open StubListing.Path (IsEntryName)

variable {c : Config} {w w' : Workplace} {place : Location} {n : Nat}

/-! ## The manifest that is found -/

/-- The manifest in a file, if there is one and it can be read. -/
def storedManifest (d : Disk) (p : Path) : Option Manifest :=
  (d.text p).toOption.bind fun text => (Manifest.parse text).toOption

theorem storedManifest_of_not_isFile {d : Disk} {p : Path} (h : d.isFile p = false) :
    storedManifest d p = none := by
  unfold storedManifest Disk.text
  cases hc : d.content p with
  | error e => rfl
  | ok content =>
    have := Disk.isFile_eq_content.mpr ⟨content, hc⟩
    rw [h] at this
    cases this

/-- A manifest that was written is found again. -/
theorem storedManifest_of_text {d : Disk} {p : Path} {m : Manifest} (h : d.text p = .ok m.text)
    (hm : m.Writable) : storedManifest d p = some m := by
  unfold storedManifest
  rw [h]
  simp only [Except.toOption, Option.bind_some, Manifest.parse_text hm]

theorem exists_ending_load (p : Path) (w : Workplace) :
    ∃ result, (Manifest.load p).ending w = (result, w) ∧
      result.toOption = storedManifest w.disk p := by
  refine ⟨_, Manifest.ending_load p w, ?_⟩
  unfold storedManifest
  cases w.disk.text p with
  | error e => rfl
  | ok text =>
    simp only [Except.toOption, Option.bind_some]
    cases Manifest.parse text <;> rfl

theorem readsOnly_previousManifest (c : Config) : (previousManifest c).ReadsOnly := by
  apply readsOnly_disk.bind
  intro d
  split
  · apply ReadsOnly.tryCatch
    · apply ReadsOnly.bind
      · intro w
        unfold Leaves
        rw [Manifest.ending_load]
      · exact fun m => readsOnly_pure _
    · exact fun f => (readsOnly_note _ _).bind fun _ => readsOnly_pure _
  · exact readsOnly_pure _

/-- The manifest of the previous run is looked up and nothing is changed. -/
theorem returns_previousManifest {previous : Option Manifest}
    (h : (previousManifest c).Returns w previous w') :
    w'.disk = w.disk ∧ previous = storedManifest w.disk (c.outputRoot.join Manifest.fileName) := by
  obtain ⟨d, w₁, hdisk, hrest⟩ := returns_bind.mp h
  obtain ⟨rfl, rfl⟩ := returns_disk.mp hdisk
  split at hrest
  · obtain ⟨result, hload, hstored⟩ :=
      exists_ending_load (c.outputRoot.join Manifest.fileName) w₁
    rw [← hstored]
    rcases returns_tryCatch.mp hrest with hfound | ⟨f, w₂, hfail, hnote⟩
    · obtain ⟨m, w₂, hm, hpure⟩ := returns_bind.mp hfound
      obtain ⟨rfl, rfl⟩ := returns_pure.mp hpure
      rw [Returns, hload] at hm
      cases hm
      exact ⟨rfl, rfl⟩
    · obtain ⟨_, w₃, hwarn, hpure⟩ := returns_bind.mp hnote
      obtain ⟨rfl, rfl⟩ := returns_pure.mp hpure
      rcases fails_bind.mp hfail with hm | ⟨m, w₄, -, hpure⟩
      · rw [Fails, hload] at hm
        cases hm
        exact ⟨disk_of_note hwarn, rfl⟩
      · exact absurd hpure fails_pure
  · rename_i hfile
    obtain ⟨rfl, rfl⟩ := returns_pure.mp hrest
    exact ⟨rfl, (storedManifest_of_not_isFile (by simpa using hfile)).symm⟩

/-! ## Files -/

/-- The file name that an entry stands for. -/
def entryName (c : Config) (e : ManifestEntry) : String :=
  e.className ++ "." ++ e.path.extension?.getD c.fileExtension

/-- The path that an entry stands for, whatever path it gives itself. -/
def entryPath (c : Config) (e : ManifestEntry) : Path :=
  (c.outputRoot.join e.ns).join (entryName c e)

/-- The entry names the file at the location, and the file is as the entry says. -/
structure Condemns (c : Config) (d : Disk) (place : Location) (e : ManifestEntry) (l : Location) :
    Prop where
  ns : Path.isFileName e.ns = true
  className : Path.isFileName e.className = true
  place_eq : l = place ++ [e.ns] ++ [entryName c e]
  reachable : checkPath (entryPath c e) = .ok ()
  unchanged : ∃ content, d.get? l = some (.file content) ∧
    Digest.Sha256.ofBytes content = e.digest

theorem inside_of_condemns {d : Disk} {e : ManifestEntry} {l : Location}
    (h : Condemns c d place e l) : Inside place l := by
  rw [h.place_eq]
  exact Disk.inside_append (Disk.inside_child place e.ns) _

theorem condemns_congr {d d' : Disk} {e : ManifestEntry} {l : Location}
    (h : d'.get? l = d.get? l) : Condemns c d' place e l ↔ Condemns c d place e l :=
  ⟨fun hc => ⟨hc.ns, hc.className, hc.place_eq, hc.reachable, h ▸ hc.unchanged⟩,
    fun hc => ⟨hc.ns, hc.className, hc.place_eq, hc.reachable, h ▸ hc.unchanged⟩⟩

theorem isEntryName_entryName (hc : c.Valid) {e : ManifestEntry}
    (he : Path.isFileName e.className = true) : IsEntryName (entryName c e) := by
  refine Path.isEntryName_append (Path.isEntryName_of_isFileName he) ?_
  cases hext : e.path.extension? with
  | some extension => exact Path.noSlash_of_extension? hext
  | none => exact not_mem_extension hc (Or.inl rfl)

theorem entryTarget_eq {e : ManifestEntry} {p : Path} (h : entryTarget c e = .ok p) :
    Path.isFileName e.ns = true ∧ Path.isFileName e.className = true ∧ p = entryPath c e :=
  target_eq_ok_iff.mp h

/-- The entry is a valid one, and the file at its path has the digest that it tells. -/
structure Matches (c : Config) (d : Disk) (e : ManifestEntry) : Prop where
  ns : Path.isFileName e.ns = true
  className : Path.isFileName e.className = true
  same : ∃ content, d.content (entryPath c e) = .ok content ∧
    Digest.Sha256.ofBytes content = e.digest

/-- An entry is acted on if it matches, and otherwise changes nothing. -/
theorem pruneEntry_cases {e : ManifestEntry} (h : (pruneEntry c e).Returns w n w') :
    Matches c w.disk e ∧ (Files.removeFile (entryPath c e)).Returns w () w' ∨
      ¬ Matches c w.disk e ∧ w'.disk = w.disk := by
  unfold pruneEntry at h
  cases ht : entryTarget c e with
  | error f =>
    rw [ht] at h
    obtain ⟨_, w₁, hwarn, hpure⟩ := returns_bind.mp h
    obtain ⟨-, rfl⟩ := returns_pure.mp hpure
    refine Or.inr ⟨fun hm => ?_, disk_of_note hwarn⟩
    unfold entryTarget at ht
    rw [target_eq_ok hm.ns hm.className] at ht
    cases ht
  | ok p =>
    rw [ht] at h
    obtain ⟨hns, hname, rfl⟩ := entryTarget_eq ht
    obtain ⟨d, w₁, hdisk, hrest⟩ := returns_bind.mp h
    obtain ⟨rfl, rfl⟩ := returns_disk.mp hdisk
    split at hrest
    · obtain ⟨digest, w₂, hdigest, hact⟩ := returns_bind.mp hrest
      obtain ⟨content, hread, rfl, rfl⟩ := Files.returns_digestOf.mp hdigest
      split at hact
      · rename_i hsame
        obtain ⟨_, w₃, hremove, hpure⟩ := returns_bind.mp hact
        obtain ⟨-, rfl⟩ := returns_pure.mp hpure
        exact Or.inl ⟨⟨hns, hname, content, hread, hsame⟩, hremove⟩
      · rename_i hdiff
        obtain ⟨_, w₃, hwarn, hpure⟩ := returns_bind.mp hact
        obtain ⟨-, rfl⟩ := returns_pure.mp hpure
        refine Or.inr ⟨fun hm => ?_, disk_of_note hwarn⟩
        obtain ⟨found, hfound, hequal⟩ := hm.same
        rw [hread] at hfound
        cases hfound
        exact hdiff hequal
    · rename_i hmissing
      obtain ⟨-, rfl⟩ := returns_pure.mp hrest
      refine Or.inr ⟨fun hm => ?_, rfl⟩
      obtain ⟨found, hfound, -⟩ := hm.same
      exact hmissing (Disk.isFile_eq_content.mpr ⟨found, hfound⟩)

theorem condemns_iff_matches (hc : c.Valid) {d : Disk} {e : ManifestEntry} {l : Location}
    (hd : d.Sound) (hroot : Leads d c.outputRoot place)
    (hlinks : ∀ l, Inside place l → Unlinked d l) :
    Condemns c d place e l ↔ l = place ++ [e.ns] ++ [entryName c e] ∧ Matches c d e := by
  have hin : Inside place (place ++ [e.ns]) := Disk.inside_child place e.ns
  have hcontent : ∀ (hns : Path.isFileName e.ns = true) (hname : Path.isFileName e.className = true)
      (content : ByteArray), d.content (entryPath c e) = .ok content ↔
        checkPath (entryPath c e) = .ok () ∧
          d.get? (place ++ [e.ns] ++ [entryName c e]) = some (.file content) := fun hns hname _ =>
    hroot.content_grandchild hd (Path.isEntryName_of_isFileName hns)
      (isEntryName_entryName hc hname) (hlinks _ hin) (hlinks _ (Disk.inside_append hin _))
  constructor
  · rintro ⟨hns, hname, rfl, hcheck, content, hget, hsame⟩
    exact ⟨rfl, hns, hname, content, (hcontent hns hname content).mpr ⟨hcheck, hget⟩, hsame⟩
  · rintro ⟨rfl, hns, hname, content, hread, hsame⟩
    obtain ⟨hcheck, hget⟩ := (hcontent hns hname content).mp hread
    exact ⟨hns, hname, rfl, hcheck, content, hget, hsame⟩

/-- An entry that is acted on removes the file it condemns and no other. -/
theorem pruneEntry_removes (hc : c.Valid) {e : ManifestEntry} (hd : w.disk.Sound)
    (hroot : Leads w.disk c.outputRoot place) (hlinks : ∀ l, Inside place l → Unlinked w.disk l)
    (h : (pruneEntry c e).Returns w n w') : Removes (Condemns c w.disk place e) w.disk w'.disk := by
  have hiff : ∀ l, Condemns c w.disk place e l ↔
      l = place ++ [e.ns] ++ [entryName c e] ∧ Matches c w.disk e := fun _ =>
    condemns_iff_matches hc hd hroot hlinks
  rcases pruneEntry_cases h with ⟨hmatches, hremove⟩ | ⟨hno, hsame⟩
  · obtain ⟨content, hget, -⟩ := ((hiff _).mpr ⟨rfl, hmatches⟩).unchanged
    have hdir := hd.housed hget
    have hleads := hroot.child (Path.isEntryName_of_isFileName hmatches.ns) (hd.named hdir).short hdir
    have hone := removeFile_removes hd hleads (isEntryName_entryName hc hmatches.className) hremove
    exact hone.congr fun l _ _ => ⟨fun heq => (hiff l).mpr ⟨heq, hmatches⟩, fun hl => hl.place_eq⟩
  · rw [hsame]
    exact (Disk.removes_nothing hd).congr fun l _ _ => ⟨False.elim, fun hl => hno ((hiff l).mp hl).2⟩

/-- All entries together remove what any of them condemns. -/
theorem pruneEntries_removes (hc : c.Valid) {entries : List ManifestEntry} (hd : w.disk.Sound)
    (hroot : Anchored w.disk c.outputRoot place)
    (hlinks : ∀ l, Inside place l → Unlinked w.disk l)
    (h : (sumOf (entries.map (pruneEntry c))).Returns w n w') :
    Removes (fun l => ∃ e ∈ entries, Condemns c w.disk place e l) w.disk w'.disk := by
  induction entries generalizing w n with
  | nil =>
    obtain ⟨-, rfl⟩ := returns_pure.mp h
    exact (Disk.removes_nothing hd).congr fun l x _ => by simp
  | cons e rest ih =>
    obtain ⟨k, w₁, hfirst, h⟩ := returns_bind.mp h
    obtain ⟨m, w₂, hrest, h⟩ := returns_bind.mp h
    obtain ⟨-, rfl⟩ := returns_pure.mp h
    have hone := pruneEntry_removes hc hd hroot.leads hlinks hfirst
    have hmore := ih hone.sound (hroot.agrees (hone.agreesOutside fun l => inside_of_condemns))
      (fun l hl => hone.unlinked (hlinks l hl)) hrest
    refine (hone.trans hmore).congr fun l x _ => ?_
    by_cases hl : Condemns c w.disk place e l
    · simp [hl]
    · have hsame : ∀ e', Condemns c w₁.disk place e' l ↔ Condemns c w.disk place e' l := fun _ =>
        condemns_congr (hone.kept hl)
      simp [hl, hsame]

/-! ## Directories -/

/-- The directory of a namespace that is no longer exported, with nothing in it. -/
structure Deserted (c : Config) (d : Disk) (place : Location) (ns : String) (l : Location) :
    Prop where
  dropped : ns ∉ c.namespaces
  valid : Path.isFileName ns = true
  place_eq : l = place ++ [ns]
  reachable : checkPath (c.outputRoot.join ns) = .ok ()
  directory : d.get? l = some .directory
  empty : ∀ name, d.get? (l ++ [name]) = none

theorem inside_of_deserted {d : Disk} {ns : String} {l : Location} (h : Deserted c d place ns l) :
    Inside place l := by
  rw [h.place_eq]
  exact Disk.inside_child place ns

/-- The namespace is a valid one that is no longer exported, and the listing of its directory is
empty. -/
structure Vacated (c : Config) (d : Disk) (ns : String) : Prop where
  dropped : ns ∉ c.namespaces
  valid : Path.isFileName ns = true
  present : d.isDirectory (c.outputRoot.join ns) = true
  bare : ∀ {listing : Disk.Listing}, d.listing (c.outputRoot.join ns) = .ok listing →
    (listing.files.isEmpty && listing.directories.isEmpty) = true

/-- A namespace loses its directory if it has vacated it, and otherwise nothing changes. -/
theorem pruneNamespace_cases {ns : String} (h : (pruneNamespace c ns).Returns w n w') :
    Vacated c w.disk ns ∧ (Files.removeDirectory (c.outputRoot.join ns)).Returns w () w' ∨
      ¬ Vacated c w.disk ns ∧ w'.disk = w.disk := by
  unfold pruneNamespace at h
  split at h
  · rename_i hskip
    obtain ⟨-, rfl⟩ := returns_pure.mp h
    refine Or.inr ⟨fun hv => ?_, rfl⟩
    rcases (Bool.or_eq_true _ _).mp hskip with hlisted | hbad
    · exact hv.dropped (by simpa using hlisted)
    · rw [hv.valid] at hbad
      cases hbad
  · rename_i hgo
    simp only [Bool.or_eq_true, not_or, Bool.not_eq_true', Bool.not_eq_false] at hgo
    obtain ⟨hunlisted, hvalid⟩ := hgo
    have hdropped : ns ∉ c.namespaces := by simpa using hunlisted
    obtain ⟨d, w₁, hdisk, hrest⟩ := returns_bind.mp h
    obtain ⟨rfl, rfl⟩ := returns_disk.mp hdisk
    split at hrest
    · rename_i hthere
      obtain ⟨listing, w₂, hlist, hact⟩ := returns_bind.mp hrest
      obtain ⟨hlisting, rfl⟩ := Files.returns_children.mp hlist
      split at hact
      · rename_i hclear
        obtain ⟨_, w₃, hremove, hpure⟩ := returns_bind.mp hact
        obtain ⟨-, rfl⟩ := returns_pure.mp hpure
        refine Or.inl ⟨⟨hdropped, hvalid, hthere, fun {found} hfound => ?_⟩, hremove⟩
        rw [hlisting] at hfound
        cases hfound
        exact hclear
      · rename_i hfull
        obtain ⟨_, w₃, hwarn, hpure⟩ := returns_bind.mp hact
        obtain ⟨-, rfl⟩ := returns_pure.mp hpure
        exact Or.inr ⟨fun hv => hfull (hv.bare hlisting), disk_of_note hwarn⟩
    · rename_i hmissing
      obtain ⟨-, rfl⟩ := returns_pure.mp hrest
      exact Or.inr ⟨fun hv => hmissing hv.present, rfl⟩

theorem deserted_iff_vacated {d : Disk} {ns : String} {l : Location} (hd : d.Sound)
    (hroot : Leads d c.outputRoot place) (hlinks : ∀ l, Inside place l → Unlinked d l) :
    Deserted c d place ns l ↔ l = place ++ [ns] ∧ Vacated c d ns := by
  have hdirectory := fun hname : IsEntryName ns =>
    hroot.isDirectory_child hd hname (hlinks _ (Disk.inside_child place ns))
  have hempty := fun (hname : IsEntryName ns) (hcheck : checkPath (c.outputRoot.join ns) = .ok ())
      (hdir : d.get? (place ++ [ns]) = some .directory) {listing : Disk.Listing}
      (hlisting : d.listing (c.outputRoot.join ns) = .ok listing) =>
    (hroot.child hname (hd.named hdir).short hdir).listing_isEmpty hd hcheck hlisting
  constructor
  · rintro ⟨hdropped, hvalid, rfl, hcheck, hdir, hnone⟩
    have hname := Path.isEntryName_of_isFileName hvalid
    exact ⟨rfl, hdropped, hvalid, (hdirectory hname).mpr ⟨hcheck, hdir⟩,
      fun hlisting => (hempty hname hcheck hdir hlisting).mpr hnone⟩
  · rintro ⟨rfl, hdropped, hvalid, hthere, hbare⟩
    have hname := Path.isEntryName_of_isFileName hvalid
    obtain ⟨hcheck, hdir⟩ := (hdirectory hname).mp hthere
    have hlisting := (hroot.child hname (hd.named hdir).short hdir).listing_eq hcheck
    exact ⟨hdropped, hvalid, rfl, hcheck, hdir,
      (hempty hname hcheck hdir hlisting).mp (hbare hlisting)⟩

/-- The directory of a namespace goes if it is deserted. -/
theorem pruneNamespace_removes {ns : String} (hd : w.disk.Sound)
    (hroot : Leads w.disk c.outputRoot place) (hlinks : ∀ l, Inside place l → Unlinked w.disk l)
    (h : (pruneNamespace c ns).Returns w n w') :
    Removes (Deserted c w.disk place ns) w.disk w'.disk := by
  have hiff : ∀ l, Deserted c w.disk place ns l ↔ l = place ++ [ns] ∧ Vacated c w.disk ns := fun _ =>
    deserted_iff_vacated hd hroot hlinks
  rcases pruneNamespace_cases h with ⟨hvacated, hremove⟩ | ⟨hno, hsame⟩
  · have hdeserted := (hiff _).mpr ⟨rfl, hvacated⟩
    obtain ⟨d, hcall, rfl⟩ := Files.returns_removeDirectory.mp hremove
    obtain ⟨-, -, -, -, rfl⟩ :=
      (hroot.removeDirectory_child (Path.isEntryName_of_isFileName hvacated.valid)).mp hcall
    exact (Disk.removes_drop hd (by simp) hdeserted.empty).congr fun l _ _ =>
      ⟨fun heq => (hiff l).mpr ⟨heq, hvacated⟩, fun hl => hl.place_eq⟩
  · rw [hsame]
    exact (Disk.removes_nothing hd).congr fun l _ _ => ⟨False.elim, fun hl => hno ((hiff l).mp hl).2⟩

/-- All directories that are deserted go. -/
theorem pruneNamespaces_removes {names : List String} (hd : w.disk.Sound)
    (hroot : Anchored w.disk c.outputRoot place)
    (hlinks : ∀ l, Inside place l → Unlinked w.disk l)
    (h : (sumOf (names.map (pruneNamespace c))).Returns w n w') :
    Removes (fun l => ∃ ns ∈ names, Deserted c w.disk place ns l) w.disk w'.disk := by
  induction names generalizing w n with
  | nil =>
    obtain ⟨-, rfl⟩ := returns_pure.mp h
    exact (Disk.removes_nothing hd).congr fun l x _ => by simp
  | cons ns rest ih =>
    obtain ⟨k, w₁, hfirst, h⟩ := returns_bind.mp h
    obtain ⟨m, w₂, hrest, h⟩ := returns_bind.mp h
    obtain ⟨-, rfl⟩ := returns_pure.mp h
    have hone := pruneNamespace_removes hd hroot.leads hlinks hfirst
    have hmore := ih hone.sound (hroot.agrees (hone.agreesOutside fun l => inside_of_deserted))
      (fun l hl => hone.unlinked (hlinks l hl)) hrest
    refine (hone.trans hmore).congr fun l x _ => ?_
    by_cases hl : Deserted c w.disk place ns l
    · simp [hl]
    · -- what is in a directory lies too deep to be one of those that went
      have hsame : ∀ ns', Deserted c w₁.disk place ns' l ↔ Deserted c w.disk place ns' l := by
        intro ns'
        have hdeep : l = place ++ [ns'] → ∀ name, w₁.disk.get? (l ++ [name]) =
            w.disk.get? (l ++ [name]) := by
          rintro rfl name
          exact hone.kept fun hg => Disk.grandchild_ne_child _ _ _ _ hg.place_eq
        have hhere := hone.kept hl
        constructor
        · exact fun h => ⟨h.dropped, h.valid, h.place_eq, h.reachable, hhere ▸ h.directory,
            fun name => (hdeep h.place_eq name) ▸ h.empty name⟩
        · exact fun h => ⟨h.dropped, h.valid, h.place_eq, h.reachable, hhere.trans h.directory,
            fun name => (hdeep h.place_eq name).trans (h.empty name)⟩
      simp [hl, hsame]

end Run

end StubListing
