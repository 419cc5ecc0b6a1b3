import StubListing.Proofs.Manifest.RoundTrip
import StubListing.Proofs.Run.Correctness
import StubListing.Proofs.Run.Reporting
/-!
# Tidy roots

After a run on a root that was bare, nothing is below the root but the stubs that are reported, their
directories and the manifest, and the manifest names these stubs. Preparing a root that a run left
tidy makes it bare again: the old manifest condemns every stub, and what its directories leave behind
is either still exported or deserted.
-/
namespace StubListing

namespace Run
open StubListing.Action StubListing.Catalog StubListing.Stub
open StubListing.Disk (Sound Anchored Leads Inside Unlinked Removes checkPath)

variable {c c' : Config} {now : Instant} {m : Module} {w w' : Workplace} {report : Report}
  {place l : Location} {d d' : Disk} {s : Selected} {x : Written} {manifest : Manifest}

/-! ## Stubs and their entries -/

/-- The place of a stub that was written. -/
def stubPlace (c : Config) (place : Location) (x : Written) : Location :=
  place ++ [x.ns] ++ [stubName c x]

/-- The stub is in its place and is as it was written. -/
structure Stands (c : Config) (d : Disk) (place : Location) (x : Written) : Prop where
  ns : Path.isFileName x.ns = true
  className : Path.isFileName x.className = true
  path_eq : x.path = (c.outputRoot.join x.ns).join (stubName c x)
  reachable : checkPath x.path = .ok ()
  unchanged : ∃ content, d.get? (stubPlace c place x) = some (.file content) ∧
    Digest.Sha256.ofBytes content = x.digest

theorem Stands.filed (h : Stands c d place x) : Filed c x := ⟨h.ns, h.className, h.path_eq⟩

/-- The entry for a stub condemns it in the next run. -/
theorem Stands.condemns (hc : c.Valid) (hroot : c'.outputRoot = c.outputRoot)
    (h : Stands c d place x) : Condemns c' d place (recorded c x) (stubPlace c place x) := by
  have hname : entryName c' (recorded c x) = stubName c x :=
    h.filed.entryName_recorded hc
  refine ⟨h.ns, h.className, ?_, ?_, h.unchanged⟩
  · rw [hname]
    rfl
  · unfold entryPath
    rw [hname, hroot]
    exact h.path_eq ▸ h.reachable

/-! ## Tidy and bare -/

/-- Nothing is below the root but the stubs, directories of exported namespaces, and the manifest
that names the stubs. -/
structure Tidy (c : Config) (report : Report) (manifest : Manifest) (d : Disk) (place : Location) :
    Prop where
  ready : Ready c d place
  files : ∀ {l : Location} {content : ByteArray}, Inside place l → d.get? l = some (.file content) →
    l = place ++ [Manifest.fileName] ∨ ∃ x ∈ report.written, l = stubPlace c place x
  directories : ∀ {l : Location}, Inside place l → d.get? l = some .directory →
    ∃ ns ∈ c.namespaces, l = place ++ [ns] ∧ checkPath (c.outputRoot.join ns) = .ok ()
  stubs : ∀ x ∈ report.written, Stands c d place x
  reachable : checkPath (c.outputRoot.join Manifest.fileName) = .ok ()
  written : d.get? (place ++ [Manifest.fileName]) = some (.file manifest.text.toUTF8)
  writable : manifest.Writable
  namespaces : manifest.namespaces = c.namespaces
  entries : manifest.entries = report.written.map (recorded c)

/-- Nothing is below the root but directories of exported namespaces. -/
def Bare (c : Config) (d : Disk) (place : Location) : Prop :=
  ∀ {l : Location} {e : Entry}, Inside place l → d.get? l = some e →
    ∃ ns ∈ c.namespaces, l = place ++ [ns] ∧ e = .directory ∧
      checkPath (c.outputRoot.join ns) = .ok ()

theorem bare_of_empty (h : ∀ l, Inside place l → d.get? l = none) : Bare c d place := by
  intro l e hl he
  rw [h l hl] at he
  cases he

/-- The manifest of a tidy root is there to be read. -/
theorem Tidy.text_eq (h : Tidy c report manifest d place) :
    d.text (c.outputRoot.join Manifest.fileName) = .ok manifest.text := by
  have hcontent := (h.ready.anchored.leads.content_child h.ready.sound isEntryName_manifest
    (h.ready.unlinked _ (Disk.inside_child place _))).mpr ⟨h.reachable, h.written⟩
  exact Disk.text_of_content hcontent

theorem Tidy.storedManifest_eq (h : Tidy c report manifest d place) :
    storedManifest d (c.outputRoot.join Manifest.fileName) = some manifest :=
  storedManifest_of_text h.text_eq h.writable

/-- The manifest of a tidy root is the one that the next run goes by. -/
theorem Tidy.heeded_eq (h : Tidy c report manifest d place) (hroot : c'.outputRoot = c.outputRoot)
    (hprune : c'.pruneStale = true) : heeded c' d = some manifest := by
  unfold heeded
  rw [if_pos hprune, hroot, h.storedManifest_eq]

/-- Every stub of a tidy root is condemned. -/
theorem Tidy.condemned (h : Tidy c report manifest d place) (hc : c.Valid)
    (hroot : c'.outputRoot = c.outputRoot) (hprune : c'.pruneStale = true)
    (hx : x ∈ report.written) : Condemned c' d place (stubPlace c place x) := by
  refine ⟨manifest, h.heeded_eq hroot hprune, recorded c x, ?_, (h.stubs x hx).condemns hc hroot⟩
  rw [h.entries]
  exact List.mem_map.mpr ⟨x, hx, rfl⟩

/-- Preparing a tidy root makes it bare. -/
theorem Tidy.bare (h : Tidy c report manifest d place) (hc : c.Valid)
    (hroot : c'.outputRoot = c.outputRoot) (hprune : c'.pruneStale = true)
    (hremoves : Removes (Gone c' d place) d d') : Bare c' d' place := by
  intro l e hl he
  obtain ⟨hold, hstay⟩ := hremoves.get?_eq_some.mp he
  cases e with
  | link target => exact absurd hold (h.ready.unlinked l hl target)
  | file content =>
    refine absurd ?_ hstay
    rcases h.files hl hold with rfl | ⟨x, hx, rfl⟩
    · exact Or.inl ⟨⟨_, rfl⟩, by rw [hold]; simp⟩
    · exact Or.inr (Or.inl (h.condemned hc hroot hprune hx))
  | directory =>
    obtain ⟨ns, hns, rfl, hcheck⟩ := h.directories hl hold
    by_cases hlisted : ns ∈ c'.namespaces
    · exact ⟨ns, hlisted, rfl, rfl, hroot ▸ hcheck⟩
    · -- the directory is no longer exported, and all that is in it is condemned
      refine absurd (Or.inr (Or.inr ⟨ns, ?_, rfl⟩)) hstay
      refine ⟨⟨manifest, h.heeded_eq hroot hprune, h.namespaces ▸ hns⟩, hlisted, hc.2.1 ns hns,
        hroot ▸ hcheck, hold, fun name hname => ?_⟩
      have hin := Disk.inside_append (Disk.inside_child place ns) [name]
      obtain ⟨e, he⟩ := Option.isSome_iff_exists.mp hname
      have hdeep := Disk.grandchild_ne_child place ns name
      cases e with
      | link target => exact absurd he (h.ready.unlinked _ hin target)
      | directory =>
        obtain ⟨other, -, heq, -⟩ := h.directories hin he
        exact absurd heq (hdeep other)
      | file content =>
        rcases h.files hin he with heq | ⟨x, hx, heq⟩
        · exact absurd heq (hdeep _)
        · rw [heq]
          exact h.condemned hc hroot hprune hx

/-! ## The run -/

/-- The counts of a class can be told in a manifest. -/
def Countable (t : TypeDecl) : Prop :=
  t.properties.length < UInt64.size ∧ t.fields.length < UInt64.size ∧ t.methods.length < UInt64.size

theorem countable_memberCounts {t : TypeDecl} (h : Countable t) (inherited : Bool) :
    (memberCounts inherited t).Countable := by
  obtain ⟨hproperties, hfields, hmethods⟩ := h
  exact ⟨Nat.lt_of_le_of_lt (List.length_filter_le _ _) hproperties,
    Nat.lt_of_le_of_lt (List.length_filter_le _ _) hfields,
    Nat.lt_of_le_of_lt (List.length_filter_le _ _) hmethods⟩

namespace Parts

variable (parts : Parts c now m w report w') (hc : c.Valid)
  (hready : Ready c parts.prepared.disk place)

include hc hready

theorem stands {x : Written} (hs : Except.ok s ∈ planFor c m)
    (hx : (jobOf c s).fateIn parts.prepared.disk place = .ok x) : Stands c w'.disk place x := by
  have hj := (plannable_plan hc _).proper hs
  obtain ⟨-, hopen, rfl⟩ := Job.fate_eq_ok_iff.mp hx
  obtain ⟨hcheck, -, -⟩ := Files.opening_eq_ok.mp hopen
  exact ⟨hj.ns, hj.className, rfl, hcheck, _, parts.get?_spot_ended hc hready hs hx, rfl⟩

theorem stands_of_written {x : Written} (hx : x ∈ report.written) : Stands c w'.disk place x := by
  obtain ⟨s, hs, hfate⟩ := (parts.mem_written hc hready).mp hx
  exact parts.stands hc hready hs hfate

omit hready in
/-- The manifest names the stubs of the run. -/
theorem manifest_entries : parts.manifest.entries = report.written.map (Run.recorded c) :=
  parts.entries_eq hc now m.name c.namespaces

/-- The manifest can be read again, if the clock tells a time that exists and no list of members is
longer than a number can tell. -/
theorem manifest_writable (hnow : now.Valid) (hcount : ∀ t ∈ m.types, Countable t) :
    parts.manifest.Writable := by
  refine ⟨hnow, fun e he => ?_⟩
  obtain ⟨x, hx, rfl⟩ := List.mem_map.mp he
  obtain ⟨s, hs, hfate⟩ := (parts.mem_written hc hready).mp hx
  obtain ⟨-, -, rfl⟩ := Job.fate_eq_ok_iff.mp hfate
  exact countable_memberCounts (hcount _ (mem_types_of_planned hc hs).1) _

/-- The manifest is there to be read, if it is wanted. -/
theorem manifest_text (hwanted : c.writeManifest = true) :
    w'.disk.text (c.outputRoot.join Manifest.fileName) = .ok parts.manifest.text := by
  obtain ⟨hend, -⟩ := parts.ended_ready hc hready
  have hthere : w'.disk.get? (place ++ [Manifest.fileName]) =
      some (.file parts.manifest.text.toUTF8) := by
    rw [parts.ended_get? hc hready, if_pos ⟨hwanted, rfl⟩]
  apply Disk.text_of_content
  apply (hend.anchored.leads.content_child hend.sound isEntryName_manifest
    (hend.unlinked _ (Disk.inside_child place _))).mpr
  exact ⟨(parts.manifest_free hc hready hwanted).1, hthere⟩

/-- A run on a bare root leaves it tidy. -/
theorem tidy (hbare : Bare c parts.prepared.disk place) (hwanted : c.writeManifest = true)
    (hnow : now.Valid) (hcount : ∀ t ∈ m.types, Countable t) :
    Tidy c report parts.manifest w'.disk place := by
  have hsettled := parts.rendered_settled hc hready
  have hget := parts.ended_get? hc hready
  have hrest : ∀ {l : Location} {e : Entry}, Inside place l → w'.disk.get? l = some e →
      (l = place ++ [Manifest.fileName] ∧ e = .file parts.manifest.text.toUTF8) ∨
      (e = .directory ∧ ∃ ns ∈ c.namespaces, l = place ++ [ns] ∧
        checkPath (c.outputRoot.join ns) = .ok ()) ∨
      (∃ x ∈ report.written, l = stubPlace c place x ∧ e ≠ .directory) := by
    intro l e hl he
    rw [hget] at he
    split at he
    · rename_i hmanifest
      exact Or.inl ⟨hmanifest.2, (Option.some.inj he).symm⟩
    · by_cases hhouse : ∃ s, Except.ok s ∈ planFor c m ∧ l = (jobOf c s).house place ∧
          (jobOf c s).Housable parts.prepared.disk place
      · obtain ⟨s, hs, rfl, hh⟩ := hhouse
        rw [hsettled.houses hs hh] at he
        exact Or.inr (Or.inl ⟨(Option.some.inj he).symm, s.ns, (mem_types_of_planned hc hs).2, rfl,
          (Files.housing_eq_ok.mp hh).1⟩)
      · by_cases hspot : ∃ s x, Except.ok s ∈ planFor c m ∧ l = (jobOf c s).spot place ∧
            (jobOf c s).fateIn parts.prepared.disk place = .ok x
        · obtain ⟨s, x, hs, rfl, hx⟩ := hspot
          rw [hsettled.spots hs hx] at he
          refine Or.inr (Or.inr ⟨x, (parts.mem_written hc hready).mpr ⟨s, hs, hx⟩, ?_, ?_⟩)
          · obtain ⟨-, -, rfl⟩ := Job.fate_eq_ok_iff.mp hx
            rfl
          · rw [← Option.some.inj he]
            simp
        · rw [hsettled.others (fun s hs heq hh => hhouse ⟨s, hs, heq, hh⟩)
            fun s x hs heq hx => hspot ⟨s, x, hs, heq, hx⟩] at he
          obtain ⟨ns, hns, rfl, hdir, hcheck⟩ := hbare hl he
          exact Or.inr (Or.inl ⟨hdir, ns, hns, rfl, hcheck⟩)
  refine ⟨(parts.ended_ready hc hready).1, fun hl he => ?_, fun hl he => ?_,
    fun x hx => parts.stands_of_written hc hready hx, (parts.manifest_free hc hready hwanted).1, ?_,
    parts.manifest_writable hc hready hnow hcount, rfl, parts.manifest_entries hc⟩
  · rcases hrest hl he with ⟨heq, -⟩ | ⟨hdir, -⟩ | ⟨x, hx, heq, -⟩
    · exact Or.inl heq
    · cases hdir
    · exact Or.inr ⟨x, hx, heq⟩
  · rcases hrest hl he with ⟨-, hfile⟩ | ⟨-, hns⟩ | ⟨x, -, -, hfile⟩
    · cases hfile
    · exact hns
    · exact absurd rfl hfile
  · rw [hget, if_pos ⟨hwanted, rfl⟩]

end Parts

end Run

end StubListing
