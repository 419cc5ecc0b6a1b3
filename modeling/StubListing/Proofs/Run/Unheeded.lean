import StubListing.Proofs.Disk.Lasting
import StubListing.Proofs.Manifest.Truncating
import StubListing.Proofs.Run.Frame
/-!
# Runs that go by no manifest

Without a manifest nothing is known of the previous run, and no more is taken away than the files
directly in the output root. So it is after a run that was stopped while it saved its manifest: what
it left of the text is never acted on.
-/
namespace StubListing.Run
open StubListing.Action StubListing.Catalog StubListing.Stub
open StubListing.Disk (Leads Unlinked Inside Within Lasts)
open StubListing.Path (IsEntryName)

variable {c : Config} {w w' : Workplace} {d d' : Disk} {root : Path} {place : Location} {n : Nat}
  {now : Instant} {report : Report} {among : Location → Prop}

/-! ## Clearing the root -/

/-- The location is not one directly in the directory. -/
def Apart (place l : Location) : Prop := ∀ name, l ≠ place ++ [name]

/-- The second tree is what is left of the first when only files directly in the directory go. -/
structure Cleared (place : Location) (d d' : Disk) : Prop where
  within : Within d d'
  lasts : Lasts (Apart place) d d'

theorem Cleared.removeFile {name : String} {after : Disk} (h : Cleared place d d')
    (hroot : Leads d root place) (hlinks : ∀ l, Inside place l → Unlinked d l)
    (hn : IsEntryName name) (hcall : d'.removeFile (root.join name) = .ok after) :
    Cleared place d after := by
  have hroot' := hroot.keeps h.lasts.toKeeps
  obtain ⟨-, -, ⟨e, he, hentry⟩, rfl⟩ := (hroot'.removeFile_child hn).mp hcall
  refine ⟨h.within.drop (by simp), h.lasts.trans ?_⟩
  cases e with
  | directory => exact absurd rfl hentry
  | link target => exact absurd (h.within.entry he) (hlinks _ (Disk.inside_child place name) target)
  | file content => exact Disk.lasts_drop_file he fun hapart => hapart name rfl

theorem clearFiles_lasts (hd : w.disk.Sound) (hroot : Leads w.disk root place)
    (hlinks : ∀ l, Inside place l → Unlinked w.disk l)
    (h : (Files.clearFiles root).Returns w n w') : Lasts (Apart place) w.disk w'.disk := by
  obtain ⟨listing, w₁, hlist, hcount⟩ := returns_bind.mp h
  obtain ⟨hlisting, rfl⟩ := Files.returns_children.mp hlist
  have hcleared : (countAll (listing.files.map Files.removeFile)).Leaves
      (Cleared place w₁.disk) w₁ := by
    refine leaves_countAll (fun action haction w₂ h₂ => ?_) ⟨.refl _, .refl _ _⟩
    obtain ⟨p, hp, rfl⟩ := List.mem_map.mp haction
    obtain ⟨name, hn, rfl⟩ := Disk.mem_files_of_listing hd hlisting hp
    exact leaves_during (leaves_change h₂ fun _ hcall => h₂.removeFile hroot hlinks hn hcall)
  exact (hcleared.of_returns hcount).lasts

/-! ## Preparing the root -/

/-- No link stands below the output root. -/
def RootUnlinked (c : Config) (d : Disk) : Prop :=
  ∀ place, d.find c.outputRoot = .ok place → ∀ l, Inside place l → Unlinked d l

/-- The location is not one directly in the output root. -/
def Sheltered (c : Config) (d : Disk) (l : Location) : Prop :=
  ∀ place, d.find c.outputRoot = .ok place → Apart place l

/-- Where no manifest is heeded, no directory goes, and only files directly in the root do. -/
theorem prepare_lasts (hd : w.disk.Sound) (hlinks : RootUnlinked c w.disk)
    (hnone : heeded c w.disk = none) {removed : Removed} (h : (prepare c).Returns w removed w') :
    Lasts (Sheltered c w.disk) w.disk w'.disk ∧ removed.directories = 0 := by
  cases hdir : w.disk.isDirectory c.outputRoot with
  | true =>
    obtain ⟨hcheck, place, hroot⟩ := Disk.leads_of_isDirectory hdir
    have hfind := hroot.find_eq hcheck
    obtain ⟨w₁, hsame, hclear⟩ := prepare_there hdir h
    rw [hnone] at hclear
    rw [← hsame] at hd hroot hlinks hfind ⊢
    obtain ⟨cleared, w₂, hfiles, hpure⟩ := returns_bind.mp hclear
    obtain ⟨rfl, rfl⟩ := returns_pure.mp hpure
    have hlasts := clearFiles_lasts hd hroot (hlinks place hfind) hfiles
    exact ⟨hlasts.mono fun l hl => hl place hfind, rfl⟩
  | false =>
    obtain ⟨rfl, d, hprovide, rfl⟩ := (prepare_missing hdir).mp h
    have hlasts : Lasts (Sheltered c w.disk) w.disk (Files.provide w.disk c.outputRoot).2 :=
      Disk.lasts_provide _ _
    rw [hprovide] at hlasts
    exact ⟨hlasts, rfl⟩

/-! ## Writing -/

theorem job_lasts {j : Job} (h : Lasts among d d') : Lasts among d (j.run d').2 := by
  refine Job.run_keeps h (fun _ hd => hd.trans (Disk.lasts_provide _ _)) ?_
  intro path _ d₁ result d₂ hd hopen
  have hopened := hd.trans (Disk.lasts_openFile hopen)
  exact ⟨hopened, fun place _ => hopened.trans (Disk.lasts_write _ _ _)⟩

theorem renderAll_lasts (planned : List Planned) (d : Disk) :
    Lasts among d (renderAll c planned d).2 :=
  renderAll_keeps (.refl _ _) fun _ _ _ hd => job_lasts hd

theorem record_lasts {module : String} {written : List Written} {failures : List Failed}
    {told : Option Path} (h : (record c now module written failures).Returns w told w') :
    Lasts among w.disk w'.disk := by
  unfold record at h
  split at h
  · obtain ⟨_, w₁, hsave, hpure⟩ := returns_bind.mp h
    obtain ⟨-, rfl⟩ := returns_pure.mp hpure
    obtain ⟨w₂, hwrite, hsame⟩ := Manifest.returns_save hsave
    rw [hsame]
    exact Files.lasts_writeText hwrite
  · obtain ⟨-, rfl⟩ := returns_pure.mp h
    exact .refl _ _

/-! ## The run -/

/-- A run that heeds no manifest takes away no directory, and no file but those directly in the
output root. -/
theorem generate_lasts {doc : Document} (hd : w.disk.Sound) (hlinks : RootUnlinked c w.disk)
    (hnone : heeded c w.disk = none) (h : (generate c now doc).Returns w report w') :
    Lasts (Sheltered c w.disk) w.disk w'.disk ∧ report.removed.directories = 0 := by
  obtain ⟨m, -, ⟨parts⟩⟩ := generate_returns h
  rw [← parts.started_eq] at hd hlinks hnone ⊢
  obtain ⟨hprepared, hcount⟩ := prepare_lasts hd hlinks hnone parts.preparing
  refine ⟨?_, hcount⟩
  have hrendered : Lasts (Sheltered c parts.started.disk) parts.prepared.disk
      parts.rendered.disk := by
    rw [parts.rendered_eq]
    exact renderAll_lasts _ _
  rw [parts.ended_eq]
  exact (hprepared.trans hrendered).trans (record_lasts parts.recording)

/-! ## Manifests that break off -/

variable {m : Manifest} {front rest : ByteArray}

theorem heeded_of_truncated (htext : m.text.toUTF8 = front ++ rest) (hrest : rest ≠ .empty)
    (hcontent : d.content (c.outputRoot.join Manifest.fileName) = .ok front) :
    heeded c d = none := by
  unfold heeded
  split
  · unfold storedManifest
    cases hread : d.text (c.outputRoot.join Manifest.fileName) with
    | error e => rfl
    | ok text =>
      cases hparse : Manifest.parse text with
      | error fault =>
        show (Manifest.parse text).toOption = none
        rw [hparse]
        rfl
      | ok found =>
        exact absurd hparse (Manifest.not_parse_of_truncated htext hrest hcontent hread found)
  · rfl

/-- The text of a manifest that breaks off is never acted on. Loading it fails wherever it is, and a
run that finds it in the output root takes away no directory and no file further down in the root,
whether it is to prune or not. -/
theorem generate_of_truncated (htext : m.text.toUTF8 = front ++ rest) (hrest : rest ≠ .empty) :
    (∀ p w, w.disk.content p = .ok front → ∃ f, (Manifest.load p).Fails w f w) ∧
      ∀ c now doc w report w', w.disk.Sound → RootUnlinked c w.disk →
        w.disk.content (c.outputRoot.join Manifest.fileName) = .ok front →
        (generate c now doc).Returns w report w' →
        (∀ l, w.disk.get? l = some .directory → w'.disk.get? l = some .directory) ∧
          (∀ l content, Sheltered c w.disk l → w.disk.get? l = some (.file content) →
            ∃ content', w'.disk.get? l = some (.file content')) ∧
          report.removed.directories = 0 := by
  refine ⟨fun p w hcontent => Manifest.load_fails_of_truncated htext hrest hcontent, ?_⟩
  intro c now doc w report w' hd hlinks hcontent hrun
  obtain ⟨hlasts, hcount⟩ :=
    generate_lasts hd hlinks (heeded_of_truncated htext hrest hcontent) hrun
  exact ⟨fun l hl => hlasts.directory hl, fun l content hl hfile => hlasts.file hl hfile, hcount⟩

/-- The text of the manifest of the stub that was left, up to the middle of the time. -/
def tornText : String := String.ofList ((leftManifest.value.prettyChars 0).take 30)

def tornRest : String := String.ofList ((leftManifest.value.prettyChars 0).drop 30)

/-- The tree with that stub, where the manifest breaks off. -/
def tornDisk : Disk :=
  ⟨[(["out"], .directory), (["out", "Game"], .directory), (leftPlace, .file "x".toUTF8),
    (["out", Manifest.fileName], .file tornText.toUTF8)], []⟩

theorem toUTF8_leftManifest :
    leftManifest.text.toUTF8 = tornText.toUTF8 ++ tornRest.toUTF8 := by
  have htext : leftManifest.text = tornText ++ tornRest := by
    rw [tornText, tornRest, ← String.ofList_append, List.take_append_drop]
    rfl
  rw [htext]
  exact String.toByteArray_append

/-- The whole manifest condemns the stub. Where it breaks off, the stub stays. -/
theorem generate_of_truncated_left :
    ∃ report w', (generate (nextConfig 0) ⟨⟨2024, 1, 2⟩, 0, 0⟩ ⟨[⟨"M", []⟩]⟩).Returns ⟨tornDisk, []⟩
      report w' ∧ (∃ content, w'.disk.get? leftPlace = some (.file content)) ∧
        w'.disk.get? ["out", "Game"] = some .directory ∧ report.removed.directories = 0 := by
  let start : Workplace := ⟨tornDisk, []⟩
  have hcompletes : (generate (nextConfig 0) ⟨⟨2024, 1, 2⟩, 0, 0⟩ ⟨[⟨"M", []⟩]⟩).Completes start := by
    obtain ⟨report, hrun⟩ : ∃ report,
        (generate (nextConfig 0) ⟨⟨2024, 1, 2⟩, 0, 0⟩ ⟨[⟨"M", []⟩]⟩).Returns start report
          ((generate (nextConfig 0) ⟨⟨2024, 1, 2⟩, 0, 0⟩ ⟨[⟨"M", []⟩]⟩).ending start).2 :=
      returns_of_isOk (by decide +kernel)
    exact hrun.completes
  obtain ⟨report, w', hrun⟩ := hcompletes
  have hroot : tornDisk.find (nextConfig 0).outputRoot = .ok ["out"] := by decide +kernel
  have hfound : tornDisk.find ((nextConfig 0).outputRoot.join Manifest.fileName) =
      .ok ["out", Manifest.fileName] := by decide +kernel
  have hcontent := Disk.content_eq_ok.mpr
    ⟨_, hfound, (rfl : tornDisk.get? _ = some (.file tornText.toUTF8))⟩
  have hunlinked := Disk.unlinked_of_noLinks (by decide +kernel : tornDisk.noLinks = true)
  obtain ⟨-, hkept⟩ := generate_of_truncated toUTF8_leftManifest
    (by decide +kernel : tornRest.toUTF8 ≠ .empty)
  obtain ⟨hdirectories, hfiles, hremoved⟩ := hkept _ _ _ start report w'
    (by decide +kernel : tornDisk.Sound) (fun _ _ l _ => hunlinked l) hcontent hrun
  have hsheltered : Sheltered (nextConfig 0) tornDisk leftPlace := by
    intro place hplace name hname
    rw [hroot] at hplace
    cases hplace
    simp [leftPlace] at hname
  have hstub : tornDisk.get? leftPlace = some (.file "x".toUTF8) := rfl
  have hhouse : tornDisk.get? ["out", "Game"] = some .directory := rfl
  exact ⟨report, w', hrun, hfiles leftPlace _ hsheltered hstub, hdirectories _ hhouse, hremoved⟩

end StubListing.Run
