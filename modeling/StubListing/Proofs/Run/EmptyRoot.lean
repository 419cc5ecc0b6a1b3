import StubListing.Proofs.Run.Frame
import StubListing.Proofs.Run.Tidying
/-!
# Runs on an empty root

On a root that is there and empty a run comes to its end. What goes wrong with a class is reported of
that class, and the manifest is written last and names every stub. Two things can be in its way: a path
that the system does not take, and a class in a namespace of the manifest's own name.
-/
namespace StubListing.Run
open StubListing.Action StubListing.Catalog StubListing.Stub
open StubListing.Disk (Sound Anchored Leads Inside Unlinked checkPath)

variable {c : Config} {now : Instant} {m : Module} {doc : Document} {w w' : Workplace}
  {report : Report} {place : Location} {d : Disk}

/-- The output root is there, with nothing in it. -/
structure EmptyRoot (c : Config) (d : Disk) (place : Location) : Prop where
  sound : d.Sound
  root : d.find c.outputRoot = .ok place
  directory : d.get? place = some .directory
  empty : ∀ l, Inside place l → d.get? l = none

namespace EmptyRoot

theorem present (h : EmptyRoot c d place) : d.isDirectory c.outputRoot = true :=
  Disk.isDirectory_iff.mpr ⟨place, h.root, h.directory⟩

theorem leads (h : EmptyRoot c d place) : Leads d c.outputRoot place := by
  obtain ⟨hcheck, goal, hgoal⟩ := Disk.leads_of_isDirectory h.present
  have hfind : d.find c.outputRoot = .ok goal := hgoal.find_eq hcheck
  have hsame : goal = place := by
    rw [h.root] at hfind
    exact (Except.ok.inj hfind).symm
  exact hsame ▸ hgoal

theorem linksLoose (h : EmptyRoot c d place) : LinksLoose d place := by
  intro l target hl hlink
  rw [h.empty l hl] at hlink
  cases hlink

/-- There is nothing to clear, so clearing cannot fail. -/
theorem clearable (h : EmptyRoot c d place) : Clearable c d place := by
  refine ⟨h.sound, Disk.anchored_of_empty h.leads h.empty, h.present, h.linksLoose, ?_⟩
  intro name e he
  rw [h.empty _ (Disk.inside_child place name)] at he
  cases he

/-- An empty root is still empty when it has been prepared. -/
theorem prepared {removed : Removed} (h : EmptyRoot c w.disk place) (hc : c.Valid)
    (hprepare : (prepare c).Returns w removed w') :
    Ready c w'.disk place ∧ ∀ l, Inside place l → w'.disk.get? l = none := by
  have hroot := h.clearable
  have hremoves := prepare_removes hc h.sound hroot.anchored h.present h.linksLoose hprepare
  refine ⟨ready_of_removes hroot.anchored h.linksLoose hremoves, ?_⟩
  intro l hl
  cases hg : w'.disk.get? l with
  | none => rfl
  | some e =>
    have hold := (hremoves.get?_eq_some.mp hg).1
    rw [h.empty l hl] at hold
    cases hold

end EmptyRoot

/-- What a run has to show for itself when it is over: every selected class is accounted for in its own
place, and the manifest tells what is reported. -/
structure Completed (c : Config) (now : Instant) (m : Module) (report : Report) (w : Workplace) :
    Prop where
  accounted : ∃ outcomes : List Outcome,
    outcomes.length = (select c.namespaces m.types).length ∧
      report.written = writtenOf outcomes ∧ report.failures = failedOf outcomes ∧
      ∀ (i : Nat) (s : Selected), (select c.namespaces m.types)[i]? = some s →
        (∀ x, outcomes[i]? = some (.ok x) → Delivered c s x w) ∧
          ∀ f, outcomes[i]? = some (.error f) → f.ns = s.ns ∧ f.className = s.type.name
  manifestPath : report.manifestPath = some (c.outputRoot.join Manifest.fileName)
  manifest : w.disk.text (c.outputRoot.join Manifest.fileName) =
    .ok (Manifest.ofRun now m.name c.namespaces c.outputRoot report.written report.failures).text
  entries : (Manifest.ofRun now m.name c.namespaces c.outputRoot report.written
    report.failures).entries = report.written.map (recorded c)
  readable : now.Valid → (∀ t ∈ m.types, Countable t) →
    (Manifest.load (c.outputRoot.join Manifest.fileName)).Returns w
      (Manifest.ofRun now m.name c.namespaces c.outputRoot report.written report.failures) w

theorem Parts.completed (parts : Parts c now m w report w') (hc : c.Valid)
    (hready : Ready c parts.prepared.disk place) (hwanted : c.writeManifest = true) :
    Completed c now m report w' := by
  have hlength : (renderAll c (planFor c m) parts.prepared.disk).1.length =
      (select c.namespaces m.types).length := by
    rw [length_renderAll, planFor, plan, length_planFrom]
  have htext := parts.manifest_text hc hready hwanted
  have hrendered := parts.rendered_ready hc hready
  have hrecord := record_returns hrendered.anchored.leads
    (hrendered.unlinked _ (Disk.inside_child place _)) parts.recording
  rw [if_pos hwanted] at hrecord
  refine ⟨⟨_, hlength, parts.written_eq, parts.failures_eq, ?_⟩, hrecord.1, htext,
    parts.manifest_entries hc, ?_⟩
  · intro i s hs
    exact parts.accounts hc hready hs
  · intro hnow hcount
    have hwritable := parts.manifest_writable hc hready hnow hcount
    rw [Returns, Manifest.ending_load, htext]
    simp only [Manifest.parse_text hwritable]
    rfl

/-- A run on an empty root goes through and leaves its manifest there, if the system takes the path of
the manifest and no class that could be written is in a namespace of that name. -/
theorem generate_on_empty (hc : c.Valid) (hm : doc.require c.module = .ok m)
    (hwanted : c.writeManifest = true) (hroot : EmptyRoot c w.disk place)
    (hpath : checkPath (c.outputRoot.join Manifest.fileName) = .ok ())
    (hnames : ∀ s ∈ select c.namespaces m.types,
      Path.isFileName s.type.name = true → s.ns ≠ Manifest.fileName) :
    ∃ report w', (generate c now doc).Returns w report w' ∧ Completed c now m report w' := by
  have hready : ∀ (w₁ : Workplace) (removed : Removed) (w₂ : Workplace), w₁.disk = w.disk →
      (prepare c).Returns w₁ removed w₂ → Ready c w₂.disk place ∧ Recordable c m w₂.disk place := by
    intro w₁ removed w₂ hsame hprepare
    rw [← hsame] at hroot
    obtain ⟨hready, hempty⟩ := hroot.prepared hc hprepare
    refine ⟨hready, hready.recordable hc (fun _ => hpath) (fun _ => ?_) fun _ s hs => ?_⟩
    · rw [hempty _ (Disk.inside_child place _)]
      simp
    · exact hnames s (mem_of_mem_plan hc hs) ((plannable_plan hc _).proper hs).className
  have hends : (generate c now doc).Completes w := by
    apply generate_completes_of_prepare hc hm _ hready
    intro w₁ hsame
    exact prepare_completes hc (hsame ▸ hroot.clearable)
  obtain ⟨report, w', hrun⟩ := hends
  obtain ⟨m', hm', ⟨parts⟩⟩ := generate_returns hrun
  obtain rfl : m' = m := Except.ok.inj (hm'.symm.trans hm)
  obtain ⟨hprepared, -⟩ := hready _ _ _ parts.started_eq parts.preparing
  exact ⟨report, w', hrun, parts.completed hc hprepared hwanted⟩

/-- One class is written, and the name of another is no file name. -/
theorem generate_on_empty_of_two :
    let c : Config := { Config.standard with module := "M", namespaces := ["N"], outputRoot := ⟨"G"⟩ }
    let m : Module := ⟨"M", [.emptyClass "N" "A", .emptyClass "N" "B/C"]⟩
    ∃ report w', (generate c ⟨⟨2024, 1, 1⟩, 0, 0⟩ ⟨[m]⟩).Returns
      ⟨⟨[(["G"], .directory)], []⟩, []⟩ report w' ∧
        Completed c ⟨⟨2024, 1, 1⟩, 0, 0⟩ m report w' := by
  intro c m
  have hroot : EmptyRoot c ⟨[(["G"], .directory)], []⟩ ["G"] := by
    refine ⟨by decide, by decide +kernel, by decide, ?_⟩
    intro l hl
    obtain ⟨name, rest, rfl⟩ := hl
    simp [Disk.get?]
  exact generate_on_empty ⟨by decide, by decide, by decide⟩ rfl rfl hroot (by decide)
    (by decide +kernel)

/-! ## What can be in the way of the manifest -/

/-- Settings for a root that is spelt with so many slashes at its end. -/
def paddedConfig (n : Nat) : Config :=
  { Config.standard with module := "M", namespaces := [], outputRoot := Path.padded ⟨"out"⟩ n }

theorem paddedConfig_valid (n : Nat) : (paddedConfig n).Valid := by
  refine ⟨?_, by simp [paddedConfig], by simp [paddedConfig]⟩
  show (paddedConfig 0).firstFault? = none
  decide

theorem emptyRoot_padded {n : Nat} (h : 3 + n < Disk.pathLimit) :
    EmptyRoot (paddedConfig n) ⟨[(["out"], .directory)], []⟩ ["out"] := by
  have hsize : (Path.padded ⟨"out"⟩ n).text.utf8ByteSize = 3 + n := Path.utf8ByteSize_padded _ n
  have hcheck : checkPath (Path.padded ⟨"out"⟩ n) = .ok () := by
    apply Disk.checkPath_eq_ok.mpr
    refine ⟨?_, fun hempty => ?_, hsize ▸ h⟩
    · rw [Path.toList_padded, List.mem_append, List.mem_replicate, not_or]
      exact ⟨by decide, fun hslash => absurd hslash.2 (by decide)⟩
    · have hzero : "".utf8ByteSize = 0 := by decide
      rw [hempty, hzero] at hsize
      omega
  have hplain : Leads ⟨[(["out"], .directory)], []⟩ ⟨"out"⟩ ["out"] :=
    ⟨by decide, Disk.reaches_iff.mp (by decide +kernel)⟩
  have hleads : Leads ⟨[(["out"], .directory)], []⟩ (Path.padded ⟨"out"⟩ n) ["out"] :=
    hplain.congr (Path.moves_padded _ n) (Path.isAbsolute_padded _ n (by decide))
  refine ⟨by decide, hleads.find_eq hcheck, by decide, ?_⟩
  intro l hl
  obtain ⟨name, rest, rfl⟩ := hl
  simp [Disk.get?]

/-- Where the path of the manifest is too long, no run goes through. -/
theorem not_completes_of_long (hc : c.Valid) (hwanted : c.writeManifest = true)
    (hroot : EmptyRoot c w.disk place)
    (hlong : Disk.pathLimit ≤ c.outputRoot.text.utf8ByteSize + Manifest.fileName.utf8ByteSize) :
    ¬ (generate c now doc).Completes w := by
  intro h
  obtain ⟨report, w', hrun⟩ := h
  obtain ⟨m, -, ⟨parts⟩⟩ := generate_returns hrun
  have hstart := parts.started_eq
  obtain ⟨hready, -⟩ := (hstart ▸ hroot).prepared hc parts.preparing
  obtain ⟨hcheck, -⟩ := parts.manifest_free hc hready hwanted
  have hsize := (Path.utf8ByteSize_join c.outputRoot isEntryName_manifest).1
  have hlimit := (Disk.checkPath_eq_ok.mp hcheck).2.2
  omega

/-- Two runs on an empty root that fail: one names the root by a path that leaves no room for the name
of the manifest, the other exports a class from a namespace of that name. -/
theorem empty_root_refused :
    let long := paddedConfig 4085
    let named : Config :=
      { Config.standard with module := "M", namespaces := [Manifest.fileName], outputRoot := ⟨"out"⟩ }
    let now : Instant := ⟨⟨2024, 1, 1⟩, 0, 0⟩
    let w : Workplace := ⟨⟨[(["out"], .directory)], []⟩, []⟩
    (long.Valid ∧ long.writeManifest = true ∧ EmptyRoot long w.disk ["out"] ∧
        ¬ (generate long now ⟨[⟨"M", []⟩]⟩).Completes w) ∧
      named.Valid ∧ named.writeManifest = true ∧ EmptyRoot named w.disk ["out"] ∧
        ¬ (generate named now ⟨[⟨"M", [.emptyClass Manifest.fileName "A"]⟩]⟩).Completes w := by
  intro long named now w
  have hvalid : long.Valid := paddedConfig_valid 4085
  have hlong : EmptyRoot long w.disk ["out"] := emptyRoot_padded (by decide)
  have hnamed : EmptyRoot named w.disk ["out"] := by
    refine ⟨hlong.sound, ?_, hlong.directory, hlong.empty⟩
    exact (emptyRoot_padded (by decide : 3 + 0 < Disk.pathLimit)).root
  refine ⟨⟨hvalid, rfl, hlong, ?_⟩, ⟨by decide, by decide, by decide⟩, rfl, hnamed, ?_⟩
  · apply not_completes_of_long hvalid rfl hlong
    have hsize : (Path.padded ⟨"out"⟩ 4085).text.utf8ByteSize = 3 + 4085 :=
      Path.utf8ByteSize_padded _ 4085
    show Disk.pathLimit ≤ (Path.padded ⟨"out"⟩ 4085).text.utf8ByteSize + _
    rw [hsize]
    decide
  · intro h
    obtain ⟨report, w', hrun⟩ := h
    have hfails : ((generate named now
        ⟨[⟨"M", [.emptyClass Manifest.fileName "A"]⟩]⟩).ending w).1.isOk = false := by
      decide +kernel
    rw [hrun] at hfails
    cases hfails

end StubListing.Run
