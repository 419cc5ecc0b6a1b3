import StubListing.Proofs.Run.Preparing
import StubListing.Proofs.Run.Rendering
import StubListing.Run.Generate
/-!
# A run that returned

What a run did to the tree is what its three parts did: preparing the root, writing the stubs, and
writing the manifest.
-/
namespace StubListing

namespace Files
open StubListing.Action
open StubListing.Disk (Leads Unlinked checkPath)
open StubListing.Path (IsEntryName)

variable {d d' : Disk} {root p : Path} {place opened : Location} {name : String} {w w' : Workplace}

/-- What is above a path in a directory needs no making, also if it is spelt by no text at all. -/
theorem provide_above {q : Path} {front : List String} (h : Leads d q place)
    (habove : Path.IsAbove q p front) (hcheck : checkPath p = .ok ()) :
    provide d q = (.ok (), d) := by
  unfold provide
  by_cases hempty : q.text = ""
  · have hq : q = ⟨""⟩ := by cases q; simp_all
    rw [Disk.makeDirectories_idle (Or.inl (by rw [hq]; decide))]
    split <;> rfl
  · have hqcheck := Disk.checkPath_of_isPrefix habove.text_initial hempty hcheck
    rw [h.isDirectory hqcheck, if_pos rfl]

/-- Opening a file directly in a directory makes no directory. -/
theorem openFile_direct (h : Leads d root place) (hn : IsEntryName name)
    (hu : Unlinked d (place ++ [name])) :
    openFile d (root.join name) = (.ok opened, d') ↔
      checkPath (root.join name) = .ok () ∧ name.utf8ByteSize ≤ Disk.longestName ∧
        d.get? (place ++ [name]) ≠ some .directory ∧ opened = place ++ [name] ∧
        d' = d.put (place ++ [name]) (.file .empty) := by
  obtain ⟨q, hparent, habove⟩ := Path.parent?_of_moves (Path.moves_join root hn)
  have hq : Leads d q place := h.congr habove.moves_eq
    (habove.absolute_eq.trans (Path.isAbsolute_join root hn))
  unfold openFile
  rw [hparent]
  cases hcheck : checkPath (root.join name) with
  | error e =>
    have hfail : ∀ after : Disk, after.create (root.join name) = .error e := by
      intro after
      unfold Disk.create Disk.resolve
      rw [if_neg (Path.getLast?_text_join root hn), hcheck]
      rfl
    rcases hp : provide d q with ⟨_ | _, after⟩
    · simp [hp]
    · simp [hp, hfail]
  | ok _ =>
    simp only [provide_above hq habove hcheck, h.create_child hn hu, hcheck, Except.bind]
    by_cases hlen : Disk.longestName < name.utf8ByteSize
    · simp [hlen, Nat.not_le.mpr hlen]
    · by_cases hdir : d.get? (place ++ [name]) = some .directory
      · simp [hlen, hdir]
      · simp [hlen, hdir, Nat.not_lt.mp hlen, eq_comm]

/-- Writing a text directly in a directory changes one place. -/
theorem writeText_direct {text : String} {u : Unit} (h : Leads w.disk root place)
    (hn : IsEntryName name) (hu : Unlinked w.disk (place ++ [name]))
    (hwrite : (writeText (root.join name) text).Returns w u w') :
    checkPath (root.join name) = .ok () ∧ name.utf8ByteSize ≤ Disk.longestName ∧
      w.disk.get? (place ++ [name]) ≠ some .directory ∧ w'.disk.home = w.disk.home ∧
      (w.disk.Sound → w'.disk.Sound) ∧
      ∀ l, w'.disk.get? l =
        if l = place ++ [name] then some (.file text.toUTF8) else w.disk.get? l := by
  obtain ⟨opened, d, hact, hw⟩ := returns_writeText.mp hwrite
  obtain ⟨hcheck, hlen, hdir, rfl, rfl⟩ := (openFile_direct h hn hu).mp hact
  have hne : place ++ [name] ≠ [] := by simp
  have hempty : (w.disk.put (place ++ [name]) (.file .empty)).get? (place ++ [name]) =
      some (.file .empty) := by rw [Disk.get?_put _ _ _ _ hne, if_pos rfl]
  rw [Disk.write_empty hempty] at hw
  subst hw
  refine ⟨hcheck, hlen, hdir, rfl, fun hd => ?_, fun l => ?_⟩
  · have hnull : '\x00' ∉ name.toList :=
      Disk.noNull_of_moves hcheck (by simp [Path.moves_join root hn])
    have hput := hd.put h.directory ⟨hn, hlen, hnull⟩ (e := .file .empty) fun h => absurd h hdir
    have hthere : (w.disk.put (place ++ [name]) (.file .empty)).get? place = some .directory := by
      rw [Disk.get?_put _ _ _ _ hne, if_neg (by simp), h.directory]
    exact hput.put hthere ⟨hn, hlen, hnull⟩ fun h => by
      rw [hempty] at h
      cases h
  · rw [Disk.get?_put _ _ _ _ hne, Disk.get?_put _ _ _ _ hne]
    by_cases hl : l = place ++ [name] <;> simp [hl]

end Files

theorem Catalog.Document.mem_of_require {doc : Document} {name : String} {m : Module}
    (h : doc.require name = .ok m) : m ∈ doc.modules ∧ m.name = name := by
  unfold Document.require at h
  split at h
  · rename_i found hfound
    cases h
    exact ⟨List.mem_of_find?_eq_some hfound, by simpa using List.find?_some hfound⟩
  · cases h

namespace Run
open StubListing.Action StubListing.Catalog StubListing.Stub
open StubListing.Disk (Leads Unlinked checkPath)

variable {c : Config} {w w' : Workplace} {place : Location} {now : Instant}

theorem isEntryName_manifest : Path.IsEntryName Manifest.fileName :=
  Path.isEntryName_of_isFileName (by decide)

/-- The record of a run goes to the manifest's place, if it is wanted. -/
theorem record_returns {module : String} {written : List Written} {failures : List Failed}
    {told : Option Path} (hroot : Leads w.disk c.outputRoot place)
    (hu : Unlinked w.disk (place ++ [Manifest.fileName]))
    (h : (record c now module written failures).Returns w told w') :
    if c.writeManifest then
      told = some (c.outputRoot.join Manifest.fileName) ∧
        checkPath (c.outputRoot.join Manifest.fileName) = .ok () ∧
        w.disk.get? (place ++ [Manifest.fileName]) ≠ some .directory ∧
        w'.disk.home = w.disk.home ∧ (w.disk.Sound → w'.disk.Sound) ∧
        ∀ l, w'.disk.get? l = if l = place ++ [Manifest.fileName] then
            some (.file (Manifest.ofRun now module c.namespaces c.outputRoot written
              failures).text.toUTF8)
          else w.disk.get? l
    else told = none ∧ w'.disk = w.disk := by
  unfold record at h
  by_cases hwanted : c.writeManifest = true
  · rw [if_pos hwanted] at h ⊢
    obtain ⟨_, w₁, hsave, hpure⟩ := returns_bind.mp h
    obtain ⟨rfl, rfl⟩ := returns_pure.mp hpure
    obtain ⟨_, w₂, hwrite, hnote⟩ := returns_bind.mp hsave
    obtain ⟨hcheck, -, hdir, hrest⟩ := Files.writeText_direct hroot isEntryName_manifest hu hwrite
    rw [disk_of_note hnote]
    exact ⟨rfl, hcheck, hdir, hrest⟩
  · rw [if_neg hwanted] at h ⊢
    obtain ⟨rfl, rfl⟩ := returns_pure.mp h
    exact ⟨rfl, rfl⟩

theorem returns_render {plan : List Planned} {outcomes : List Outcome} :
    (render c plan).Returns w outcomes w' ↔
      outcomes = (renderAll c plan w.disk).1 ∧
        w' = { w with disk := (renderAll c plan w.disk).2 } := by
  unfold render
  constructor
  · intro h
    obtain ⟨d, w₁, hdisk, hrest⟩ := returns_bind.mp h
    obtain ⟨rfl, rfl⟩ := returns_disk.mp hdisk
    obtain ⟨_, w₂, hset, hpure⟩ := returns_bind.mp hrest
    obtain ⟨rfl, rfl⟩ := returns_pure.mp hpure
    exact ⟨rfl, returns_setDisk.mp hset⟩
  · rintro ⟨rfl, rfl⟩
    refine returns_bind.mpr ⟨w.disk, w, returns_disk.mpr ⟨rfl, rfl⟩, ?_⟩
    exact returns_bind.mpr ⟨(), _, returns_setDisk.mpr rfl, returns_pure.mpr ⟨rfl, rfl⟩⟩

/-- The plan for the classes of a module. -/
def planFor (c : Config) (m : Module) : List Planned := plan c (select c.namespaces m.types)

/-- The parts of a run and what is reported of them. -/
structure Parts (c : Config) (now : Instant) (m : Module) (w : Workplace) (report : Report)
    (w' : Workplace) where
  prepared : Workplace
  rendered : Workplace
  recorded : Workplace
  started : Workplace
  started_eq : started.disk = w.disk
  preparing : (prepare c).Returns started report.removed prepared
  rendered_eq : rendered.disk = (renderAll c (planFor c m) prepared.disk).2
  written_eq : report.written =
    writtenOf (renderAll c (planFor c m) prepared.disk).1
  failures_eq : report.failures =
    failedOf (renderAll c (planFor c m) prepared.disk).1
  recording : (record c now m.name report.written report.failures).Returns rendered
    report.manifestPath recorded
  ended_eq : w'.disk = recorded.disk
  counters_eq : report.counters = count c.namespaces m.types
  writtenFiles_eq : report.writtenFiles = report.written.length
  failedClasses_eq : report.failedClasses = report.failures.length

theorem generateModule_returns {m : Module} {report : Report}
    (h : (generateModule c now m).Returns w report w') : Nonempty (Parts c now m w report w') := by
  obtain ⟨_, w₁, hnote, h₁⟩ := returns_bind.mp h
  obtain ⟨removed, w₂, hprepare, h₂⟩ := returns_bind.mp h₁
  obtain ⟨outcomes, w₃, hrender, h₃⟩ := returns_bind.mp h₂
  obtain ⟨_, w₄, hwarn, h₄⟩ := returns_bind.mp h₃
  obtain ⟨told, w₅, hrecord, h₅⟩ := returns_bind.mp h₄
  obtain ⟨_, w₆, hend, h₆⟩ := returns_bind.mp h₅
  obtain ⟨rfl, rfl⟩ := returns_pure.mp h₆
  obtain ⟨rfl, rfl⟩ := returns_render.mp hrender
  exact ⟨⟨w₂, w₄, w₅, w₁, disk_of_note hnote, hprepare, disk_of_noteAll hwarn, rfl, rfl, hrecord,
    disk_of_note hend, rfl, rfl, rfl⟩⟩

theorem generate_returns {doc : Document} {report : Report}
    (h : (generate c now doc).Returns w report w') :
    ∃ m, doc.require c.module = .ok m ∧ Nonempty (Parts c now m w report w') := by
  unfold generate at h
  cases hm : doc.require c.module with
  | error f =>
    rw [hm] at h
    exact absurd h returns_fail
  | ok m =>
    rw [hm] at h
    obtain ⟨_, w₁, hnote, hrest⟩ := returns_bind.mp h
    obtain ⟨parts⟩ := generateModule_returns hrest
    exact ⟨m, rfl, ⟨{ parts with started_eq := parts.started_eq.trans (disk_of_note hnote) }⟩⟩

end Run

end StubListing
