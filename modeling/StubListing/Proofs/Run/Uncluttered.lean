import StubListing.Proofs.Run.Keeping
/-!
# Roots without loose files

A root that is a directory when the run begins loses all that is directly in it and no directory, and one
that the run makes is empty. After that only stubs are written, two levels down; so without a manifest
nothing but directories is directly in the root in the end. The exception is a file that a stub was
written to through a link: clearing does not reach the links further down.
-/
namespace StubListing.Run
open StubListing.Action StubListing.Catalog StubListing.Stub
open StubListing.Disk (Leads Unlinked Within LinksWithin Rebuilt Furnished checkPath)

variable {c : Config} {w w' : Workplace} {d d' base : Disk} {place : Location} {now : Instant}
  {report : Report} {n : Nat} {m : Manifest}

/-- Nothing but directories is directly in it. -/
def Uncluttered (place : Location) (d : Disk) : Prop :=
  ∀ name e, d.get? (place ++ [name]) = some e → e = .directory

theorem Uncluttered.within (h : Uncluttered place base) (hw : Within base d) : Uncluttered place d :=
  fun name e he => h name e (hw.entry he)

theorem Uncluttered.unlinked (h : Uncluttered place d) (name : String) : Unlinked d (place ++ [name]) := by
  intro target hlink
  cases h name _ hlink

theorem Uncluttered.furnished (h : Uncluttered place d) (hall : ∀ l, Furnished l d d') :
    Uncluttered place d' := by
  intro name e he
  by_contra hne
  exact hne (h name e ((hall _).entry he hne))

theorem uncluttered_of_no_directory (hd : d.Sound) (h : d.get? place ≠ some .directory) :
    Uncluttered place d := by
  intro name e he
  rw [hd.nothing_below h (Disk.inside_child place name)] at he
  cases he

/-! ## Clearing -/

theorem pruneNamespace_within {ns : String} (h : Within base w.disk)
    (hret : (pruneNamespace c ns).Returns w n w') : Within base w'.disk := by
  rcases pruneNamespace_cases hret with ⟨-, hremove⟩ | ⟨-, hsame⟩
  · obtain ⟨d, hcall, rfl⟩ := Files.returns_removeDirectory.mp hremove
    obtain ⟨directory, name, -, rfl⟩ := Disk.removeDirectory_ok hcall
    exact h.drop (by simp)
  · rw [hsame]
    exact h

theorem prune_within (hc : c.Valid) {removed : Removed} (h : Within base w.disk)
    (hret : (prune c m).Returns w removed w') : Within base w'.disk := by
  obtain ⟨files, w₁, hentries, hret⟩ := returns_bind.mp hret
  obtain ⟨directories, w₂, hnames, hret⟩ := returns_bind.mp hret
  obtain ⟨-, rfl⟩ := returns_pure.mp hret
  refine sumOf_keeps (fun ns _ => pruneNamespace_within) ?_ hnames
  exact sumOf_keeps (fun e _ _ _ _ hw => pruneEntry_within hw hc) h hentries

/-- Clearing takes away only, and leaves nothing but directories directly in the root. -/
theorem clear_unclutters (hc : c.Valid) (hd : w.disk.Sound) (hroot : Leads w.disk c.outputRoot place)
    (hcheck : checkPath c.outputRoot = .ok ()) {previous : Option Manifest} {removed : Removed}
    (h : (clear c previous).Returns w removed w') : Within w.disk w'.disk ∧ Uncluttered place w'.disk := by
  obtain ⟨cleared, w₁, hfiles, hpruning⟩ := returns_bind.mp h
  obtain ⟨hwithin, hclear, -⟩ := clearFiles_sweeps hd hroot hcheck hfiles
  cases previous with
  | none =>
    obtain ⟨-, rfl⟩ := returns_pure.mp hpruning
    exact ⟨hwithin, hclear⟩
  | some m =>
    obtain ⟨pruned, w₂, hprune, hpure⟩ := returns_bind.mp hpruning
    obtain ⟨-, rfl⟩ := returns_pure.mp hpure
    have hpruned := prune_within hc (.refl _) hprune
    exact ⟨prune_within hc hwithin hprune, Uncluttered.within hclear hpruned⟩

/-- A prepared root is cleared if the root was that directory, or if the directory was already. No link
is new. -/
theorem prepare_unclutters (hc : c.Valid) (hd : w.disk.Sound)
    (hplace : w.disk.find c.outputRoot = .ok place ∧ w.disk.get? place = some .directory ∨
      Uncluttered place w.disk) {removed : Removed} (h : (prepare c).Returns w removed w') :
    Uncluttered place w'.disk ∧ LinksWithin w.disk w'.disk := by
  cases hdir : w.disk.isDirectory c.outputRoot with
  | false =>
    obtain ⟨-, d, hprovide, rfl⟩ := (prepare_missing hdir).mp h
    have hclear : Uncluttered place w.disk := hplace.resolve_left fun ⟨hfind, hthere⟩ => by
      rw [Disk.isDirectory_iff.mpr ⟨place, hfind, hthere⟩] at hdir
      cases hdir
    have hfurnished := fun l => Disk.furnished_provide (l := l) w.disk c.outputRoot
    have hrebuilt := (Rebuilt.refl w.disk).provide c.outputRoot
    rw [hprovide] at hrebuilt
    simp only [hprovide] at hfurnished
    exact ⟨hclear.furnished hfurnished, hrebuilt.toLinksWithin⟩
  | true =>
    obtain ⟨w₁, hsame, hclearing⟩ := prepare_there hdir h
    obtain ⟨hcheck, house, hroot⟩ := Disk.leads_of_isDirectory hdir
    rw [← hsame] at hd hroot hplace ⊢
    obtain ⟨hwithin, hclear⟩ := clear_unclutters hc hd hroot hcheck hclearing
    refine ⟨?_, hwithin.linksWithin⟩
    rcases hplace with ⟨hfind, -⟩ | hbefore
    · obtain rfl := Except.ok.inj ((hroot.find_eq hcheck).symm.trans hfind)
      exact hclear
    · exact hbefore.within hwithin

/-! ## Writing -/

/-- The path of a stub that was written comes out somewhere. -/
theorem job_found {j : Job} {x : Written} (h : (j.run d).1 = .ok x) :
    ∃ l, (j.run d).2.find x.path = .ok l := by
  unfold Job.run at h ⊢
  cases hpath : j.path with
  | error f =>
    rw [hpath] at h
    cases h
  | ok path =>
    simp only [hpath] at h ⊢
    rcases hhouse : Files.provide d (j.root.join j.ns) with ⟨_ | _, d₁⟩
    · simp [hhouse] at h
    · rcases hopen : Files.openFile d₁ path with ⟨_ | found, d₂⟩
      · simp [hhouse, hopen] at h
      · simp only [hhouse, hopen] at h ⊢
        obtain rfl := Except.ok.inj h
        rcases Disk.openFile_cases hopen with ⟨housed, -, ⟨f, hf, -⟩ | ⟨place, -, hcreate⟩⟩
        · cases hf
        · have hlasts : Disk.LastsAll d₂ (d₂.write found j.text.toUTF8) := Disk.lasts_write _ _ _
          exact ⟨place, hlasts.find (Disk.find_of_create hcreate).1⟩

theorem renderAll_found {plan : List Planned} {x : Written}
    (h : Except.ok x ∈ (renderAll c plan d).1) : ∃ l, (renderAll c plan d).2.find x.path = .ok l := by
  induction plan generalizing d with
  | nil => cases h
  | cons planned rest ih =>
    cases planned with
    | error f =>
      rcases List.mem_cons.mp h with heq | hm
      · cases heq
      · exact ih hm
    | ok s =>
      rcases List.mem_cons.mp h with heq | hm
      · obtain ⟨l, hfind⟩ := job_found (Job.outcome_eq_ok.mp heq.symm)
        have hlasts : Disk.LastsAll ((jobOf c s).run d).2 (renderAll c rest ((jobOf c s).run d).2).2 :=
          renderAll_lasts rest _
        exact ⟨l, hlasts.find hfind⟩
      · exact ih hm

/-! ## The run -/

/-- The directory that the root denotes in a run: the one that its path comes to when the run begins, or
one that its path comes to in the end and that was no directory before. -/
def Denoted (c : Config) (before after : Disk) (place : Location) : Prop :=
  before.find c.outputRoot = .ok place ∧ before.get? place = some .directory ∨
    Leads after c.outputRoot place ∧ before.get? place ≠ some .directory

/-- The disk at the end of a run without a manifest is the one on which the stubs were written. -/
theorem Parts.disk_of_no_manifest {m : Module} (parts : Parts c now m w report w')
    (hwanted : c.writeManifest = false) : w'.disk = parts.rendered.disk := by
  have hrecord := parts.recording
  rw [record, if_neg (by simp [hwanted])] at hrecord
  rw [parts.ended_eq, (returns_pure.mp hrecord).2]

/-- Stubs are written into directories of the root. Where one was written to something directly in the
root, a link stood in its place. -/
theorem Parts.houses {m : Module} {x : Written} (parts : Parts c now m w report w') (hc : c.Valid)
    (hclear : Uncluttered place parts.prepared.disk)
    (hroot : Leads parts.rendered.disk c.outputRoot place) (hx : x ∈ report.written) :
    Leads parts.rendered.disk (c.outputRoot.join x.ns) (place ++ [x.ns]) ∧
      ∀ name, parts.rendered.disk.find x.path = .ok (place ++ [name]) →
        ∃ target, parts.prepared.disk.get? (place ++ [x.ns] ++ [stubName c x]) = some (.link target) := by
  have hlinks : LinksWithin parts.prepared.disk parts.rendered.disk := by
    rw [parts.rendered_eq]
    exact (renderAll_rebuilt _ (.refl _)).toLinksWithin
  have hfiled := parts.filed hx
  have hns := Path.isEntryName_of_isFileName hfiled.ns
  have hname := hfiled.isEntryName_stubName hc
  obtain ⟨l, hfind⟩ := renderAll_found (mem_writtenOf.mp (parts.written_eq ▸ hx))
  rw [← parts.rendered_eq, hfiled.path_eq] at hfind
  rw [hfiled.path_eq]
  obtain ⟨house, hhouse⟩ := Disk.leads_of_find_join hname hfind
  have hunlinked : Unlinked parts.rendered.disk (place ++ [x.ns]) :=
    fun target hlink => hclear.unlinked x.ns target (hlinks.link hlink)
  obtain rfl := hroot.child_eq hns hunlinked hhouse
  refine ⟨hhouse, fun name hout => ?_⟩
  by_contra hno
  refine Disk.grandchild_ne_child _ _ _ _ (hhouse.find_child_eq hname (fun target hlink => ?_) hout).symm
  exact hno ⟨target, hlinks.link hlink⟩

/-- Without a manifest, nothing but directories is directly in the root when a run is over, apart from
files that the path of a stub of this run comes out at. The stubs are in directories of the root, and
only where a link stood in the place of a stub can its path come out directly in the root. -/
theorem generate_leaves_uncluttered {doc : Document} (hc : c.Valid) (hwanted : c.writeManifest = false)
    (hd : w.disk.Sound) (h : (generate c now doc).Returns w report w')
    (hplace : Denoted c w.disk w'.disk place) :
    (∀ name e, w'.disk.get? (place ++ [name]) = some e →
        e = .directory ∨ ∃ x ∈ report.written, w'.disk.find x.path = .ok (place ++ [name])) ∧
      (Leads w'.disk c.outputRoot place → ∀ x ∈ report.written,
        Leads w'.disk (c.outputRoot.join x.ns) (place ++ [x.ns]) ∧
          ∀ name, w'.disk.find x.path = .ok (place ++ [name]) →
            ∃ target, w.disk.get? (place ++ [x.ns] ++ [stubName c x]) = some (.link target)) := by
  obtain ⟨m, -, ⟨parts⟩⟩ := generate_returns h
  have hstart := parts.started_eq
  have hbefore : parts.started.disk.find c.outputRoot = .ok place ∧
      parts.started.disk.get? place = some .directory ∨ Uncluttered place parts.started.disk := by
    rw [hstart]
    exact hplace.imp id fun hnew => uncluttered_of_no_directory hd hnew.2
  obtain ⟨hclear, hlinks⟩ := prepare_unclutters hc (hstart ▸ hd) hbefore parts.preparing
  rw [hstart] at hlinks
  rw [parts.disk_of_no_manifest hwanted]
  refine ⟨fun name e he => ?_, fun hroot x hx => ?_⟩
  · rcases renderAll_furnishes c (planFor c m) parts.prepared.disk (place ++ [name]) with
      hfurnished | ⟨x, hx, hfind⟩
    · rw [← parts.rendered_eq] at hfurnished
      by_cases hdir : e = .directory
      · exact Or.inl hdir
      · exact Or.inl (hclear name e (hfurnished.entry he hdir))
    · rw [← parts.rendered_eq] at hfind
      exact Or.inr ⟨x, parts.written_eq ▸ mem_writtenOf.mpr hx, hfind⟩
  · obtain ⟨hhouse, hthrough⟩ := parts.houses hc hclear hroot hx
    refine ⟨hhouse, fun name hfind => ?_⟩
    obtain ⟨target, hlink⟩ := hthrough name hfind
    exact ⟨target, hlinks.link hlink⟩

/-- Settings for runs without a manifest that export one namespace. -/
def plainConfig (root : String) : Config :=
  { Config.standard with module := "M", namespaces := ["N"], outputRoot := ⟨root⟩, writeManifest := false }

/-- A run with these settings, for a catalog with classes of these names. -/
def plainRun (root : String) (names : List String) : Action Report :=
  generate (plainConfig root) ⟨⟨2024, 1, 1⟩, 0, 0⟩ ⟨[⟨"M", names.map (.emptyClass "N")⟩]⟩

theorem plainConfig_valid (root : String) : (plainConfig root).Valid := by
  have hname : Path.isFileName "N" = true := by decide
  refine ⟨?_, by simp [plainConfig, hname], by simp [plainConfig]⟩
  show (plainConfig "").firstFault? = none
  decide

/-- A root with a file, a link and a directory in it, where a link stands in the place of a stub. -/
def linkedDisk : Disk :=
  ⟨[(["out"], .directory), (["out", "a.txt"], .file .empty), (["out", "L"], .link "N"),
    (["out", "N"], .directory), (["out", "N", "A.stub"], .link "../X")], []⟩

/-- The path of one of two stubs comes out directly in the root. -/
theorem generate_leaves_uncluttered_of_linked :
    ∃ report w', (plainRun ".//out/" ["A", "B"]).Returns ⟨linkedDisk, []⟩ report w' ∧
      Leads w'.disk ⟨".//out/"⟩ ["out"] ∧
      (∀ name e, w'.disk.get? (["out"] ++ [name]) = some e →
        e = .directory ∨ ∃ x ∈ report.written, w'.disk.find x.path = .ok (["out"] ++ [name])) ∧
      ∀ x ∈ report.written, Leads w'.disk (Path.join ⟨".//out/"⟩ x.ns) (["out"] ++ [x.ns]) := by
  obtain ⟨report, hrun⟩ := returns_of_isOk
    (by decide +kernel : ((plainRun ".//out/" ["A", "B"]).ending ⟨linkedDisk, []⟩).1.isOk = true)
  have hplace : Denoted (plainConfig ".//out/") linkedDisk
      ((plainRun ".//out/" ["A", "B"]).ending ⟨linkedDisk, []⟩).2.disk ["out"] :=
    Or.inl ⟨by decide +kernel, by decide⟩
  obtain ⟨hclear, hhouses⟩ :=
    generate_leaves_uncluttered (plainConfig_valid _) rfl (by decide) hrun hplace
  have hroot : Leads ((plainRun ".//out/" ["A", "B"]).ending ⟨linkedDisk, []⟩).2.disk ⟨".//out/"⟩
      ["out"] := ⟨by decide +kernel, Disk.reaches_iff.mp (by decide +kernel)⟩
  exact ⟨report, _, hrun, hroot, hclear, fun x hx => (hhouses hroot x hx).1⟩

/-- A run with this root goes through, the root comes to the directory in the end, and something that is
no directory is directly in it. -/
def Cluttered (root : String) (d : Disk) (place : Location) : Prop :=
  d.Sound ∧ ∃ report w', (plainRun root ["A"]).Returns ⟨d, []⟩ report w' ∧ Leads w'.disk ⟨root⟩ place ∧
    ∃ name e, w'.disk.get? (place ++ [name]) = some e ∧ e ≠ .directory

theorem cluttered {root : String} {place : Location} (name : String) (hd : d.Sound)
    (hrun : ((plainRun root ["A"]).ending ⟨d, []⟩).1.isOk = true)
    (hafter : let after := ((plainRun root ["A"]).ending ⟨d, []⟩).2.disk
      after.get? place = some .directory ∧
        after.walk (Disk.startOf after.home root) (Path.mk root).segments = .ok (.reached place) ∧
        after.get? (place ++ [name]) ≠ none ∧ after.get? (place ++ [name]) ≠ some .directory) :
    Cluttered root d place := by
  obtain ⟨report, hreturns⟩ := returns_of_isOk hrun
  obtain ⟨hdir, hwalk, hthere, hfile⟩ := hafter
  obtain ⟨e, he⟩ := Option.ne_none_iff_exists'.mp hthere
  refine ⟨hd, report, _, hreturns, ⟨hdir, Disk.reaches_iff.mp hwalk⟩, name, e, he, ?_⟩
  rintro rfl
  exact hfile he

/-- A stub may be written through a link; a root that is no directory as it is written may yet come to
one that was there, be it the working directory; and clearing may take away a link that the root led
through, so that it comes to another directory afterwards. -/
theorem roots_left_cluttered :
    (∀ root, (plainConfig root).Valid ∧ (plainConfig root).writeManifest = false) ∧
      Cluttered "out" linkedDisk ["out"] ∧ Cluttered "" ⟨[(["keep.txt"], .file .empty)], []⟩ [] ∧
      Cluttered "a/../b" ⟨[(["b"], .directory), (["b", "keep.txt"], .file .empty)], []⟩ ["b"] ∧
      Cluttered "x/L/../x" ⟨[(["x"], .directory), (["x", "x"], .directory),
        (["x", "x", "keep.txt"], .file .empty), (["a"], .directory), (["a", "s"], .directory),
        (["x", "L"], .link "../a/s"), (["a", "x"], .link "../x")], []⟩ ["x", "x"] := by
  refine ⟨fun root => ⟨plainConfig_valid root, rfl⟩, ?_, ?_, ?_, ?_⟩
  · exact cluttered "X" (by decide) (by decide +kernel) (by decide +kernel)
  all_goals exact cluttered "keep.txt" (by decide) (by decide +kernel) (by decide +kernel)

end StubListing.Run
