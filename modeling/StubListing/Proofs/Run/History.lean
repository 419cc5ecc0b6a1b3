import StubListing.Proofs.Run.Tidying
/-!
# Runs one after the other

Whatever is exported from one run to the next, nothing is left behind: after every run the root holds
the stubs of that run and its manifest, and no directory but those of its namespaces.
-/
namespace StubListing.Run
open StubListing.Action StubListing.Catalog StubListing.Stub
open StubListing.Disk (Sound Anchored Leads Inside Unlinked Removes Ordinary checkPath)

variable {c : Config} {now : Instant} {m : Module} {doc : Document} {w w' : Workplace}
  {report : Report} {root : Path} {place : Location} {d d' : Disk} {manifest : Manifest}

/-! ## Histories -/

/-- A run that clears away what the previous one wrote, and records what it writes itself. The clock
tells a time that exists, and no list of members is longer than a number can tell. -/
structure Steady (root : Path) (c : Config) (now : Instant) (doc : Document) : Prop where
  valid : c.Valid
  prune : c.pruneStale = true
  record : c.writeManifest = true
  root : c.outputRoot = root
  time : now.Valid
  countable : ∀ m ∈ doc.modules, ∀ t ∈ m.types, Countable t

/-- Whatever else happened to the tree, the root is where it was with all that is in it. -/
structure Untouched (root : Path) (d d' : Disk) : Prop where
  sound : d'.Sound
  anchored : ∀ {place : Location}, Anchored d root place → Anchored d' root place
  below : ∀ {place l : Location}, Anchored d root place → Inside place l → d'.get? l = d.get? l

theorem Untouched.refl (hd : d.Sound) (root : Path) : Untouched root d d :=
  ⟨hd, id, fun _ _ => rfl⟩

/-- Runs on one root, each with its own settings and its own catalog; the last one had these settings,
gave this report and left this workplace. -/
inductive History (root : Path) (start : Workplace) : Config → Report → Workplace → Prop
  | first {c : Config} {now : Instant} {doc : Document} {report : Report} {w : Workplace} :
      Steady root c now doc → (generate c now doc).Returns start report w →
      History root start c report w
  | next {c c' : Config} {now : Instant} {doc : Document} {report report' : Report}
      {w between w' : Workplace} :
      History root start c report w → Untouched root w.disk between.disk →
      Steady root c' now doc → (generate c' now doc).Returns between report' w' →
      History root start c' report' w'

/-! ## One run after another -/

theorem Tidy.untouched (h : Tidy c report manifest d place) (hu : Untouched c.outputRoot d d') :
    Tidy c report manifest d' place := by
  have hbelow := fun {l} => hu.below (l := l) h.ready.anchored
  refine ⟨⟨hu.sound, hu.anchored h.ready.anchored, fun l hl target => ?_⟩, fun hl he => ?_,
    fun hl he => ?_, fun x hx => ?_, h.reachable, ?_, h.writable, h.namespaces, h.entries⟩
  · rw [hbelow hl]
    exact h.ready.unlinked l hl target
  · exact h.files hl (hbelow hl ▸ he)
  · exact h.directories hl (hbelow hl ▸ he)
  · have hs := h.stubs x hx
    have hin : Inside place (stubPlace c place x) :=
      Disk.inside_append (Disk.inside_child place x.ns) _
    refine ⟨hs.ns, hs.className, hs.path_eq, hs.reachable, ?_⟩
    rw [hbelow hin]
    exact hs.unchanged
  · rw [hbelow (Disk.inside_child place _), h.written]

theorem text_ne_empty (hmoves : root.moves ≠ []) : root.text ≠ "" := by
  intro h
  have hroot : root = ⟨""⟩ := by
    cases root
    simp_all
  subst hroot
  exact hmoves rfl

theorem Tidy.checkPath_root (h : Tidy c report manifest d place) (hmoves : c.outputRoot.moves ≠ []) :
    checkPath c.outputRoot = .ok () :=
  Disk.checkPath_of_isPrefix (Path.text_isPrefix_join _ isEntryName_manifest)
    (text_ne_empty hmoves) h.reachable

/-- The first run, on a root that is missing, leaves it tidy. -/
theorem tidy_of_missing (hsteady : Steady root c now doc) (hordinary : Ordinary root)
    (hmoves : root.moves ≠ []) (hd : w.disk.Sound) (hmissing : w.disk.isDirectory root = false)
    (h : (generate c now doc).Returns w report w') :
    ∃ place manifest, Tidy c report manifest w'.disk place := by
  obtain ⟨m, hm, ⟨parts⟩⟩ := generate_returns h
  obtain ⟨-, place, -, hempty, hready⟩ := parts.ready_of_missing hd (hsteady.root ▸ hordinary)
    (hsteady.root ▸ hmoves) (hsteady.root ▸ hmissing)
  exact ⟨place, _, parts.tidy hsteady.valid hready (bare_of_empty hempty) hsteady.record hsteady.time
    (hsteady.countable m (Document.mem_of_require hm).1)⟩

/-- A run on a root that another run left tidy leaves it tidy. -/
theorem Tidy.next {c' : Config} {report' : Report} (htidy : Tidy c report manifest w.disk place)
    (hc : c.Valid) (hroot : c.outputRoot = root) (hmoves : root.moves ≠ [])
    (hsteady : Steady root c' now doc) (h : (generate c' now doc).Returns w report' w') :
    ∃ manifest', Tidy c' report' manifest' w'.disk place := by
  obtain ⟨m, hm, ⟨parts⟩⟩ := generate_returns h
  have hsame : c'.outputRoot = c.outputRoot := hsteady.root.trans hroot.symm
  have hcheck := htidy.checkPath_root (hroot ▸ hmoves)
  have hlinks : LinksLoose w.disk place := fun l target hl ht =>
    absurd ht (htidy.ready.unlinked l hl target)
  obtain ⟨hremoves, hready⟩ := parts.ready_of_there hsteady.valid htidy.ready.sound
    (hsame ▸ htidy.ready.anchored) (hsame ▸ htidy.ready.anchored.leads.isDirectory hcheck) hlinks
  exact ⟨_, parts.tidy hsteady.valid hready (htidy.bare hc hsame hsteady.prune hremoves)
    hsteady.record hsteady.time (hsteady.countable m (Document.mem_of_require hm).1)⟩

/-- Every run of a history leaves the root tidy. -/
theorem History.tidy {start : Workplace} (h : History root start c report w)
    (hordinary : Ordinary root) (hmoves : root.moves ≠ []) (hd : start.disk.Sound)
    (hmissing : start.disk.isDirectory root = false) :
    c.Valid ∧ c.outputRoot = root ∧ ∃ place manifest, Tidy c report manifest w.disk place := by
  induction h with
  | first hsteady hrun =>
    exact ⟨hsteady.valid, hsteady.root, tidy_of_missing hsteady hordinary hmoves hd hmissing hrun⟩
  | next _ hbetween hsteady hrun ih =>
    obtain ⟨hc, hroot, place, manifest, htidy⟩ := ih
    obtain ⟨manifest', hnext⟩ :=
      (htidy.untouched (hroot ▸ hbetween)).next hc hroot hmoves hsteady hrun
    exact ⟨hsteady.valid, hsteady.root, place, manifest', hnext⟩

/-! ## What is below the root -/

/-- The files below the root are the stubs of the run and its manifest, its directories are those of
exported namespaces, and the manifest has an entry for every stub, with the digest of what is in it. -/
structure Reconciled (c : Config) (report : Report) (place : Location) (w : Workplace) : Prop where
  root : w.disk.find c.outputRoot = .ok place
  files : ∀ {l : Location}, Inside place l → ((∃ content, w.disk.get? l = some (.file content)) ↔
    w.disk.find (c.outputRoot.join Manifest.fileName) = .ok l ∨
      ∃ x ∈ report.written, w.disk.find x.path = .ok l)
  directories : ∀ {l : Location}, Inside place l → w.disk.get? l = some .directory →
    ∃ ns ∈ c.namespaces, l = place ++ [ns]
  unlinked : ∀ {l : Location}, Inside place l → Unlinked w.disk l
  manifest : ∃ manifest,
    (Manifest.load (c.outputRoot.join Manifest.fileName)).Returns w manifest w ∧
      manifest.entries = report.written.map (recorded c)
  paths : ∀ x ∈ report.written,
    target c.outputRoot x.ns x.className c.fileExtension = .ok x.path ∧
      ∃ l, Inside place l ∧ w.disk.find x.path = .ok l
  digests : ∀ x ∈ report.written, (Files.digestOf x.path).Returns w x.digest w

theorem Tidy.find_stub (h : Tidy c report manifest d place) (hc : c.Valid) {x : Written}
    (hx : x ∈ report.written) (l : Location) :
    d.find x.path = .ok l ↔ l = stubPlace c place x := by
  have hs := h.stubs x hx
  obtain ⟨content, hcontent, -⟩ := hs.unchanged
  have hhouse := Disk.inside_child place x.ns
  have hfind := h.ready.anchored.leads.find_grandchild_iff (l := l) h.ready.sound
    (Path.isEntryName_of_isFileName hs.ns) (hs.filed.isEntryName_stubName hc) (h.ready.unlinked _ hhouse)
    (h.ready.unlinked _ (Disk.inside_append hhouse _))
  rw [← hs.path_eq, hs.reachable] at hfind
  rw [hfind]
  unfold stubPlace at hcontent ⊢
  rw [hcontent]
  simp

theorem Tidy.find_manifest (h : Tidy c report manifest d place) (l : Location) :
    d.find (c.outputRoot.join Manifest.fileName) = .ok l ↔ l = place ++ [Manifest.fileName] := by
  rw [h.ready.anchored.leads.find_child_iff h.ready.sound isEntryName_manifest
    (h.ready.unlinked _ (Disk.inside_child place _)), h.reachable, h.written]
  simp

theorem Tidy.reconciled (h : Tidy c report manifest w.disk place) (hc : c.Valid)
    (hmoves : c.outputRoot.moves ≠ []) : Reconciled c report place w := by
  refine ⟨h.ready.anchored.leads.find_eq (h.checkPath_root hmoves), fun {l} hl => ?_,
    fun hl he => ?_, fun {l} hl => h.ready.unlinked l hl, ⟨manifest, ?_, h.entries⟩, fun x hx => ?_,
    fun x hx => ?_⟩
  · rw [h.find_manifest]
    constructor
    · rintro ⟨content, hfile⟩
      rcases h.files hl hfile with heq | ⟨x, hx, heq⟩
      · exact Or.inl heq
      · exact Or.inr ⟨x, hx, (h.find_stub hc hx l).mpr heq⟩
    · rintro (rfl | ⟨x, hx, hfind⟩)
      · exact ⟨_, h.written⟩
      · obtain ⟨content, hfile, -⟩ := (h.stubs x hx).unchanged
        exact ⟨content, (h.find_stub hc hx l).mp hfind ▸ hfile⟩
  · obtain ⟨ns, hns, heq, -⟩ := h.directories hl he
    exact ⟨ns, hns, heq⟩
  · rw [Returns, Manifest.ending_load, h.text_eq]
    simp only [Manifest.parse_text h.writable]
  · have hs := h.stubs x hx
    refine ⟨?_, stubPlace c place x, ?_, (h.find_stub hc hx _).mpr rfl⟩
    · rw [target_eq_ok hs.ns hs.className, hs.path_eq]
      rfl
    · exact Disk.inside_append (Disk.inside_child place x.ns) _
  · obtain ⟨content, hfile, hdigest⟩ := (h.stubs x hx).unchanged
    have hcontent := Disk.content_eq_ok.mpr ⟨_, (h.find_stub hc hx _).mpr rfl, hfile⟩
    exact Files.returns_digestOf.mpr ⟨content, hcontent, hdigest.symm, rfl⟩

/-- After every run of a history that began without the root, nothing is below it but what that run
reports. -/
theorem history_reconciled {start : Workplace} (hordinary : Ordinary root) (hmoves : root.moves ≠ [])
    (hd : start.disk.Sound) (hmissing : start.disk.isDirectory root = false)
    (h : History root start c report w) : ∃ place, Reconciled c report place w := by
  obtain ⟨hc, hroot, place, manifest, htidy⟩ := h.tidy hordinary hmoves hd hmissing
  exact ⟨place, htidy.reconciled hc (hroot ▸ hmoves)⟩

/-- A class of one namespace is exported, and then one of another namespace with another extension: the
second run has a stub, an entry and a directory of the first to clear away. -/
theorem history_reconciled_of_two :
    let first : Config := { Config.standard with
      module := "M", namespaces := ["B"], outputRoot := ⟨"G"⟩ }
    let second : Config := { first with namespaces := ["C"], fileExtension := "txt" }
    ∃ earlier between report w place, History ⟨"G"⟩ ⟨⟨[], []⟩, []⟩ first earlier between ∧
      (between.disk.get? ["G", "B", "X.stub"]).isSome = true ∧
      History ⟨"G"⟩ ⟨⟨[], []⟩, []⟩ second report w ∧ Reconciled second report place w := by
  intro first second
  let now : Instant := ⟨⟨2024, 1, 1⟩, 0, 0⟩
  let before : Document := ⟨[⟨"M", [.emptyClass "B" "X"]⟩]⟩
  let after : Document := ⟨[⟨"M", [.emptyClass "C" "A"]⟩]⟩
  have hnow : now.Valid := ⟨by decide, by decide, by decide, by decide⟩
  have hbefore : Steady ⟨"G"⟩ first now before := by
    refine ⟨⟨by decide, by decide, by decide⟩, rfl, rfl, rfl, hnow, ?_⟩
    simp [before, Countable, TypeDecl.emptyClass]
  have hafter : Steady ⟨"G"⟩ second now after := by
    refine ⟨⟨by decide, by decide, by decide⟩, rfl, rfl, rfl, hnow, ?_⟩
    simp [after, Countable, TypeDecl.emptyClass]
  let start : Workplace := ⟨⟨[], []⟩, []⟩
  let between := ((generate first now before).ending start).2
  have hstart : start.disk.Sound := by decide
  have hstub : (between.disk.get? ["G", "B", "X.stub"]).isSome = true := by decide +kernel
  obtain ⟨report, hfirst⟩ : ∃ report, (generate first now before).Returns start report between :=
    returns_of_isOk (by decide +kernel)
  obtain ⟨report', hsecond⟩ : ∃ report', (generate second now after).Returns between report'
      ((generate second now after).ending between).2 := returns_of_isOk (by decide +kernel)
  obtain ⟨place, manifest, htidy⟩ :=
    tidy_of_missing hbefore (by decide) (by decide) hstart (by decide) hfirst
  have hhistory : History ⟨"G"⟩ start second report' _ :=
    .next (.first hbefore hfirst) (.refl htidy.ready.sound _) hafter hsecond
  obtain ⟨place', h⟩ := history_reconciled (by decide) (by decide) hstart (by decide) hhistory
  exact ⟨report, between, report', _, place', .first hbefore hfirst, hstub, hhistory, h⟩

end StubListing.Run
