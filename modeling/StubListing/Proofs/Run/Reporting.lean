import StubListing.Proofs.Run.Ending
/-!
# What a run reports

A run has an outcome for every class that is selected, in the order of the catalog, and tells of a
stub by the place that its class has under the settings. Both hold on any tree, and so does what
follows for the manifest: it names the stubs of the run one by one, and from an entry the path of the
stub is told again.
-/
namespace StubListing

namespace Stub

variable {j : Job} {d : Disk} {x : Written} {result : Except Failure Written}

/-- The class that an outcome is about, as its namespace and its name. -/
def subject : Outcome → String × String
  | .ok x => (x.ns, x.className)
  | .error f => (f.ns, f.className)

/-- A stub that was written is the one that was to be written. -/
theorem Job.run_eq_ok (h : (j.run d).1 = .ok x) : ∃ path, j.path = .ok path ∧ x = j.written path := by
  unfold Job.run at h
  cases hpath : j.path with
  | error f =>
    rw [hpath] at h
    cases h
  | ok path =>
    rw [hpath] at h
    rcases hhouse : Files.provide d (j.root.join j.ns) with ⟨_ | _, d₁⟩
    · simp [hhouse] at h
    · rcases hopen : Files.openFile d₁ path with ⟨_ | place, d₂⟩
      · simp [hhouse, hopen] at h
      · simp only [hhouse, hopen] at h
        exact ⟨path, rfl, (Except.ok.inj h).symm⟩

theorem Job.outcome_eq_ok : j.outcome result = .ok x ↔ result = .ok x := by
  cases result <;> simp [Job.outcome]

/-- Whatever becomes of it, the outcome of a job is about its class. -/
theorem Job.subject_outcome_run (j : Job) (d : Disk) :
    subject (j.outcome (j.run d).1) = (j.ns, j.type.name) := by
  cases hrun : (j.run d).1 with
  | error f => rfl
  | ok x =>
    obtain ⟨path, -, rfl⟩ := Job.run_eq_ok hrun
    rfl

end Stub

namespace Run
open StubListing.Action StubListing.Catalog StubListing.Stub

variable {c c' : Config} {now : Instant} {m : Module} {w w' : Workplace} {report : Report}
  {d : Disk} {x y : Written}

/-! ## The classes of a report -/

/-- The class that the plan says something of. -/
def considered : Planned → String × String
  | .ok s => (s.ns, s.type.name)
  | .error f => (f.ns, f.className)

theorem map_considered_planFrom (c : Config) (taken : List Path) (selected : List Selected) :
    (planFrom c taken selected).map considered = selected.map fun s => (s.ns, s.type.name) := by
  induction selected generalizing taken with
  | nil => rfl
  | cons s rest ih =>
    unfold planFrom
    split
    · rw [List.map_cons, ih]
      rfl
    · split
      · rw [List.map_cons, ih]
        rfl
      · rw [List.map_cons, ih]
        rfl

theorem map_subject_renderAll (c : Config) (plan : List Planned) (d : Disk) :
    (renderAll c plan d).1.map subject = plan.map considered := by
  induction plan generalizing d with
  | nil => rfl
  | cons p rest ih =>
    cases p with
    | error f =>
      show subject (.error f) :: (renderAll c rest d).1.map subject = _
      rw [ih]
      rfl
    | ok s =>
      show subject ((jobOf c s).outcome ((jobOf c s).run d).1) ::
        (renderAll c rest ((jobOf c s).run d).2).1.map subject = _
      rw [ih, Job.subject_outcome_run]
      rfl

/-- The report goes through the classes that are selected, one after the other: each is the next one
written or the next one that failed. -/
theorem Parts.subjects (parts : Parts c now m w report w') :
    ∃ outcomes : List Outcome,
      outcomes.map subject = (select c.namespaces m.types).map (fun s => (s.ns, s.type.name)) ∧
        report.written = writtenOf outcomes ∧ report.failures = failedOf outcomes := by
  refine ⟨_, ?_, parts.written_eq, parts.failures_eq⟩
  rw [map_subject_renderAll]
  exact map_considered_planFrom c [] _

/-! ## The stubs of a report -/

/-- The file name of a stub that was written. -/
def stubName (c : Config) (x : Written) : String := x.className ++ "." ++ c.fileExtension

/-- The entry for a stub: its path is that of the stub as seen from the root. -/
def recorded (c : Config) (x : Written) : ManifestEntry :=
  ⟨x.ns, x.className, ⟨x.ns ++ "/" ++ stubName c x⟩, x.digest, x.members⟩

/-- The path of the stub is the one that its class has under the settings. -/
structure Filed (c : Config) (x : Written) : Prop where
  ns : Path.isFileName x.ns = true
  className : Path.isFileName x.className = true
  path_eq : x.path = (c.outputRoot.join x.ns).join (stubName c x)

theorem Filed.isEntryName_stubName (hc : c.Valid) (h : Filed c x) :
    Path.IsEntryName (stubName c x) :=
  Path.isEntryName_append (Path.isEntryName_of_isFileName h.className) (not_mem_extension hc (Or.inl rfl))

/-- The entry for a stub is what the manifest of the run has for it. -/
theorem Filed.entryOf_eq (hc : c.Valid) (h : Filed c x) :
    Manifest.entryOf c.outputRoot x = recorded c x := by
  have hbelow := Path.below?_join_join c.outputRoot (Path.isEntryName_of_isFileName h.ns)
    (h.isEntryName_stubName hc)
  unfold Manifest.entryOf recorded
  rw [h.path_eq, hbelow]
  rfl

/-- From the entry for a stub the next run tells the file name of the stub. -/
theorem Filed.entryName_recorded (hc : c.Valid) (h : Filed c x) :
    entryName c' (recorded c x) = stubName c x := by
  have hns := Path.isEntryName_of_isFileName h.ns
  have hname := h.isEntryName_stubName hc
  have hext : (recorded c x).path.extension? = some c.fileExtension := by
    unfold Path.extension? recorded
    rw [← Path.join_text hns hname, Path.fileName?_join _ hname]
    exact Path.extensionOf?_append (Path.isEntryName_of_isFileName h.className).ne_empty
      (not_mem_extension hc (Or.inr rfl))
  unfold entryName
  rw [hext]
  rfl

/-- From the entry for a stub the next run tells the path of the stub, if it is on the same root. -/
theorem Filed.entryTarget_recorded (hc : c.Valid) (hroot : c'.outputRoot = c.outputRoot)
    (h : Filed c x) : entryTarget c' (recorded c x) = .ok x.path := by
  have htarget : entryTarget c' (recorded c x) = .ok (entryPath c' (recorded c x)) :=
    target_eq_ok h.ns h.className
  have hname : entryName c' (recorded c x) = stubName c x := h.entryName_recorded hc
  rw [htarget, entryPath, hname, hroot, h.path_eq]
  rfl

/-- A stub among the outcomes is that of an accepted class, in the same place of the order. -/
theorem renderAll_getElem?_ok {plan : List Planned} {i : Nat}
    (h : (renderAll c plan d).1[i]? = some (.ok x)) :
    ∃ s path, plan[i]? = some (.ok s) ∧ targetOf c s = .ok path ∧ x = (jobOf c s).written path := by
  induction plan generalizing d i with
  | nil => cases h
  | cons p rest ih =>
    cases i with
    | succ k => cases p <;> exact ih h
    | zero =>
      cases p with
      | error f => cases h
      | ok s =>
        have hrun : (jobOf c s).outcome ((jobOf c s).run d).1 = .ok x := Option.some.inj h
        obtain ⟨path, hpath, hx⟩ := Job.run_eq_ok (Job.outcome_eq_ok.mp hrun)
        exact ⟨s, path, rfl, hpath, hx⟩

namespace Parts

variable (parts : Parts c now m w report w')

include parts

/-- What is reported as written has the path of its class. -/
theorem filed (hx : x ∈ report.written) : Filed c x := by
  rw [parts.written_eq, mem_writtenOf] at hx
  obtain ⟨i, hi⟩ := List.getElem?_of_mem hx
  obtain ⟨s, path, -, htarget, rfl⟩ := renderAll_getElem?_ok hi
  obtain ⟨hns, hname, rfl⟩ := targetOf_eq_ok_iff.mp htarget
  exact ⟨hns, hname, rfl⟩

/-- No class is reported as written twice. -/
theorem nodup_written (hc : c.Valid) :
    (report.written.map fun x => (x.ns, x.className)).Nodup := by
  have hapart : (renderAll c (planFor c m) parts.prepared.disk).1.Pairwise fun a b =>
      ∀ x y, a = .ok x → b = .ok y → (x.ns, x.className) ≠ (y.ns, y.className) := by
    rw [List.pairwise_iff_getElem]
    rintro i k hi hk hlt x y hx hy heq
    obtain ⟨s, p, hs, -, rfl⟩ := renderAll_getElem?_ok (List.getElem?_eq_some_iff.mpr ⟨hi, hx⟩)
    obtain ⟨t, q, ht, -, rfl⟩ := renderAll_getElem?_ok (List.getElem?_eq_some_iff.mpr ⟨hk, hy⟩)
    -- the plan accepts no two classes with one stub between them
    have hdiff := (plannable_plan hc _).apart hs ht (Nat.ne_of_lt hlt)
    rw [sameStub_iff.mpr (Prod.mk.injEq .. ▸ heq)] at hdiff
    cases hdiff
  rw [parts.written_eq, List.Nodup, List.pairwise_map, writtenOf, List.pairwise_filterMap]
  refine hapart.imp fun {a b} hab x hx y hy => ?_
  cases a <;> cases hx
  cases b <;> cases hy
  exact hab _ _ rfl rfl

/-- The manifest of the run has an entry for every stub that is reported. -/
theorem entries_eq (hc : c.Valid) (time : Instant) (module : String) (namespaces : List String) :
    (Manifest.ofRun time module namespaces c.outputRoot report.written report.failures).entries =
      report.written.map (Run.recorded c) :=
  List.map_congr_left fun _ hx => (parts.filed hx).entryOf_eq hc

end Parts

/-! ## The manifest of a report -/

/-- In a manifest with no class twice, every entry is the one that is found for its class. -/
theorem find?_of_mem_entries {manifest : Manifest} {e : ManifestEntry}
    (hkeys : (manifest.entries.map fun e => (e.ns, e.className)).Nodup)
    (he : e ∈ manifest.entries) : manifest.find? e.ns e.className = some e := by
  unfold Manifest.find?
  generalize manifest.entries = entries at hkeys he
  induction entries with
  | nil => cases he
  | cons first rest ih =>
    obtain ⟨hfresh, hrest⟩ := List.nodup_cons.mp hkeys
    rcases List.mem_cons.mp he with rfl | hmem
    · simp
    · have hne : (first.ns, first.className) ≠ (e.ns, e.className) := fun heq =>
        hfresh (List.mem_map.mpr ⟨e, hmem, heq.symm⟩)
      rw [List.find?_cons_of_neg (by simpa using hne), ih hrest hmem]

/-- The manifest of a run has the stubs that the run reports, one entry for each, in their order and
with the paths that they have below the root, and no class twice. A class that was written is found
in it, and a later run on the same root, with whatever extension, tells from the entry the very path
that was written. -/
theorem generate_recorded {doc : Document} (hc : c.Valid)
    (h : (generate c now doc).Returns w report w') (time : Instant) (module : String)
    (namespaces : List String) :
    let manifest :=
      Manifest.ofRun time module namespaces c.outputRoot report.written report.failures
    manifest.entries = report.written.map (recorded c) ∧
      (manifest.entries.map fun e => (e.ns, e.className)).Nodup ∧
      ∀ x ∈ report.written,
        manifest.find? x.ns x.className = some (recorded c x) ∧
          ∀ c' : Config, c'.outputRoot = c.outputRoot →
            entryTarget c' (recorded c x) = .ok x.path := by
  intro manifest
  obtain ⟨m, -, ⟨parts⟩⟩ := generate_returns h
  have hentries : manifest.entries = report.written.map (recorded c) :=
    parts.entries_eq hc time module namespaces
  have hkeys : (manifest.entries.map fun e => (e.ns, e.className)).Nodup := by
    rw [hentries, List.map_map]
    exact parts.nodup_written hc
  refine ⟨hentries, hkeys, fun x hx => ⟨?_, fun c' hroot => ?_⟩⟩
  · have hmem : recorded c x ∈ manifest.entries := hentries ▸ List.mem_map_of_mem hx
    exact find?_of_mem_entries hkeys hmem
  · exact (parts.filed hx).entryTarget_recorded hc hroot

/-- A root spelt in a roundabout way, and a class whose name has dots and an arity marker. -/
theorem generate_recorded_of_roundabout :
    let c : Config := { Config.standard with
      module := "M", namespaces := ["N"], outputRoot := ⟨"./x/..//G//"⟩ }
    let later : Config := { c with fileExtension := "txt" }
    let doc : Document := ⟨[⟨"M", [.emptyClass "N" "A.b`1 c"]⟩]⟩
    let d : Disk := ⟨[(["x"], .directory)], []⟩
    ∃ report w', (generate c ⟨⟨2024, 1, 1⟩, 0, 0⟩ doc).Returns ⟨d, []⟩ report w' ∧
      ∃ x ∈ report.written, (recorded c x).path = ⟨"N/A.b`1 c.stub"⟩ ∧
        x.path = ⟨"./x/..//G//N/A.b`1 c.stub"⟩ ∧
        entryTarget later (recorded c x) = .ok x.path := by
  intro c later doc d
  let now : Instant := ⟨⟨2024, 1, 1⟩, 0, 0⟩
  obtain ⟨report, hrun⟩ : ∃ report, (generate c now doc).Returns ⟨d, []⟩ report
      ((generate c now doc).ending ⟨d, []⟩).2 := returns_of_isOk (by decide +kernel)
  have hpaths : ((generate c now doc).ending ⟨d, []⟩).1.toOption.map
      (fun r => r.written.map fun x => (x.ns, x.className, x.path)) =
        some [("N", "A.b`1 c", ⟨"./x/..//G//N/A.b`1 c.stub"⟩)] := by decide +kernel
  rw [hrun] at hpaths
  obtain ⟨x, hx, heq⟩ : ∃ x ∈ report.written,
      (x.ns, x.className, x.path) = ("N", "A.b`1 c", (⟨"./x/..//G//N/A.b`1 c.stub"⟩ : Path)) := by
    have hmem := List.mem_of_mem_head? (congrArg List.head? (Option.some.inj hpaths))
    exact List.mem_map.mp hmem
  have h := (generate_recorded ⟨by decide, by decide, by decide⟩ hrun now "M" ["N"]).2.2 x hx
  simp only [Prod.mk.injEq] at heq
  refine ⟨report, _, hrun, x, hx, ?_, heq.2.2, h.2 later rfl⟩
  simp [recorded, stubName, heq, c, Config.standard]

end Run

end StubListing
