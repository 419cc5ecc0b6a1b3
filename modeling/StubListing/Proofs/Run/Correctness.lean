import StubListing.Proofs.Run.Ending
/-!
# What a run achieves

Every selected class is written or has failed, in its place of the catalog's order. What is
reported as written is in the tree when the run is over, and which classes fail can be told from
the tree before the run.
-/
namespace StubListing

namespace Run
open StubListing.Action StubListing.Catalog StubListing.Stub
open StubListing.Disk (Sound Anchored Leads Inside Unlinked Removes Grows Ordinary Direct checkPath
  longestName)

variable {c : Config} {now : Instant} {m : Module} {w w' : Workplace} {report : Report}
  {place : Location} {d d' : Disk} {s : Selected}

/-! ## Which stubs can be written -/

/-- The system accepts the path of the stub, and no directory is in its place. -/
structure Writable (c : Config) (d : Disk) (place : Location) (s : Selected) : Prop where
  path : checkPath (jobOf c s).spotPath = .ok ()
  ns : s.ns.utf8ByteSize ≤ longestName
  fileName : (jobOf c s).fileName.utf8ByteSize ≤ longestName
  free : d.get? ((jobOf c s).spot place) ≠ some .directory

/-- Preparing leaves only directories directly in the root, and no others in them than before. -/
structure Housekept (place : Location) (d d' : Disk) : Prop where
  houses : ∀ {ns : String} {e : Entry}, d'.get? (place ++ [ns]) = some e → e = .directory
  spots : ∀ {ns name : String}, d'.get? (place ++ [ns] ++ [name]) = some .directory ↔
    d.get? (place ++ [ns] ++ [name]) = some .directory

theorem not_gone_of_directory {ns name : String}
    (h : d.get? (place ++ [ns] ++ [name]) = some .directory) :
    ¬ Gone c d place (place ++ [ns] ++ [name]) := by
  rintro (⟨-, hloose⟩ | ⟨m, -, e, -, hcon⟩ | ⟨ns', -, heq⟩)
  · exact hloose h
  · obtain ⟨content, hfile, -⟩ := hcon.unchanged
    rw [h] at hfile
    cases hfile
  · exact Disk.grandchild_ne_child _ _ _ _ heq

theorem housekept_of_removes (h : Removes (Gone c d place) d d') : Housekept place d d' := by
  refine ⟨fun {ns e} he => ?_, fun {ns name} => ⟨fun hd => (h.get?_eq_some.mp hd).1, fun hd => ?_⟩⟩
  · obtain ⟨hold, hkept⟩ := h.get?_eq_some.mp he
    by_contra hne
    refine hkept (Or.inl ⟨⟨ns, rfl⟩, ?_⟩)
    rw [hold]
    simpa using hne
  · exact h.get?_eq_some.mpr ⟨hd, not_gone_of_directory hd⟩

theorem housekept_of_empty (h : ∀ l, Inside place l → d.get? l = none)
    (h' : ∀ l, Inside place l → d'.get? l = none) : Housekept place d d' := by
  have hchild := fun ns => Disk.inside_child place ns
  refine ⟨fun {ns e} he => ?_, fun {ns name} => ?_⟩
  · rw [h' _ (hchild ns)] at he
    cases he
  · have hin := Disk.inside_append (hchild ns) [name]
    rw [h _ hin, h' _ hin]

/-- Whether a stub gets written can be told from the tree before the root is prepared. -/
theorem fateIn_ok_iff (hj : (jobOf c s).Proper) (h : Housekept place d d') :
    (∃ x, (jobOf c s).fateIn d' place = .ok x) ↔ Writable c d place s := by
  have habove : checkPath (jobOf c s).spotPath = .ok () → checkPath (jobOf c s).housePath = .ok () :=
    Disk.checkPath_of_isPrefix (Path.text_isPrefix_join _ hj.isEntryName_fileName)
      (Path.text_join_ne_empty _ hj.isEntryName_ns)
  have hspot : d'.get? ((jobOf c s).spot place) ≠ some .directory ↔
      d.get? ((jobOf c s).spot place) ≠ some .directory := not_congr h.spots
  unfold Job.fateIn
  constructor
  · rintro ⟨x, hx⟩
    obtain ⟨hhouse, hopen, -⟩ := Job.fate_eq_ok_iff.mp hx
    obtain ⟨-, hns, -⟩ := Files.housing_eq_ok.mp hhouse
    obtain ⟨hpath, hfile, hfree⟩ := Files.opening_eq_ok.mp hopen
    exact ⟨hpath, hns, hfile, hspot.mp hfree⟩
  · intro hw
    refine ⟨_, Job.fate_eq_ok_iff.mpr ⟨?_, ?_, rfl⟩⟩
    · refine Files.housing_eq_ok.mpr ⟨habove hw.path, hw.ns, ?_⟩
      cases hg : d'.get? ((jobOf c s).house place) with
      | none => exact Or.inl rfl
      | some e => exact Or.inr (congrArg some (h.houses hg))
    · exact Files.opening_eq_ok.mpr ⟨hw.path, hw.fileName, hspot.mpr hw.free⟩

/-! ## What is written -/

theorem outcomeIn_error {earlier : List Selected} {f : Failed}
    (h : outcomeIn c d place (planned c earlier s) = .error f) :
    f.ns = s.ns ∧ f.className = s.type.name := by
  rcases planned_cases c earlier s with hp | ⟨g, hp, hns, hname⟩
  · rw [hp] at h
    have houtcome : (jobOf c s).outcome ((jobOf c s).fateIn d place) = .error f := h
    cases hf : (jobOf c s).fateIn d place with
    | ok x => rw [hf] at houtcome; cases houtcome
    | error e => rw [hf] at houtcome; cases houtcome; exact ⟨rfl, rfl⟩
  · rw [hp] at h
    cases h
    exact ⟨hns, hname⟩

/-- What is reported of the class is true of the tree. -/
structure Delivered (c : Config) (s : Selected) (x : Written) (w : Workplace) : Prop where
  ns : x.ns = s.ns
  className : x.className = s.type.name
  path : target c.outputRoot s.ns s.type.name c.fileExtension = .ok x.path
  content : w.disk.content x.path = .ok (classText c.includeInherited s.ns s.type).toUTF8
  digest : x.digest = Digest.Sha256.ofString (classText c.includeInherited s.ns s.type)
  hashed : (Files.digestOf x.path).Returns w x.digest w
  members : x.members = memberCounts c.includeInherited s.type

namespace Parts

variable (parts : Parts c now m w report w') (hc : c.Valid)
  (hready : Ready c parts.prepared.disk place)

include hc hready

/-- A stub that is reported as written is there at the end of the run. -/
theorem get?_spot_ended {x : Written} (hs : Except.ok s ∈ planFor c m)
    (hx : (jobOf c s).fateIn parts.prepared.disk place = .ok x) :
    w'.disk.get? ((jobOf c s).spot place) = some (.file (jobOf c s).text.toUTF8) := by
  rw [parts.ended_get? hc hready, if_neg fun h => Disk.grandchild_ne_child _ _ _ _ h.2]
  exact (parts.rendered_settled hc hready).spots hs hx

/-- The path that is reported for a stub finds the stub. -/
theorem find_spot {x : Written} (hs : Except.ok s ∈ planFor c m)
    (hx : (jobOf c s).fateIn parts.prepared.disk place = .ok x) :
    w'.disk.find x.path = .ok ((jobOf c s).spot place) := by
  have hj := (plannable_plan hc _).proper hs
  obtain ⟨hend, -⟩ := parts.ended_ready hc hready
  have hspot := parts.get?_spot_ended hc hready hs hx
  obtain ⟨-, hopen, rfl⟩ := Job.fate_eq_ok_iff.mp hx
  obtain ⟨hcheck, -, -⟩ := Files.opening_eq_ok.mp hopen
  refine (hend.anchored.leads.find_grandchild_iff hend.sound hj.isEntryName_ns
    hj.isEntryName_fileName (hend.unlinked _ (inside_house (jobOf c s) place))
    (hend.unlinked _ (inside_spot (jobOf c s) place))).mpr ⟨hcheck, rfl, ?_⟩
  exact Option.isSome_iff_exists.mpr ⟨_, hspot⟩

theorem delivered {x : Written} (hs : Except.ok s ∈ planFor c m)
    (hx : (jobOf c s).fateIn parts.prepared.disk place = .ok x) : Delivered c s x w' := by
  have hj := (plannable_plan hc _).proper hs
  have hcontent := Disk.content_eq_ok.mpr
    ⟨_, parts.find_spot hc hready hs hx, parts.get?_spot_ended hc hready hs hx⟩
  obtain ⟨-, -, rfl⟩ := Job.fate_eq_ok_iff.mp hx
  exact ⟨rfl, rfl, hj.path_eq, hcontent, rfl,
    Files.returns_digestOf.mpr ⟨_, hcontent, rfl, rfl⟩, rfl⟩

/-- Each class has its outcome in its own place. -/
theorem outcome_getElem? {i : Nat} (hs : (select c.namespaces m.types)[i]? = some s) :
    (renderAll c (planFor c m) parts.prepared.disk).1[i]? =
      some (outcomeIn c parts.prepared.disk place
        (planned c ((select c.namespaces m.types).take i) s)) := by
  rw [parts.outcomes_eq hc hready, List.getElem?_map, planFor_getElem? hc, hs]
  rfl

/-- What is reported of a class is said of that class and is true. -/
theorem accounts {i : Nat} (hs : (select c.namespaces m.types)[i]? = some s) :
    (∀ x, (renderAll c (planFor c m) parts.prepared.disk).1[i]? = some (.ok x) →
        Delivered c s x w') ∧
      ∀ f, (renderAll c (planFor c m) parts.prepared.disk).1[i]? = some (.error f) →
        f.ns = s.ns ∧ f.className = s.type.name := by
  have hplanned : (planFor c m)[i]? =
      some (planned c ((select c.namespaces m.types).take i) s) := by
    rw [planFor_getElem? hc, hs]
    rfl
  rw [parts.outcome_getElem? hc hready hs]
  constructor
  · intro x hx
    obtain ⟨t, ht, hfate⟩ := outcomeIn_eq_ok.mp (Option.some.inj hx)
    obtain ⟨rfl, -⟩ := planned_eq_ok_iff.mp ht
    exact parts.delivered hc hready (ht ▸ List.mem_of_getElem? hplanned) hfate
  · intro f hf
    exact outcomeIn_error (Option.some.inj hf)

end Parts

/-! ## The root before the run -/

/-- A path of names leads somewhere else than to where it starts. -/
theorem moves_ne_nil {p : Path} (hp : Ordinary p) (hne : p.text ≠ "")
    (hmissing : d.get? (d.spelled p) = none) : p.moves ≠ [] := by
  intro hmoves
  rw [Disk.spelled, hmoves, hp.startOf_of_no_moves hne hmoves] at hmissing
  simp at hmissing

/-- Where the root can be when a run begins: at the end of a straight path, there or missing. -/
structure Settable (c : Config) (d : Disk) : Prop where
  named : c.outputRoot.text ≠ ""
  ordinary : Ordinary c.outputRoot
  unlinked : ∀ l, l <+: d.spelled c.outputRoot → Unlinked d l
  present : d.isDirectory c.outputRoot = true ∨ d.get? (d.spelled c.outputRoot) = none
  linksLoose : LinksLoose d (d.spelled c.outputRoot)

theorem Settable.direct (h : Settable c d) : Direct d c.outputRoot := by
  refine ⟨fun hm => ?_, h.unlinked⟩
  exact (h.ordinary.isEntryName hm).notUp rfl

/-- Whether the root was there or not, it is ready once it is prepared. -/
theorem Parts.ready (parts : Parts c now m w report w') (hc : c.Valid) (hd : w.disk.Sound)
    (h : Settable c w.disk) :
    Ready c parts.prepared.disk (w.disk.spelled c.outputRoot) ∧
      Housekept (w.disk.spelled c.outputRoot) w.disk parts.prepared.disk := by
  by_cases hdir : w.disk.isDirectory c.outputRoot = true
  · obtain ⟨hremoves, hready⟩ := parts.ready_of_there hc hd
      (h.direct.anchored_of_isDirectory hdir) hdir h.linksLoose
    exact ⟨hready, housekept_of_removes hremoves⟩
  · have hmissing := h.present.resolve_left hdir
    have hmoves := moves_ne_nil h.ordinary h.named hmissing
    obtain ⟨hgrows, place, hnone, hempty, hready⟩ := parts.ready_of_missing hd h.ordinary hmoves
      (by simpa using hdir)
    -- the new directory is where the path says, for no link was on the way
    have hdirect : Direct parts.prepared.disk c.outputRoot := by
      refine ⟨h.direct.noUp, fun l hl target ht => ?_⟩
      have hspelled : parts.prepared.disk.spelled c.outputRoot = w.disk.spelled c.outputRoot := by
        rw [Disk.spelled, Disk.spelled, hgrows.home]
      rcases hgrows.new ht with hold | hnew
      · exact h.unlinked l (hspelled ▸ hl) target hold
      · cases hnew
    have hplace : place = w.disk.spelled c.outputRoot := by
      rw [(hdirect.anchored hready.anchored.leads).1, Disk.spelled, Disk.spelled, hgrows.home]
    subst hplace
    refine ⟨hready, housekept_of_empty (fun l hl => ?_) hempty⟩
    exact hd.nothing_below (by rw [hnone]; simp) hl

/-! ## End to end -/

theorem length_outcomes_eq (outcomes : List Outcome) :
    outcomes.length = (writtenOf outcomes).length + (failedOf outcomes).length :=
  (length_writtenOf_add_length_failedOf outcomes).symm

/-- Which classes are written can be told from the tree before the root is prepared. -/
theorem outcomeIn_ok_iff (hc : c.Valid) {earlier : List Selected} (hns : s.ns ∈ c.namespaces)
    (h : Housekept place d d') :
    (∃ x, outcomeIn c d' place (planned c earlier s) = .ok x) ↔
      Path.isFileName s.type.name = true ∧
        (∀ t ∈ earlier, ¬ (t.ns = s.ns ∧ t.type.name = s.type.name)) ∧ Writable c d place s := by
  have hname := hc.2.1 _ hns
  have hproper : Path.isFileName s.type.name = true → (jobOf c s).Proper := fun hfile =>
    proper_of_targetOf hc (targetOf_eq_ok_iff.mpr ⟨hname, hfile, rfl⟩)
  rw [← any_sameStub_eq_false]
  constructor
  · rintro ⟨x, hx⟩
    obtain ⟨t, ht, hfate⟩ := outcomeIn_eq_ok.mp hx
    obtain ⟨rfl, -, hfile, hfresh⟩ := planned_eq_ok_iff.mp ht
    exact ⟨hfile, hfresh, (fateIn_ok_iff (hproper hfile) h).mp ⟨x, hfate⟩⟩
  · rintro ⟨hfile, hfresh, hwritable⟩
    obtain ⟨x, hx⟩ := (fateIn_ok_iff (hproper hfile) h).mpr hwritable
    exact ⟨x, outcomeIn_eq_ok.mpr ⟨s, planned_eq_ok_iff.mpr ⟨rfl, hname, hfile, hfresh⟩, hx⟩⟩

/-- A run accounts for every selected class in the place of the class: it was written, and then
its stub is in the tree at the end, or it has failed. It is written exactly if its name is a file
name that no earlier class of the namespace has, the system accepts the path of its stub, and no
directory is in the way there. -/
theorem generate_delivers {doc : Document} (hc : c.Valid) (hd : w.disk.Sound)
    (hroot : Settable c w.disk) (h : (generate c now doc).Returns w report w') :
    ∃ (m : Module) (outcomes : List Outcome),
      doc.require c.module = .ok m ∧
      outcomes.length = (select c.namespaces m.types).length ∧
      report.written = writtenOf outcomes ∧ report.failures = failedOf outcomes ∧
      report.counters.selected = outcomes.length ∧
      report.counters.selected = report.writtenFiles + report.failedClasses ∧
      report.writtenFiles = report.written.length ∧
      report.failedClasses = report.failures.length ∧
      ∀ (i : Nat) (s : Selected), (select c.namespaces m.types)[i]? = some s →
        (∀ x, outcomes[i]? = some (.ok x) → Delivered c s x w') ∧
        (∀ f, outcomes[i]? = some (.error f) → f.ns = s.ns ∧ f.className = s.type.name) ∧
        ((∃ x, outcomes[i]? = some (.ok x)) ↔
          Path.isFileName s.type.name = true ∧
            (∀ t ∈ (select c.namespaces m.types).take i,
              ¬ (t.ns = s.ns ∧ t.type.name = s.type.name)) ∧
            Writable c w.disk (w.disk.spelled c.outputRoot) s) := by
  obtain ⟨m, hm, ⟨parts⟩⟩ := generate_returns h
  obtain ⟨hready, hkept⟩ := parts.ready hc hd hroot
  have hlength : (renderAll c (planFor c m) parts.prepared.disk).1.length =
      (select c.namespaces m.types).length := by
    rw [length_renderAll, planFor, plan, length_planFrom]
  have hselected : report.counters.selected =
      (renderAll c (planFor c m) parts.prepared.disk).1.length := by
    rw [parts.counters_eq, selected_count, hlength]
  refine ⟨m, _, hm, hlength, parts.written_eq, parts.failures_eq, hselected, ?_,
    parts.writtenFiles_eq, parts.failedClasses_eq, fun i s hs => ?_⟩
  · rw [hselected, length_outcomes_eq, parts.writtenFiles_eq, parts.failedClasses_eq,
      parts.written_eq, parts.failures_eq]
  · obtain ⟨hwritten, hfailed⟩ := parts.accounts hc hready hs
    refine ⟨hwritten, hfailed, ?_⟩
    have hns := (mem_types_of_mem_select (List.mem_of_getElem? hs)).2
    rw [parts.outcome_getElem? hc hready hs]
    simp only [Option.some.injEq]
    exact outcomeIn_ok_iff hc hns hkept

/-- Of two classes one is written, and a directory is in the way of the other. -/
theorem generate_delivers_of_two :
    let c : Config := { Config.standard with module := "M", namespaces := ["N"], outputRoot := ⟨"G"⟩ }
    let d : Disk := ⟨[(["G"], .directory), (["G", "N"], .directory),
      (["G", "N", "B.stub"], .directory)], []⟩
    let doc : Document := ⟨[⟨"M", [.emptyClass "N" "A", .emptyClass "N" "B"]⟩]⟩
    ∃ report w outcomes, (generate c ⟨⟨2024, 1, 1⟩, 0, 0⟩ doc).Returns ⟨d, []⟩ report w ∧
      report.written = writtenOf outcomes ∧ report.failures = failedOf outcomes ∧
      (∃ x, outcomes[0]? = some (.ok x) ∧ Delivered c ⟨.emptyClass "N" "A", "N"⟩ x w) ∧
      ∃ f, outcomes[1]? = some (.error f) ∧ f.className = "B" := by
  intro c d doc
  obtain ⟨report, h⟩ : ∃ report, (generate c ⟨⟨2024, 1, 1⟩, 0, 0⟩ doc).Returns ⟨d, []⟩ report _ :=
    returns_of_isOk (by decide +kernel)
  have hunlinked := Disk.unlinked_of_noLinks (by decide : d.noLinks = true)
  have hroot : Settable c d := by
    refine ⟨by decide, by decide, fun l _ => hunlinked l, Or.inl (by decide +kernel), ?_⟩
    exact fun l target _ hlink => absurd hlink (hunlinked l target)
  obtain ⟨m, outcomes, hm, hlength, hwritten, hfailures, -, -, -, -, hclasses⟩ :=
    generate_delivers ⟨by decide, by decide, by decide⟩ (by decide : d.Sound) hroot h
  have hm : m = ⟨"M", [.emptyClass "N" "A", .emptyClass "N" "B"]⟩ := (Except.ok.inj hm).symm
  subst hm
  obtain ⟨hfirst, -, hfirst'⟩ := hclasses 0 ⟨.emptyClass "N" "A", "N"⟩ rfl
  obtain ⟨-, hsecond, hsecond'⟩ := hclasses 1 ⟨.emptyClass "N" "B", "N"⟩ rfl
  refine ⟨report, _, outcomes, h, hwritten, hfailures, ?_, ?_⟩
  · obtain ⟨x, hx⟩ := hfirst'.mpr ⟨by decide, by simp,
      ⟨by decide, by decide, by decide, by decide⟩⟩
    exact ⟨x, hx, hfirst x hx⟩
  · cases hout : outcomes[1]? with
    | none =>
      rw [List.getElem?_eq_none_iff, hlength] at hout
      exact absurd hout (by decide)
    | some outcome =>
      cases outcome with
      | error f => exact ⟨f, rfl, (hsecond f hout).2⟩
      | ok x =>
        obtain ⟨-, -, hwritable⟩ := hsecond'.mp ⟨x, hout⟩
        exact absurd (by decide) hwritable.free

end Run

end StubListing
