import StubListing.Proofs.CommandLine.Inputs
import StubListing.Proofs.Run.Reporting
/-!
# Listing before generating

The two commands read the same settings and the same catalog, each by itself. Listing stops there:
it names the classes that are selected and touches nothing. Generating goes on with the very classes
that would be listed, and whatever keeps the listing from being made ends the run before it has
changed anything.
-/
namespace StubListing

namespace Run
open StubListing.Action StubListing.Catalog

variable {c : Config} {now : Instant} {w w' : Workplace} {report : Report}
  {selected : List Selected} {f : Failure}

theorem readsOnly_preview (c : Config) : (preview c).ReadsOnly := by
  apply (readsOnly_load c.catalogPath).bind
  intro document
  cases document.require c.module with
  | error f => exact readsOnly_fail f
  | ok m => exact readsOnly_pure _

theorem returns_preview :
    (preview c).Returns w selected w' ↔
      ∃ document m, (load c.catalogPath).Returns w document w' ∧
        document.require c.module = .ok m ∧ selected = select c.namespaces m.types := by
  unfold preview
  rw [returns_bind]
  constructor
  · rintro ⟨document, w₁, hload, hrest⟩
    cases hm : document.require c.module with
    | error f =>
      rw [hm] at hrest
      exact absurd hrest returns_fail
    | ok m =>
      rw [hm] at hrest
      obtain ⟨rfl, rfl⟩ := returns_pure.mp hrest
      exact ⟨document, m, hload, hm, rfl⟩
  · rintro ⟨document, m, hload, hm, rfl⟩
    refine ⟨document, w', hload, ?_⟩
    rw [hm]
    exact returns_pure.mpr ⟨rfl, rfl⟩

/-- What keeps the classes from being told ends a run there too, before it has begun. -/
theorem fromDisk_fails (now : Instant) (h : (preview c).Fails w f w') :
    ∃ g, (fromDisk c now).Fails w g w' := by
  unfold preview at h
  rcases fails_bind.mp h with hload | ⟨document, w₁, hload, hrest⟩
  · exact ⟨_, fails_bind.mpr (Or.inl (fails_during.mpr ⟨f, hload, rfl⟩))⟩
  · refine ⟨f, fails_bind.mpr (Or.inr ⟨document, w₁, returns_during.mpr hload, ?_⟩)⟩
    unfold generate
    cases hm : document.require c.module with
    | error g =>
      rw [hm] at hrest
      exact fails_fail.mpr (fails_fail.mp hrest)
    | ok m =>
      rw [hm] at hrest
      exact absurd hrest fails_pure

theorem fromDisk_returns (h : (fromDisk c now).Returns w report w') :
    ∃ document m w₁, (load c.catalogPath).Returns w document w₁ ∧
      document.require c.module = .ok m ∧ Nonempty (Parts c now m w₁ report w') := by
  obtain ⟨document, w₁, hload, hgenerate⟩ := returns_bind.mp h
  obtain ⟨m, hm, hparts⟩ := generate_returns hgenerate
  exact ⟨document, m, w₁, returns_during.mp hload, hm, hparts⟩

end Run

namespace CommandLine
open StubListing.Action StubListing.Catalog StubListing.Run StubListing.Stub

variable {o : Options} {w w' : Workplace} {c : Config} {m : Module} {report : Report}
  {now : Instant} {command : Command} {f : Failure}

/-- The generating command, begun at the workplace, comes to a report. -/
def Reports (o : Options) (now : Instant) (w : Workplace) (report : Report) : Prop :=
  ∃ c w₁ w₂, (settings o).Returns w c w₁ ∧ (fromDisk c now).Returns w₁ report w₂

/-- The settings of the command, and the module of the catalog that they name. -/
def Concerns (o : Options) (w : Workplace) (c : Config) (m : Module) : Prop :=
  ∃ document w₁ w₂, (settings o).Returns w c w₁ ∧
    (Catalog.load c.catalogPath).Returns w₁ document w₂ ∧ document.require c.module = .ok m

/-- The output has a line for each class of the module that is selected, in the order of the catalog,
and the report goes through the same classes: each is the next one written or the next one that
failed. -/
def Previews (c : Config) (m : Module) (output : String) (report : Report) : Prop :=
  ∃ outcomes : List Outcome,
    outcomes.map subject = (select c.namespaces m.types).map (fun s => (s.ns, s.type.name)) ∧
      report.written = writtenOf outcomes ∧ report.failures = failedOf outcomes ∧
      output = Text.joined "" (outcomes.map fun x =>
        (subject x).1 ++ "." ++ (subject x).2 ++ "\n")

/-! ## Endings of a command -/

theorem exitCode_carryOut :
    (carryOut now command o w).1.exitCode = 0 ↔
      ∃ output w', (action now o command).Returns w (true, output) w' := by
  unfold carryOut Returns ending
  rcases (action now o command).run.run w with ⟨f | ⟨success, output⟩, w'⟩
  · simp
  · cases success <;> simp

theorem output_carryOut {output : String} (h : (action now o command).Returns w (true, output) w') :
    (carryOut now command o w).1 = ⟨0, output⟩ := by
  have hrun : (action now o command).run.run w = (.ok (true, output), w') := h
  unfold carryOut
  rw [hrun]
  rfl

theorem readsOnly_list (o : Options) : (list o).ReadsOnly :=
  (readsOnly_settings o).bind fun c => (readsOnly_preview c).bind fun _ =>
    (readsOnly_note _ _).bind fun _ => readsOnly_pure _

theorem returns_list {success : Bool} {output : String} :
    (list o).Returns w (success, output) w' → success = true := by
  intro h
  obtain ⟨c, w₁, -, hrest⟩ := returns_bind.mp h
  obtain ⟨selected, w₂, -, hrest⟩ := returns_bind.mp hrest
  obtain ⟨_, w₃, -, hpure⟩ := returns_bind.mp hrest
  exact (Prod.mk.inj (returns_pure.mp hpure).1).1

theorem list_returns (h : Concerns o w c m) :
    ∃ w', (list o).Returns w
      (true, Text.joined "" ((select c.namespaces m.types).map listLine)) w' := by
  obtain ⟨document, w₁, w₂, hsettings, hload, hm⟩ := h
  have hpreview := returns_preview.mpr ⟨document, m, hload, hm, rfl⟩
  obtain ⟨_, w₃, hnote⟩ := completes_note .info
    (toString (select c.namespaces m.types).length ++ " classes selected") w₂
  refine ⟨w₃, returns_bind.mpr ⟨c, w₁, hsettings, returns_bind.mpr ⟨_, w₂, hpreview, ?_⟩⟩⟩
  exact returns_bind.mpr ⟨_, w₃, hnote, returns_pure.mpr ⟨rfl, rfl⟩⟩

theorem list_fails (h : (list o).Fails w f w') :
    (settings o).Fails w f w' ∨
      ∃ c w₁, (settings o).Returns w c w₁ ∧ (preview c).Fails w₁ f w' := by
  rcases fails_bind.mp h with hsettings | ⟨c, w₁, hsettings, hrest⟩
  · exact Or.inl hsettings
  · rcases fails_bind.mp hrest with hpreview | ⟨selected, w₂, -, hrest⟩
    · exact Or.inr ⟨c, w₁, hsettings, hpreview⟩
    · rcases fails_bind.mp hrest with hnote | ⟨_, w₃, -, hpure⟩
      · exact absurd hnote not_fails_note
      · exact absurd hpure fails_pure

/-- Listing comes to its end unless it fails. -/
theorem list_exitCode :
    (carryOut now .list o w).1.exitCode = 0 ↔ ¬ ∃ f w', (list o).Fails w f w' := by
  rw [exitCode_carryOut]
  constructor
  · rintro ⟨output, w₁, hreturns⟩ ⟨f, w', hfails⟩
    exact hreturns.not_fails hfails
  · intro hfails
    rcases returns_or_fails (list o) w with ⟨⟨success, output⟩, w₁, hreturns⟩ | hfail
    · obtain rfl := returns_list hreturns
      exact ⟨output, w₁, hreturns⟩
    · exact absurd hfail hfails

/-- The generating command returns when there is a report, and tells whether every class has a
stub. -/
theorem generate_returns_iff {success : Bool} {output : String} :
    (∃ w', (generate o now).Returns w (success, output) w') ↔
      output = "" ∧ ∃ report, Reports o now w report ∧ report.isSuccess = success := by
  constructor
  · rintro ⟨w', h⟩
    obtain ⟨c, w₁, hsettings, hrest⟩ := returns_bind.mp h
    obtain ⟨report, w₂, hrun, hrest⟩ := returns_bind.mp hrest
    obtain ⟨_, w₃, -, hpure⟩ := returns_bind.mp hrest
    obtain ⟨hsuccess, houtput⟩ := Prod.mk.inj (returns_pure.mp hpure).1
    exact ⟨houtput, report, ⟨c, w₁, w₂, hsettings, hrun⟩, hsuccess.symm⟩
  · rintro ⟨rfl, report, ⟨c, w₁, w₂, hsettings, hrun⟩, rfl⟩
    obtain ⟨_, w₃, htold⟩ := completes_noteAll .error
      (report.failures.map fun f => f.ns ++ "." ++ f.className ++ ": " ++ f.error) w₂
    refine ⟨w₃, returns_bind.mpr ⟨c, w₁, hsettings, returns_bind.mpr ⟨report, w₂, hrun, ?_⟩⟩⟩
    exact returns_bind.mpr ⟨_, w₃, htold, returns_pure.mpr ⟨rfl, rfl⟩⟩

theorem generate_exitCode :
    (carryOut now .generate o w).1.exitCode = 0 ↔
      ∃ report, Reports o now w report ∧ report.failures = [] := by
  rw [exitCode_carryOut]
  constructor
  · rintro ⟨output, h⟩
    obtain ⟨-, report, hreport, hsuccess⟩ := generate_returns_iff.mp h
    exact ⟨report, hreport, List.isEmpty_iff.mp hsuccess⟩
  · rintro ⟨report, hreport, hnone⟩
    exact ⟨"", generate_returns_iff.mpr ⟨rfl, report, hreport, List.isEmpty_iff.mpr hnone⟩⟩

/-! ## The listing and the report -/

/-- A run that comes to a report is about the classes that would be listed. -/
theorem Reports.previews (h : Reports o now w report) :
    ∃ c m, Concerns o w c m ∧
      Previews c m (Text.joined "" ((select c.namespaces m.types).map listLine)) report := by
  obtain ⟨c, w₁, w₂, hsettings, hrun⟩ := h
  obtain ⟨document, m, w₃, hload, hm, ⟨parts⟩⟩ := fromDisk_returns hrun
  refine ⟨c, m, ⟨document, w₁, w₃, hsettings, hload, hm⟩, ?_⟩
  obtain ⟨outcomes, hsubjects, hwritten, hfailures⟩ := parts.subjects
  have hlines : (select c.namespaces m.types).map listLine =
      outcomes.map fun x => (subject x).1 ++ "." ++ (subject x).2 ++ "\n" := by
    calc (select c.namespaces m.types).map listLine
        = ((select c.namespaces m.types).map fun s => (s.ns, s.type.name)).map
            fun k => k.1 ++ "." ++ k.2 ++ "\n" := by rw [List.map_map]; rfl
      _ = (outcomes.map subject).map fun k => k.1 ++ "." ++ k.2 ++ "\n" := by rw [hsubjects]
      _ = _ := by rw [List.map_map]; rfl
  exact ⟨outcomes, hsubjects, hwritten, hfailures, by rw [hlines]⟩

/-- What ends the listing ends the run at the same point, with nothing changed. -/
theorem generate_fails (now : Instant) (h : (list o).Fails w f w') :
    (∃ g, (generate o now).Fails w g w') ∧ w'.disk = w.disk := by
  refine ⟨?_, (readsOnly_list o w).of_fails h⟩
  rcases list_fails h with hsettings | ⟨c, w₁, hsettings, hpreview⟩
  · exact ⟨f, fails_bind.mpr (Or.inl hsettings)⟩
  · obtain ⟨g, hrun⟩ := fromDisk_fails now hpreview
    exact ⟨g, fails_bind.mpr (Or.inr ⟨c, w₁, hsettings, fails_bind.mpr (Or.inl hrun)⟩)⟩

theorem not_reports_of_fails (h : (generate o now).Fails w f w') (report : Report) :
    ¬ Reports o now w report := by
  intro hreport
  obtain ⟨w₁, hreturns⟩ := generate_returns_iff.mpr ⟨rfl, report, hreport, rfl⟩
  exact hreturns.not_fails h

/-- Listing previews generating, for all options that a command line can give and on every tree. It
changes no file. If generating comes to a report, the listing succeeds and names, in order, the
classes that the report goes through. If the listing fails, generating fails too and changes no file.
Generating succeeds exactly if there is a report without failures, and listing exactly if it does not
fail. -/
theorem list_previews_generate {rest : List String} (hrest : Options.read .none .none rest = some o)
    (w : Workplace) (now later : Instant) :
    let listed := execute now ("list" :: rest) w
    let generated := execute later ("generate" :: rest) w
    listed.2.disk = w.disk ∧
      (∀ report, Reports o later w report →
        listed.1.exitCode = 0 ∧
          ∃ c m, Concerns o w c m ∧ Previews c m listed.1.output report) ∧
      (∀ f w', (list o).Fails w f w' →
        (∃ g w', (generate o later).Fails w g w') ∧ (∀ report, ¬ Reports o later w report) ∧
          generated.1.exitCode ≠ 0 ∧ generated.2.disk = w.disk) ∧
      (generated.1.exitCode = 0 ↔ ∃ report, Reports o later w report ∧ report.failures = []) ∧
      (listed.1.exitCode = 0 ↔ ¬ ∃ f w', (list o).Fails w f w') := by
  intro listed generated
  have hlist : listed = carryOut now .list o w := by
    show execute now ("list" :: rest) w = _
    rw [execute, Request.ofArguments?, if_neg (by decide), if_pos rfl, hrest]
    rfl
  have hgenerate : generated = carryOut later .generate o w := by
    show execute later ("generate" :: rest) w = _
    rw [execute, Request.ofArguments?, if_pos rfl, hrest]
    rfl
  rw [hlist, hgenerate, disk_of_carryOut, disk_of_carryOut]
  refine ⟨readsOnly_list o w, fun report hreport => ?_, fun f w' hfails => ?_, generate_exitCode,
    list_exitCode⟩
  · obtain ⟨c, m, hconcerns, hpreviews⟩ := hreport.previews
    obtain ⟨w', hreturns⟩ := list_returns hconcerns
    have hreturns : (action now o .list).Returns w (true, _) w' := hreturns
    rw [output_carryOut hreturns]
    exact ⟨rfl, c, m, hconcerns, hpreviews⟩
  · obtain ⟨⟨g, hg⟩, hsame⟩ := generate_fails later hfails
    have hnone := not_reports_of_fails hg
    refine ⟨⟨g, w', hg⟩, hnone, fun hzero => ?_, ?_⟩
    · obtain ⟨report, hreport, -⟩ := generate_exitCode.mp hzero
      exact hnone report hreport
    · have hend : (generate o later).ending w = (.error g, w') := hg
      show ((generate o later).ending w).2.disk = _
      rw [hend]
      exact hsame

/-- The one class of a project is listed, and a report goes through it. -/
theorem list_previews_generate_of_project :
    let w : Workplace := ⟨projectDisk "out", []⟩
    let now : Instant := ⟨⟨2024, 1, 1⟩, 0, 0⟩
    (execute now ["list"] w).2.disk = w.disk ∧ (execute now ["list"] w).1 = ⟨0, "N.A\n"⟩ ∧
      ∃ report, Reports .none now w report ∧ report.failures = [] ∧
        ∃ c m, Concerns .none w c m ∧ Previews c m "N.A\n" report := by
  intro w now
  have hlisted : (execute now ["list"] w).1 = ⟨0, "N.A\n"⟩ := by decide +kernel
  have hgenerated : (execute now ["generate"] w).1.exitCode = 0 := by decide +kernel
  obtain ⟨hdisk, hpreviews, -, hexit, -⟩ :=
    list_previews_generate (o := .none) (rfl : Options.read .none .none [] = some .none) w now now
  obtain ⟨report, hreport, hnone⟩ := hexit.mp hgenerated
  obtain ⟨-, c, m, hconcerns, hlines⟩ := hpreviews report hreport
  rw [hlisted] at hlines
  exact ⟨hdisk, hlisted, report, hreport, hnone, c, m, hconcerns, hlines⟩

end CommandLine

end StubListing
