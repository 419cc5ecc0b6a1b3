import StubListing.Proofs.Config.Settling
import StubListing.Proofs.Disk.Refusing
import StubListing.Proofs.Path.Below
import StubListing.Proofs.Run.Running
/-!
# What the extension makes of the names of stubs

The check of the settings keeps slashes and dots out of the extension, so a stub is where its namespace
and its class say. What it does not keep out is the null character, which namespaces and class names
cannot have: an extension with it spoils the name of every stub, and that comes to light only when the
stubs are written, after the root has been prepared. Any other extension that passes the check makes file
names of class names, and is not why a class fails.
-/
namespace StubListing

namespace Path

/-- A class name with an extension behind it can name a file, unless the extension has a null
character. -/
theorem isFileName_append_iff {name extension : String} (hname : isFileName name = true)
    (hext : Config.isExtension extension = true) :
    isFileName (name ++ "." ++ extension) = true ↔ '\x00' ∉ extension.toList := by
  obtain ⟨-, -, -, hchars⟩ := isFileName_iff.mp hname
  obtain ⟨-, hext⟩ := Config.isExtension_iff.mp hext
  have hentry := isEntryName_append (isEntryName_of_isFileName hname)
    fun hslash => (hext _ hslash).1 rfl
  have hmem : ∀ x, x ∈ (name ++ "." ++ extension).toList ↔
      x ∈ name.toList ∨ x = '.' ∨ x ∈ extension.toList := by
    intro x
    simp [String.toList_append]
  rw [isFileName_iff]
  constructor
  · rintro ⟨-, -, -, hall⟩ hnull
    exact (hall _ ((hmem _).mpr (Or.inr (Or.inr hnull)))).2.2 rfl
  · intro hnull
    refine ⟨hentry.ne_empty, hentry.ne_dot, hentry.notUp, fun x hx => ?_⟩
    rcases (hmem x).mp hx with hx | rfl | hx
    · exact hchars x hx
    · decide
    · exact ⟨(hext x hx).1, (hext x hx).2.1, fun he => hnull (he ▸ hx)⟩

end Path

namespace Stub

variable {j : Job} {path : Path} {d : Disk} {f : Failure}

theorem Job.path_eq_ok_iff :
    j.path = .ok path ↔
      Path.isFileName j.ns = true ∧ Path.isFileName j.type.name = true ∧ path = j.spotPath :=
  target_eq_ok_iff

/-- Without a null character in the root and the extension there is none in the path of a stub. -/
theorem Job.noNull_spotPath (hroot : '\x00' ∉ j.root.text.toList)
    (hext : '\x00' ∉ j.extension.toList) (hslash : '/' ∉ j.extension.toList)
    (h : j.path = .ok path) :
    '\x00' ∉ j.housePath.text.toList ∧ '\x00' ∉ j.spotPath.text.toList := by
  obtain ⟨hns, hname, -⟩ := Job.path_eq_ok_iff.mp h
  have hj : j.Proper := ⟨hns, hname, hslash⟩
  have hfree : ∀ {name : String}, Path.isFileName name = true → '\x00' ∉ name.toList :=
    fun hname hnull => ((Path.isFileName_iff.mp hname).2.2.2 _ hnull).2.2 rfl
  have hhouse : '\x00' ∉ j.housePath.text.toList := by
    intro hnull
    rcases Path.mem_text_join _ hj.isEntryName_ns hnull with h | h | h
    · exact hroot h
    · exact absurd h (by decide)
    · exact hfree hns h
  refine ⟨hhouse, fun hnull => ?_⟩
  rcases Path.mem_text_join _ hj.isEntryName_fileName hnull with h | h | h
  · exact hhouse h
  · exact absurd h (by decide)
  · unfold Job.fileName at h
    simp only [String.toList_append, List.mem_append] at h
    rcases h with (h | h) | h
    · exact hfree hname h
    · exact absurd h (by decide)
    · exact hext h

/-- A stub whose extension has a null character is not written. -/
theorem Job.run_of_null (h : '\x00' ∈ j.extension.toList) (d : Disk) :
    ∃ f, (j.run d).1 = .error f := by
  unfold Job.run
  cases hpath : j.path with
  | error f => exact ⟨f, rfl⟩
  | ok path =>
    obtain ⟨-, -, rfl⟩ := Job.path_eq_ok_iff.mp hpath
    have hnull : '\x00' ∈ j.spotPath.text.toList := by
      apply Path.mem_text_join_of_mem
      simp [Job.fileName, String.toList_append, h]
    dsimp only
    rcases Files.provide d (j.root.join j.ns) with ⟨f | _, d₁⟩
    · exact ⟨f, rfl⟩
    · obtain ⟨f, hf⟩ := Files.openFile_of_null (d := d₁) hnull
      rcases hopen : Files.openFile d₁ j.spotPath with ⟨g | place, d₂⟩
      · exact ⟨g, by simp only [hopen]⟩
      · rw [hopen] at hf
        cases hf

/-- Whatever a stub fails for, it is not a null character when neither the root nor the extension has
one. -/
theorem Job.cause_run (hroot : '\x00' ∉ j.root.text.toList) (hext : '\x00' ∉ j.extension.toList)
    (hslash : '/' ∉ j.extension.toList) (h : (j.run d).1 = .error f) :
    f.cause ≠ .system .nullInPath := by
  unfold Job.run at h
  cases hpath : j.path with
  | error g =>
    rw [hpath] at h
    cases h
    obtain ⟨text, rfl⟩ := target_eq_error hpath
    nofun
  | ok path =>
    obtain ⟨hhouse, hspot⟩ := Job.noNull_spotPath hroot hext hslash hpath
    obtain ⟨-, -, rfl⟩ := Job.path_eq_ok_iff.mp hpath
    rw [hpath] at h
    dsimp only at h
    rcases hprovide : Files.provide d (j.root.join j.ns) with ⟨g | _, d₁⟩
    · rw [hprovide] at h
      cases h
      exact Files.cause_provide hhouse (congrArg Prod.fst hprovide)
    · rw [hprovide] at h
      dsimp only at h
      rcases hopen : Files.openFile d₁ j.spotPath with ⟨g | place, d₂⟩
      · rw [hopen] at h
        cases h
        exact Files.cause_openFile hspot (congrArg Prod.fst hopen)
      · rw [hopen] at h
        cases h

end Stub

namespace Run
open StubListing.Action StubListing.Catalog StubListing.Stub

variable {c : Config} {now : Instant} {doc : Document} {w w' : Workplace} {report : Report}

/-- Where the extension has a null character, no planned class is written. -/
theorem writtenOf_renderAll_of_null (h : '\x00' ∈ c.fileExtension.toList) (planned : List Planned)
    (d : Disk) : writtenOf (renderAll c planned d).1 = [] := by
  induction planned generalizing d with
  | nil => rfl
  | cons p rest ih =>
    cases p with
    | error f => exact ih d
    | ok s =>
      obtain ⟨f, hf⟩ := Job.run_of_null (j := jobOf c s) h d
      rw [renderAll]
      rcases hrun : (jobOf c s).run d with ⟨result, d₁⟩
      rw [hrun] at hf
      subst hf
      exact ih d₁

theorem written_of_null (hnull : '\x00' ∈ c.fileExtension.toList)
    (h : (generate c now doc).Returns w report w') :
    report.written = [] ∧ report.failures.length = report.counters.selected := by
  obtain ⟨m, -, ⟨parts⟩⟩ := generate_returns h
  have hnone := writtenOf_renderAll_of_null hnull (planFor c m) parts.prepared.disk
  have hlength := length_writtenOf_add_length_failedOf
    (renderAll c (planFor c m) parts.prepared.disk).1
  rw [hnone, List.length_nil, Nat.zero_add, ← parts.failures_eq, length_renderAll, planFor, plan,
    length_planFrom] at hlength
  refine ⟨parts.written_eq.trans hnone, ?_⟩
  rw [hlength, parts.counters_eq, selected_count]

/-- Under settings that pass the check, every namespace of theirs and every class name that can name a
file give a stub its path, and the path ends in the class name with the extension behind it. This is a
name for a file exactly if the extension has no null character. If it has one, no run writes a stub, and
all classes that are selected fail; otherwise no class fails for such a character in any tree, unless the
root is spelt with one. -/
theorem named_unless_null (hc : c.Valid) :
    (∀ ns ∈ c.namespaces, ∀ name, Path.isFileName name = true →
      ∃ path, target c.outputRoot ns name c.fileExtension = .ok path ∧
        path.fileName? = some (name ++ "." ++ c.fileExtension) ∧
        (Path.isFileName (name ++ "." ++ c.fileExtension) = true ↔
          '\x00' ∉ c.fileExtension.toList)) ∧
      ('\x00' ∈ c.fileExtension.toList → ∀ now doc w report w',
        (generate c now doc).Returns w report w' →
          report.written = [] ∧ report.failures.length = report.counters.selected) ∧
      ('\x00' ∉ c.fileExtension.toList → '\x00' ∉ c.outputRoot.text.toList → ∀ s d f,
        ((jobOf c s).run d).1 = .error f → f.cause ≠ .system .nullInPath) := by
  have hslash := not_mem_extension hc (Or.inl rfl)
  refine ⟨fun ns hns name hname => ?_, fun hnull now doc w report w' h => written_of_null hnull h,
    fun hext hroot s d f h => Job.cause_run hroot hext hslash h⟩
  have hentry := Path.isEntryName_append (Path.isEntryName_of_isFileName hname) hslash
  exact ⟨_, target_eq_ok (hc.2.1 ns hns) hname, Path.fileName?_join _ hentry,
    Path.isFileName_append_iff hname (isExtension_of_valid hc)⟩

/-- Settings whose extension passes the check although it has a null character. -/
def spoiltConfig : Config :=
  { Config.standard with
    module := "M", namespaces := ["N"], outputRoot := ⟨"out"⟩, fileExtension := "st\x00b" }

/-- One class for the namespace of these settings, and a root with a file in it. -/
def spoiltRun : Action Report :=
  generate spoiltConfig ⟨⟨2024, 1, 1⟩, 0, 0⟩ ⟨[⟨"M", [.emptyClass "N" "A"]⟩]⟩

def spoiltPlace : Workplace :=
  ⟨⟨[(["out"], .directory), (["out", "old.txt"], .file .empty)], []⟩, []⟩

/-- An extension with a blank and a backtick makes a name for a file, one with a null character does not
and costs the run its only class. -/
theorem named_unless_null_of_two :
    let blank : Config := { Config.standard with fileExtension := "st`1 b" }
    blank.Valid ∧ spoiltConfig.Valid ∧
      (∃ path, target blank.outputRoot "Game" "..A" blank.fileExtension = .ok path ∧
        path.fileName? = some "..A.st`1 b" ∧ Path.isFileName "..A.st`1 b" = true) ∧
      (∃ path, target spoiltConfig.outputRoot "N" "A" spoiltConfig.fileExtension = .ok path ∧
        path.fileName? = some "A.st\x00b" ∧ Path.isFileName "A.st\x00b" = false) ∧
      ∃ report w', spoiltRun.Returns spoiltPlace report w' ∧ report.written = [] ∧
        report.failures.length = report.counters.selected := by
  intro blank
  have hblank : blank.Valid := ⟨by decide, by decide, by decide⟩
  have hspoilt : spoiltConfig.Valid := ⟨by decide, by decide, by decide⟩
  obtain ⟨hnamed, -, -⟩ := named_unless_null hblank
  obtain ⟨hnamed', hnone, -⟩ := named_unless_null hspoilt
  obtain ⟨path, htarget, hname, hlegal⟩ := hnamed "Game" (by decide) "..A" (by decide)
  obtain ⟨path', htarget', hname', hlegal'⟩ := hnamed' "N" (by decide) "A" (by decide)
  obtain ⟨report, hrun⟩ := returns_of_isOk
    (by decide +kernel : (spoiltRun.ending spoiltPlace).1.isOk = true)
  have hnull : '\x00' ∈ spoiltConfig.fileExtension.toList := by decide
  refine ⟨hblank, hspoilt, ⟨path, htarget, hname, hlegal.mpr (by decide)⟩,
    ⟨path', htarget', hname', ?_⟩, report, _, hrun, hnone hnull _ _ _ _ _ hrun⟩
  exact Bool.eq_false_iff.mpr fun h => hlegal'.mp h hnull

/-- These settings pass the check as they are, and yet namespace and class, which can both name files,
do not make a name for a file with the extension. The class fails for that alone, when the root has been
cleared already. -/
theorem null_passes_check :
    spoiltConfig.validate = ([], .ok spoiltConfig) ∧ "N" ∈ spoiltConfig.namespaces ∧
      Path.isFileName "A" = true ∧
      Path.isFileName ("A" ++ "." ++ spoiltConfig.fileExtension) = false ∧
      ∃ report w', spoiltRun.Returns spoiltPlace report w' ∧ report.written = [] ∧
        report.failures.map (·.error) = ["Failed to create file out/N/A.st\x00b: " ++
          SystemError.message .nullInPath] ∧
        spoiltPlace.disk.get? ["out", "old.txt"] = some (.file .empty) ∧
        w'.disk.get? ["out", "old.txt"] = none := by
  obtain ⟨report, hrun⟩ := returns_of_isOk
    (by decide +kernel : (spoiltRun.ending spoiltPlace).1.isOk = true)
  have hreport : (spoiltRun.ending spoiltPlace).1.toOption.map
      (fun report => (report.written, report.failures.map (·.error))) =
        some ([], ["Failed to create file out/N/A.st\x00b: " ++ SystemError.message .nullInPath]) := by
    decide +kernel
  rw [show (spoiltRun.ending spoiltPlace).1 = .ok report from congrArg Prod.fst hrun] at hreport
  obtain ⟨hwritten, hfailures⟩ := Prod.mk.inj (Option.some.inj hreport)
  exact ⟨by decide +kernel, by decide, by decide, by decide, report, _, hrun, hwritten, hfailures,
    by decide +kernel, by decide +kernel⟩

end Run

end StubListing
