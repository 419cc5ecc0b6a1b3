import StubListing.CommandLine.Execute
import StubListing.Proofs.Config.Settling
import StubListing.Proofs.Run.Sparing
/-!
# What becomes of the files that a command reads

Carrying out a command may remove or overwrite the very files that it was told by: the output root
may be the directory they lie in. A file that the run does not come to by its settings and its
selection is kept, whatever the command line and however the command ends.
-/
namespace StubListing

namespace Config
open StubListing.Action

variable {c checked : Config} {w w' : Workplace}

theorem readsOnly_load (p : Path) : (load p).ReadsOnly := by
  apply ReadsOnly.bind
  · intro w
    unfold Leaves
    rw [Files.ending_readText]
  · intro text
    cases parse text with
    | error fault => exact readsOnly_fail _
    | ok c => exact readsOnly_pure _

theorem readsOnly_loadOrStandard (given : Option Path) : (loadOrStandard given).ReadsOnly := by
  cases given with
  | some p => exact readsOnly_load p
  | none =>
    apply readsOnly_disk.bind
    intro d
    split
    · exact (readsOnly_note _ _).bind fun _ => readsOnly_load _
    · exact readsOnly_pure _

theorem readsOnly_check (c : Config) : c.check.ReadsOnly := by
  unfold check
  rcases c.validate with ⟨warnings, result⟩
  apply (readsOnly_noteAll _ _).bind
  intro _
  cases result with
  | error fault => exact readsOnly_fail _
  | ok checked => exact readsOnly_pure _

theorem valid_of_check (h : c.check.Returns w checked w') : checked.Valid := by
  unfold check at h
  rcases hvalidate : c.validate with ⟨warnings, result⟩
  rw [hvalidate] at h
  obtain ⟨_, w₁, -, hrest⟩ := returns_bind.mp h
  cases result with
  | error fault => exact absurd hrest returns_fail
  | ok found =>
    obtain ⟨rfl, -⟩ := returns_pure.mp hrest
    exact valid_of_validate hvalidate

end Config

namespace CommandLine
open StubListing.Action StubListing.Run
open StubListing.Disk (Intact)

variable {o : Options} {w w' : Workplace} {c : Config} {l : Location} {content : ByteArray}

theorem readsOnly_settings (o : Options) : (settings o).ReadsOnly :=
  (Config.readsOnly_loadOrStandard o.config).bind fun _ => Config.readsOnly_check _

theorem valid_of_settings (h : (settings o).Returns w c w') : c.Valid := by
  obtain ⟨given, w₁, -, hcheck⟩ := returns_bind.mp h
  exact Config.valid_of_check hcheck

theorem generate_spares {now : Instant} (hd : w.disk.Sound)
    (hfile : w.disk.get? l = some (.file content))
    (hsafe : ∀ c w₁ selected w₂, (settings o).Returns w c w₁ →
      (preview c).Returns w₁ selected w₂ → ¬ Exposed c selected w.disk l) :
    (generate o now).Leaves (Intact w.disk l content) w := by
  have hstart := (Disk.remains_self hfile).intact
  apply (readsOnly_settings o).then_leaves hstart
  intro c w₁ hsettings hsame
  have hexposed := fun selected w₂ => hsafe c w₁ selected w₂ hsettings
  rw [← hsame] at hd hfile hexposed ⊢
  apply leaves_bind (fromDisk_spares (valid_of_settings hsettings) hd hfile hexposed)
  intro report w₂ _ h₂
  exact leaves_bind (leaves_noteAll h₂) fun _ _ _ h₃ => leaves_pure h₃

/-- The last words of a command do not touch the tree. -/
theorem disk_of_carryOut (now : Instant) (command : Command) (o : Options) (w : Workplace) :
    (carryOut now command o w).2.disk = ((action now o command).ending w).2.disk := by
  unfold carryOut ending
  rcases (action now o command).run.run w with ⟨_ | _, w'⟩ <;> rfl

/-- Settings that name the output root. -/
def settingsText (root : String) : String :=
  "module = \"M\"\nnamespaces = [\"N\"]\noutput_root = \"" ++ root ++ "\"\n"

/-- A catalog with one class, in the short form of the notation. -/
def classText : String := "[[[\"M\",[[\"A\",\"N\"]]]]]"

/-- A configuration and a catalog side by side. -/
def projectDisk (root : String) : Disk :=
  ⟨[(["api-stubgen.toml"], .file (settingsText root).toUTF8),
    (["catalog.json"], .file classText.toUTF8)], []⟩

theorem outputRoot_project (h : (settings .none).Returns ⟨projectDisk "out", []⟩ c w') :
    c.outputRoot = ⟨"out"⟩ := by
  have hroot : ((settings .none).ending ⟨projectDisk "out", []⟩).1.toOption.map (·.outputRoot) =
      some ⟨"out"⟩ := by decide +kernel
  rw [h] at hroot
  exact Option.some.inj hroot

theorem not_exposed_project {selected : List Catalog.Selected} {name : String}
    (h : (settings .none).Returns ⟨projectDisk "out", []⟩ c w') :
    ¬ Exposed c selected (projectDisk "out") [name] := by
  intro hexposed
  have hroot := outputRoot_project h
  have hspelled : (projectDisk "out").spelled c.outputRoot = ["out"] := by
    rw [hroot]
    decide
  have hnear := hexposed.near_root (valid_of_settings h) (by decide) (by rw [hroot]; decide)
  rw [hspelled] at hnear
  simp at hnear

/-- Carried out on the tree, the command goes through, and afterwards the file that the path leads to
is not there with the same bytes. -/
def Loses (arguments : List String) (d : Disk) (p : Path) (l : Location) : Prop :=
  d.find p = .ok l ∧ d.isFile p = true ∧
    let (result, w) := execute ⟨⟨2024, 1, 1⟩, 0, 0⟩ arguments ⟨d, []⟩
    result.exitCode = 0 ∧ w.disk.get? l ≠ d.get? l

instance (arguments : List String) (d : Disk) (p : Path) (l : Location) :
    Decidable (Loses arguments d p l) :=
  inferInstanceAs (Decidable (_ ∧ _ ∧ _ ∧ _))

/-- A configuration that has the name of the stub of its only class, and the catalog beside the
output root. -/
def nestedDisk : Disk :=
  ⟨[(["catalog.json"], .file classText.toUTF8), (["out"], .directory), (["out", "N"], .directory),
    (["out", "N", "A.stub"], .file (settingsText "out").toUTF8)], []⟩

/-- A catalog that has the name of a manifest. -/
def disguisedDisk : Disk :=
  ⟨[(["b"], .directory), (["b", Manifest.fileName], .file "[[[\"M\"]]]".toUTF8)], []⟩

/-- A catalog that a manifest lists with its digest as the stub of a class. -/
def listedDisk : Disk :=
  ⟨[(["out"], .directory), (["out", "N"], .directory),
    (["out", "N", "A.json"], .file "[[[\"M\"]]]".toUTF8),
    (["out", Manifest.fileName], .file
      ("[\"2024-01-01T00:00:00Z\",\"M\",[],[[\"N\",\"A\",\"A.json\"," ++
        "\"4b2c5cee2efa75333e329bf7b3f855acf57319fe426e87881110444dfff910b1\",0,0,0]],[],\"\"]").toUTF8)],
    []⟩

end CommandLine

end StubListing
