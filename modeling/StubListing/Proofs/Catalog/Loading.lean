import StubListing.Proofs.Action
import StubListing.Proofs.Catalog.Merging
import StubListing.Proofs.Disk.Removing
/-!
# A catalog file on its own and in a directory

A catalog file may be named itself, or be found in the directory that is named. The same modules are
found either way, but a document that repeats the name of a module is merged only when its file is found
in a directory: named itself, the file gives the types of the first module of the name alone.
-/
namespace StubListing.Catalog
open StubListing.Action

variable {w w' : Workplace} {p file directory : Path} {doc : Document} {files : List Path}

theorem returns_loadFile :
    (loadFile p).Returns w doc w' ↔
      (∃ text form, w.disk.text p = .ok text ∧ notationOf? p = some form ∧
        parse form text = .ok doc) ∧ w' = w := by
  unfold loadFile
  constructor
  · intro h
    obtain ⟨text, w₁, hread, hrest⟩ := returns_bind.mp h
    obtain ⟨htext, rfl⟩ := Files.returns_readText.mp hread
    cases hform : notationOf? p with
    | none =>
      rw [hform] at hrest
      exact absurd hrest returns_fail
    | some form =>
      rw [hform] at hrest
      cases hparse : parse form text with
      | error cause =>
        simp only [hparse] at hrest
        exact absurd hrest returns_fail
      | ok found =>
        simp only [hparse] at hrest
        obtain ⟨rfl, rfl⟩ := returns_pure.mp hrest
        exact ⟨⟨text, form, htext, rfl, hparse⟩, rfl⟩
  · intro h
    obtain ⟨⟨text, form, htext, hform, hparse⟩, rfl⟩ := h
    apply returns_bind.mpr
    refine ⟨text, _, Files.returns_readText.mpr ⟨htext, rfl⟩, ?_⟩
    simp only [hform, hparse]
    exact returns_pure.mpr ⟨rfl, rfl⟩

theorem readsOnly_loadFile (p : Path) : (loadFile p).ReadsOnly := by
  apply ReadsOnly.bind
  · intro w
    unfold Leaves
    rw [Files.ending_readText]
  · intro text
    cases notationOf? p with
    | none => exact readsOnly_fail _
    | some form =>
      dsimp only
      cases parse form text with
      | error cause => exact readsOnly_fail _
      | ok document => exact readsOnly_pure _

theorem readsOnly_loadAll (files : List Path) (document : Document) :
    (loadAll document files).ReadsOnly := by
  induction files generalizing document with
  | nil => exact readsOnly_pure _
  | cons p rest ih => exact (readsOnly_loadFile p).bind fun next => ih _

theorem readsOnly_collect (p : Path) : (collect p).ReadsOnly := by
  apply readsOnly_disk.bind
  intro d
  cases d.filesBelow p with
  | error e => exact readsOnly_fail _
  | ok files => exact readsOnly_pure _

/-- Loading a catalog only reads. -/
theorem readsOnly_load (p : Path) : (load p).ReadsOnly := by
  apply readsOnly_disk.bind
  intro d
  split
  · apply (readsOnly_collect p).bind
    intro files
    exact (readsOnly_note _ _).bind fun _ => readsOnly_loadAll files _
  · exact readsOnly_loadFile p

/-- A file that is loaded has one of the extensions that are collected. -/
theorem hasAnyExtension_of_notationOf? {form : Notation} (h : notationOf? p = some form) :
    hasAnyExtension p catalogExtensions = true := by
  unfold notationOf? at h
  split at h
  · rename_i hjson
    simp [hasAnyExtension, catalogExtensions, hjson]
  · split at h
    · rename_i hyaml
      simp only [hasAnyExtension, catalogExtensions, List.any_cons, Bool.or_eq_true] at hyaml ⊢
      exact Or.inr hyaml
    · cases h

/-- A file that is collected has one of the extensions that are loaded. -/
theorem notationOf?_isSome {p : Path} (h : hasAnyExtension p catalogExtensions = true) :
    (notationOf? p).isSome = true := by
  unfold notationOf?
  split
  · rfl
  · rename_i hjson
    have hyaml : hasAnyExtension p ["yaml", "yml"] = true := by
      simp only [hasAnyExtension, catalogExtensions, List.any_cons, Bool.or_eq_true] at h ⊢
      exact h.resolve_left hjson
    rw [if_pos hyaml]
    rfl

/-- A file is no directory. -/
theorem isDirectory_of_text {d : Disk} {text : String} (h : d.text p = .ok text) :
    d.isDirectory p = false := by
  rw [Bool.eq_false_iff]
  intro hdir
  obtain ⟨l, hl, hthere⟩ := Disk.isDirectory_iff.mp hdir
  cases hcontent : d.content p with
  | error e =>
    rw [Disk.text, hcontent] at h
    cases h
  | ok content =>
    obtain ⟨l', hl', hfile⟩ := Disk.content_eq_ok.mp hcontent
    rw [hl] at hl'
    obtain rfl := Except.ok.inj hl'
    rw [hthere] at hfile
    cases hfile

/-- Named itself, a file gives its document. -/
theorem load_file (h : (loadFile file).Returns w doc w') : (load file).Returns w doc w' := by
  obtain ⟨⟨text, form, htext, hform, hparse⟩, rfl⟩ := returns_loadFile.mp h
  unfold load
  apply returns_bind.mpr
  refine ⟨_, _, returns_disk.mpr ⟨rfl, rfl⟩, ?_⟩
  rw [if_neg (by simp [isDirectory_of_text htext])]
  exact h

/-- Found in a directory, the file gives its document merged into an empty one. -/
theorem load_directory (hdir : w.disk.isDirectory directory = true)
    (honly : w.disk.filesBelow directory = .ok [file]) (h : (loadFile file).Returns w doc w') :
    ∃ w'', (load directory).Returns w (Document.empty.merge doc) w'' ∧ w''.disk = w.disk := by
  obtain ⟨⟨text, form, htext, hform, hparse⟩, rfl⟩ := returns_loadFile.mp h
  have hcollect : (collect directory).Returns w' [file] w' := by
    unfold collect
    apply returns_bind.mpr
    refine ⟨_, _, returns_disk.mpr ⟨rfl, rfl⟩, ?_⟩
    have hkept : [file].filter (fun file => hasAnyExtension file catalogExtensions) = [file] := by
      simp [hasAnyExtension_of_notationOf? hform]
    simp only [honly, hkept]
    exact returns_pure.mpr ⟨rfl, rfl⟩
  unfold load
  have hlater : ∀ w₁ : Workplace, w₁.disk = w'.disk → (loadFile file).Returns w₁ doc w₁ := by
    intro w₁ hsame
    exact returns_loadFile.mpr ⟨⟨text, form, hsame ▸ htext, hform, hparse⟩, rfl⟩
  let noted : Workplace := { w' with
    log := w'.log ++ [⟨.info, "Loading catalog from " ++ toString [file].length ++ " files in " ++
      directory.text⟩] }
  refine ⟨noted, ?_, rfl⟩
  apply returns_bind.mpr
  refine ⟨_, _, returns_disk.mpr ⟨rfl, rfl⟩, ?_⟩
  rw [if_pos hdir]
  apply returns_bind.mpr
  refine ⟨_, _, hcollect, ?_⟩
  apply returns_bind.mpr
  refine ⟨(), noted, returns_note.mpr rfl, ?_⟩
  apply returns_bind.mpr
  exact ⟨doc, noted, hlater noted rfl, returns_pure.mpr ⟨rfl, rfl⟩⟩

/-- Whether the file is named itself or is the only one in the directory that is named, a module is found
under the same names. In the directory it has the types of all modules of the name in the file; named
itself, the file gives the types of the first of them, which are all only if no other module of the name
adds to them. -/
theorem load_alone_or_below (hdir : w.disk.isDirectory directory = true)
    (honly : w.disk.filesBelow directory = .ok [file]) (h : (loadFile file).Returns w doc w') :
    ∃ merged w'', (load file).Returns w doc w' ∧ (load directory).Returns w merged w'' ∧
      w''.disk = w.disk ∧ ∀ name,
        ((∃ m, doc.require name = .ok m) ↔ ∃ m, merged.require name = .ok m) ∧
        ∀ m m', doc.require name = .ok m → merged.require name = .ok m' →
          m'.types = typesNamed name doc.modules ∧ m.types <+: m'.types ∧
            (doc.names.count name = 1 → m.types = m'.types) := by
  obtain ⟨w'', hload, hsame⟩ := load_directory hdir honly h
  refine ⟨Document.empty.merge doc, w'', load_file h, hload, hsame, fun name => ⟨?_, ?_⟩⟩
  · rw [Document.require_isOk_iff]
    simp only [Document.require_merge_empty, exists_and_left, exists_eq, and_true]
  · intro m m' hm hm'
    obtain ⟨-, rfl⟩ := Document.require_merge_empty.mp hm'
    obtain ⟨hfront, hall⟩ := Document.find?_types (Document.require_eq_ok_iff.mp hm)
    exact ⟨rfl, hfront, hall⟩

/-! ## A document that repeats a name -/

/-- A document in which two modules have the same name, with one type each. -/
def repeatingText : String :=
  "\x7b\"modules\":[\x7b\"name\":\"M\",\"types\":[\x7b\"name\":\"A\"\x7d]\x7d," ++
    "\x7b\"name\":\"M\",\"types\":[\x7b\"name\":\"B\"\x7d]\x7d]\x7d"

/-- A directory with that document in its only file. -/
def repeatingDisk : Disk :=
  ⟨[(["cat"], .directory), (["cat", "c.json"], .file repeatingText.toUTF8)], []⟩

theorem parse_repeatingText : ∃ a b : List TypeDecl,
    parse .json repeatingText = .ok ⟨[⟨"M", a⟩, ⟨"M", b⟩]⟩ ∧ a.map (·.name) = ["A"] ∧
      b.map (·.name) = ["B"] := by
  have hparse : (parse .json repeatingText).toOption.map
      (fun doc => doc.modules.map fun m => (m.name, m.types.map (·.name))) =
        some [("M", ["A"]), ("M", ["B"])] := by decide +kernel
  cases hdoc : parse .json repeatingText with
  | error cause =>
    rw [hdoc] at hparse
    cases hparse
  | ok doc =>
    rw [hdoc] at hparse
    have hmodules := Option.some.inj hparse
    obtain ⟨modules⟩ := doc
    obtain ⟨⟨_, a⟩, _, rfl, hfirst, hrest⟩ := List.map_eq_cons_iff.mp hmodules
    obtain ⟨⟨_, b⟩, _, rfl, hsecond, hnone⟩ := List.map_eq_cons_iff.mp hrest
    obtain rfl := List.map_eq_nil_iff.mp hnone
    simp only [Prod.mk.injEq] at hfirst hsecond
    obtain ⟨rfl, hfirst⟩ := hfirst
    obtain ⟨rfl, hsecond⟩ := hsecond
    exact ⟨a, b, rfl, hfirst, hsecond⟩

theorem loadFile_repeating : ∃ a b : List TypeDecl,
    (loadFile ⟨"cat/c.json"⟩).Returns ⟨repeatingDisk, []⟩ ⟨[⟨"M", a⟩, ⟨"M", b⟩]⟩
      ⟨repeatingDisk, []⟩ ∧ a.map (·.name) = ["A"] ∧ b.map (·.name) = ["B"] := by
  obtain ⟨a, b, hparse, ha, hb⟩ := parse_repeatingText
  have hfind : repeatingDisk.find ⟨"cat/c.json"⟩ = .ok ["cat", "c.json"] := by decide +kernel
  have htext : repeatingDisk.text ⟨"cat/c.json"⟩ = .ok repeatingText := by
    apply Disk.text_of_content
    exact Disk.content_eq_ok.mpr ⟨_, hfind, rfl⟩
  exact ⟨a, b, returns_loadFile.mpr ⟨⟨_, .json, htext, by decide +kernel, hparse⟩, rfl⟩, ha, hb⟩

theorem filesBelow_repeating : repeatingDisk.filesBelow ⟨"cat"⟩ = .ok [⟨"cat/c.json"⟩] := by
  decide +kernel

/-- The module of the repeated name is found either way. -/
theorem load_repeating_either_way :
    ∃ doc merged w', (load ⟨"cat/c.json"⟩).Returns ⟨repeatingDisk, []⟩ doc ⟨repeatingDisk, []⟩ ∧
      (load ⟨"cat"⟩).Returns ⟨repeatingDisk, []⟩ merged w' ∧
        ((∃ m, doc.require "M" = .ok m) ↔ ∃ m, merged.require "M" = .ok m) := by
  obtain ⟨a, b, hfile, -, -⟩ := loadFile_repeating
  obtain ⟨merged, w', hload, hbelow, -, hnames⟩ :=
    load_alone_or_below (by decide +kernel) filesBelow_repeating hfile
  exact ⟨_, merged, w', hload, hbelow, (hnames "M").1⟩

/-- Named itself, the file gives one type of the module; in its directory it gives both. -/
theorem repeated_name_loses_types :
    ∃ doc merged w' m m', (loadFile ⟨"cat/c.json"⟩).Returns ⟨repeatingDisk, []⟩ doc ⟨repeatingDisk, []⟩ ∧
      repeatingDisk.isDirectory ⟨"cat"⟩ = true ∧
      repeatingDisk.filesBelow ⟨"cat"⟩ = .ok [⟨"cat/c.json"⟩] ∧
      (load ⟨"cat/c.json"⟩).Returns ⟨repeatingDisk, []⟩ doc ⟨repeatingDisk, []⟩ ∧
      (load ⟨"cat"⟩).Returns ⟨repeatingDisk, []⟩ merged w' ∧
      doc.require "M" = .ok m ∧ merged.require "M" = .ok m' ∧
      m.types.map (·.name) = ["A"] ∧ m'.types.map (·.name) = ["A", "B"] := by
  obtain ⟨a, b, hfile, ha, hb⟩ := loadFile_repeating
  have hdir : repeatingDisk.isDirectory ⟨"cat"⟩ = true := by decide +kernel
  obtain ⟨w', hload, -⟩ := load_directory hdir filesBelow_repeating hfile
  have hfound : (Document.mk [⟨"M", a⟩, ⟨"M", b⟩]).require "M" = .ok ⟨"M", a⟩ := rfl
  have hmerged := Document.require_merge_empty.mpr
    ⟨(by simp [Document.names] : "M" ∈ (Document.mk [⟨"M", a⟩, ⟨"M", b⟩]).names), rfl⟩
  refine ⟨_, _, w', _, _, hfile, hdir, filesBelow_repeating, load_file hfile, hload, hfound, hmerged,
    ha, ?_⟩
  simp [typesNamed, ha, hb]

end StubListing.Catalog
