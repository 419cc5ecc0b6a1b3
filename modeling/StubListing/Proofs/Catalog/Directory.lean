import StubListing.Proofs.Catalog.Loading
import StubListing.Proofs.Disk.Descending
/-!
# All catalogs below a directory

Of a directory without links below it every catalog file is collected, once, in the order of the names
that lead to it, and the documents of these files are merged in that order. Only a directory whose path
is too long for the system to be listed stands against this.
-/
namespace StubListing.Catalog
open StubListing.Action StubListing.Text

/-! ## Names of catalog files -/

/-- A name with something in front of its last dot and a catalog extension behind it. -/
def IsCatalogName (name : String) : Prop :=
  ∃ stem extension, name = stem ++ "." ++ extension ∧ stem ≠ "" ∧
    ∃ known ∈ catalogExtensions, sameIgnoringCase extension known = true

theorem extensionOf?_eq_some {name extension : String} :
    Path.extensionOf? name = some extension ↔
      ∃ stem, name = stem ++ "." ++ extension ∧ stem ≠ "" ∧ '.' ∉ extension.toList := by
  unfold Path.extensionOf?
  constructor
  · intro h
    have hcut := List.takeWhile_append_dropWhile (p := (· != '.')) (l := name.toList.reverse)
    cases hrest : name.toList.reverse.dropWhile (· != '.') with
    | nil => simp [hrest] at h
    | cons c stem =>
      have hdot : c = '.' := by
        have := List.head_dropWhile_not (· != '.') (l := name.toList.reverse) (by simp [hrest])
        simpa [hrest] using this
      simp only [hrest, List.drop_succ_cons, List.drop_zero, List.isEmpty_iff,
        Option.ite_none_left_eq_some, Option.some.injEq] at h
      obtain ⟨hstem, rfl⟩ := h
      refine ⟨String.ofList stem.reverse, ?_, by simpa using hstem, fun hm => ?_⟩
      · rw [hrest, hdot] at hcut
        apply String.toList_inj.mp
        simpa using (congrArg List.reverse hcut).symm
      · rw [String.toList_ofList, List.mem_reverse] at hm
        simpa using List.mem_takeWhile_imp hm
  · rintro ⟨stem, rfl, hstem, hdot⟩
    have hreversed : (stem ++ "." ++ extension).toList.reverse =
        extension.toList.reverse ++ '.' :: stem.toList.reverse := by simp
    have hpos : ∀ c ∈ extension.toList.reverse, (c != '.') = true := by
      intro c hc
      rw [List.mem_reverse] at hc
      exact bne_iff_ne.mpr fun he => hdot (he ▸ hc)
    have hne : stem.toList ≠ [] := fun he => hstem (String.toList_inj.mp (by simpa using he))
    dsimp only
    rw [hreversed, List.dropWhile_append_of_pos hpos, List.takeWhile_append_of_pos hpos]
    simp [hne]

/-- An extension that is known has no dot. -/
theorem dot_not_mem {extension known : String} (hknown : known ∈ catalogExtensions)
    (hsame : sameIgnoringCase extension known = true) : '.' ∉ extension.toList := by
  intro hdot
  have hlower : '.' ∈ known.toList.map Char.toLower := by
    rw [← eq_of_beq hsame]
    exact List.mem_map_of_mem (f := Char.toLower) hdot
  simp only [catalogExtensions, List.mem_cons, List.not_mem_nil, or_false] at hknown
  rcases hknown with rfl | rfl | rfl <;> revert hlower <;> decide

theorem hasAnyExtension_join (p : Path) {name : String} (h : Path.IsEntryName name) :
    hasAnyExtension (p.join name) catalogExtensions = true ↔ IsCatalogName name := by
  have hext : (p.join name).extension? = Path.extensionOf? name := by
    simp [Path.extension?, Path.fileName?, Path.components_join p h]
  simp only [hasAnyExtension, List.any_eq_true, hasExtension, hext, Option.any_eq_true]
  constructor
  · rintro ⟨known, hknown, extension, hsome, hsame⟩
    obtain ⟨stem, hname, hstem, -⟩ := extensionOf?_eq_some.mp hsome
    exact ⟨stem, extension, hname, hstem, known, hknown, hsame⟩
  · rintro ⟨stem, extension, hname, hstem, known, hknown, hsame⟩
    exact ⟨known, hknown, extension,
      extensionOf?_eq_some.mpr ⟨stem, hname, hstem, dot_not_mem hknown hsame⟩, hsame⟩

/-! ## Loading one file after the other -/

variable {w w' : Workplace} {p file : Path} {doc : Document} {files : List Path} {f : Failure}

/-- What becomes of a file depends on the tree alone. -/
theorem exists_ending_loadFile (p : Path) (d : Disk) :
    ∃ r, ∀ w : Workplace, w.disk = d → (loadFile p).ending w = (r, w) := by
  have hread : ∀ w : Workplace, (loadFile p).ending w = _ := fun w => by
    rw [loadFile, ending_bind, Files.ending_readText]
  cases htext : d.text p with
  | error e =>
    refine ⟨.error ⟨["Failed to read file " ++ p.text], .system e⟩, fun w hw => ?_⟩
    rw [hread, hw, htext]
  | ok text =>
    cases hform : notationOf? p with
    | none =>
      refine ⟨.error (.said ("Unsupported catalog file format: " ++ p.text)), fun w hw => ?_⟩
      rw [hread, hw, htext]
      simp only [hform]
      rfl
    | some form =>
      cases hparse : parse form text with
      | ok document =>
        refine ⟨.ok document, fun w hw => ?_⟩
        rw [hread, hw, htext]
        simp only [hform, hparse]
        rfl
      | error cause =>
        refine ⟨.error ⟨["Failed to parse catalog file " ++ p.text], cause⟩, fun w hw => ?_⟩
        rw [hread, hw, htext]
        simp only [hform, hparse]
        rfl

theorem returns_loadFile_congr (h : (loadFile p).Returns w doc w) (hsame : w'.disk = w.disk) :
    (loadFile p).Returns w' doc w' := by
  obtain ⟨r, hr⟩ := exists_ending_loadFile p w.disk
  rw [Returns, hr w rfl] at h
  rw [Returns, hr w' hsame, (Prod.mk.inj h).1]

theorem fails_loadFile_congr (h : (loadFile p).Fails w f w) (hsame : w'.disk = w.disk) :
    (loadFile p).Fails w' f w' := by
  obtain ⟨r, hr⟩ := exists_ending_loadFile p w.disk
  rw [Fails, hr w rfl] at h
  rw [Fails, hr w' hsame, (Prod.mk.inj h).1]

theorem loadFile_returns_or_fails (p : Path) (w : Workplace) :
    (∃ doc, (loadFile p).Returns w doc w) ∨ ∃ f, (loadFile p).Fails w f w := by
  obtain ⟨r, hr⟩ := exists_ending_loadFile p w.disk
  cases r with
  | ok doc => exact Or.inl ⟨doc, hr w rfl⟩
  | error f => exact Or.inr ⟨f, hr w rfl⟩

/-- A file with a known extension is not rejected for its extension: where it cannot be loaded, more is
said than one message. -/
theorem contexts_ne_nil (hknown : (notationOf? p).isSome = true) (h : (loadFile p).Fails w f w') :
    f.contexts ≠ [] := by
  rw [Fails, loadFile, ending_bind, Files.ending_readText] at h
  cases htext : w.disk.text p with
  | error e =>
    rw [htext] at h
    obtain rfl := Except.error.inj (Prod.mk.inj h).1
    simp
  | ok text =>
    rw [htext] at h
    obtain ⟨form, hform⟩ := Option.isSome_iff_exists.mp hknown
    simp only [hform] at h
    cases hparse : parse form text with
    | ok document =>
      rw [hparse] at h
      exact absurd h fails_pure
    | error cause =>
      rw [hparse] at h
      obtain ⟨rfl, -⟩ := fails_fail.mp h
      simp

/-- Either every file gives a document, or there is a first one that gives none. -/
theorem documents_or_failure (files : List Path) (w : Workplace) :
    (∃ docs, List.Forall₂ (fun file doc => (loadFile file).Returns w doc w) files docs ∧
        ∀ file ∈ files, ∃ doc, (loadFile file).Returns w doc w) ∨
      ∃ front file rest f, files = front ++ file :: rest ∧
        (∀ earlier ∈ front, ∃ doc, (loadFile earlier).Returns w doc w) ∧
        (loadFile file).Fails w f w := by
  induction files with
  | nil => exact Or.inl ⟨[], .nil, by simp⟩
  | cons file rest ih =>
    rcases loadFile_returns_or_fails file w with ⟨doc, hdoc⟩ | ⟨f, hf⟩
    · rcases ih with ⟨docs, hdocs, hall⟩ | ⟨front, failing, more, f, rfl, hfront, hf⟩
      · exact Or.inl ⟨doc :: docs, .cons hdoc hdocs, List.forall_mem_cons.mpr ⟨⟨doc, hdoc⟩, hall⟩⟩
      · exact Or.inr ⟨file :: front, failing, more, f, rfl,
          List.forall_mem_cons.mpr ⟨⟨doc, hdoc⟩, hfront⟩, hf⟩
    · exact Or.inr ⟨[], file, rest, f, rfl, by simp, hf⟩

/-- Where every file gives a document, the documents are merged in their order. -/
theorem loadAll_returns {docs : List Document} (before : Document)
    (h : List.Forall₂ (fun file doc => (loadFile file).Returns w doc w) files docs) :
    (loadAll before files).Returns w (docs.foldl Document.merge before) w := by
  induction h generalizing before with
  | nil => exact returns_pure.mpr ⟨rfl, rfl⟩
  | @cons file doc _ _ hfile _ ih =>
    exact returns_bind.mpr ⟨doc, w, hfile, ih (before.merge doc)⟩

/-- The first file that gives none is where it ends. -/
theorem loadAll_fails {front rest : List Path} (before : Document)
    (hfront : ∀ earlier ∈ front, ∃ doc, (loadFile earlier).Returns w doc w)
    (hfile : (loadFile file).Fails w f w) : (loadAll before (front ++ file :: rest)).Fails w f w := by
  induction front generalizing before with
  | nil => exact fails_bind.mpr (Or.inl hfile)
  | cons first more ih =>
    rw [List.forall_mem_cons] at hfront
    obtain ⟨doc, hdoc⟩ := hfront.1
    exact fails_bind.mpr (Or.inr ⟨doc, w, hdoc, ih (before.merge doc) hfront.2⟩)

/-! ## What a merge keeps -/

/-- All types of the document, each with the name of its module. -/
def Document.typesIn (d : Document) : List (String × TypeDecl) :=
  d.modules.flatMap fun m => m.types.map (m.name, ·)

namespace Document

theorem perm_absorb (m : Module) (modules : List Module) :
    (Document.mk (absorb m modules)).typesIn.Perm
      ((Document.mk modules).typesIn ++ m.types.map (m.name, ·)) := by
  induction modules with
  | nil => simp [absorb, typesIn]
  | cons present rest ih =>
    by_cases hname : present.name = m.name
    · simp only [absorb, hname, beq_self_eq_true, if_true, typesIn, List.flatMap_cons, List.map_append,
        List.append_assoc]
      exact List.perm_append_comm.append_left _
    · simp only [absorb, beq_iff_eq, hname, if_false, typesIn, List.flatMap_cons, List.append_assoc]
      exact ih.append_left _

theorem perm_merge (d other : Document) : (d.merge other).typesIn.Perm (d.typesIn ++ other.typesIn) := by
  obtain ⟨before⟩ := d
  obtain ⟨modules⟩ := other
  show (Document.mk (modules.foldl (fun modules m => absorb m modules) before)).typesIn.Perm _
  induction modules generalizing before with
  | nil => simp [typesIn]
  | cons m rest ih =>
    refine (ih (absorb m before)).trans (((perm_absorb m before).append_right _).trans ?_)
    simp [typesIn]

/-- Every type of every document is in the merged one, as often as it was in all of them. -/
theorem perm_mergeAll (docs : List Document) :
    (mergeAll docs).typesIn.Perm (docs.flatMap typesIn) := by
  have hfrom : ∀ before : Document,
      (docs.foldl merge before).typesIn.Perm (before.typesIn ++ docs.flatMap typesIn) := by
    induction docs with
    | nil => simp
    | cons doc rest ih =>
      intro before
      refine (ih (before.merge doc)).trans (((perm_merge before doc).append_right _).trans ?_)
      simp
  exact hfrom empty

end Document

/-! ## The files of a directory -/

variable {place : Location}

theorem returns_collect :
    (collect p).Returns w files w' ↔
      (∃ found, w.disk.filesBelow p = .ok found ∧
        files = Disk.orderPaths (found.filter fun file => hasAnyExtension file catalogExtensions)) ∧
      w' = w := by
  unfold collect
  constructor
  · intro h
    obtain ⟨d, w₁, hdisk, hrest⟩ := returns_bind.mp h
    obtain ⟨rfl, rfl⟩ := returns_disk.mp hdisk
    cases hfound : w₁.disk.filesBelow p with
    | error e =>
      rw [hfound] at hrest
      exact absurd hrest returns_fail
    | ok found =>
      rw [hfound] at hrest
      obtain ⟨rfl, rfl⟩ := returns_pure.mp hrest
      exact ⟨⟨found, rfl, rfl⟩, rfl⟩
  · rintro ⟨⟨found, hfound, rfl⟩, rfl⟩
    refine returns_bind.mpr ⟨_, _, returns_disk.mpr ⟨rfl, rfl⟩, ?_⟩
    rw [hfound]
    exact returns_pure.mpr ⟨rfl, rfl⟩

theorem fails_collect {e : WalkError} (h : w.disk.filesBelow p = .error e) :
    (collect p).Fails w ⟨["Failed to read catalog directory " ++ p.text], .walk e⟩ w := by
  refine fails_bind.mpr (Or.inr ⟨_, _, returns_disk.mpr ⟨rfl, rfl⟩, ?_⟩)
  rw [h]
  exact fails_fail.mpr ⟨rfl, rfl⟩

/-- The log says how many files are loaded. -/
def announced (w : Workplace) (p : Path) (files : List Path) : Workplace :=
  { w with log := w.log ++
      [⟨.info, "Loading catalog from " ++ toString files.length ++ " files in " ++ p.text⟩] }

/-- How a directory is loaded whose files have been collected. -/
theorem ending_load (hdir : w.disk.isDirectory p = true) (hcollect : (collect p).Returns w files w) :
    (load p).ending w = (loadAll .empty files).ending (announced w p files) := by
  have hdisk : Action.disk.ending w = (.ok w.disk, w) := rfl
  rw [load, ending_bind, hdisk]
  dsimp only
  rw [if_pos hdir, ending_bind, show (collect p).ending w = _ from hcollect]
  dsimp only
  rw [ending_bind]
  rfl

/-- How a directory is loaded whose files cannot be collected. -/
theorem fails_load (hdir : w.disk.isDirectory p = true) (hcollect : (collect p).Fails w f w) :
    (load p).Fails w f w := by
  refine fails_bind.mpr (Or.inr ⟨_, _, returns_disk.mpr ⟨rfl, rfl⟩, ?_⟩)
  rw [if_pos hdir]
  exact fails_bind.mpr (Or.inl hcollect)

/-- The names by which the catalog files below a directory are found, and what loading the directory
makes of these files. -/
structure LoadsInOrder (w : Workplace) (p : Path) (place : Location) (found : List (List String)) :
    Prop where
  ascending : found.Pairwise (List.Lex (· < ·))
  exact : ∀ names, names ∈ found ↔
    w.disk.HasFile (place ++ names) ∧ ∃ name, names.getLast? = some name ∧ IsCatalogName name
  collected : (collect p).Returns w (found.map p.descend) w
  supported : ∀ file ∈ found.map p.descend, ∀ f w', (loadFile file).Fails w f w' →
    f ≠ .said ("Unsupported catalog file format: " ++ file.text)
  loads : (∃ doc w', (load p).Returns w doc w') ↔
    ∀ file ∈ found.map p.descend, ∃ doc, (loadFile file).Returns w doc w
  merges : ∀ docs,
    List.Forall₂ (fun file doc => (loadFile file).Returns w doc w) (found.map p.descend) docs →
      (load p).Returns w (Document.mergeAll docs) (announced w p (found.map p.descend)) ∧
        (Document.mergeAll docs).typesIn.Perm (docs.flatMap Document.typesIn)
  fails : ∀ front file rest f, found.map p.descend = front ++ file :: rest →
    (∀ earlier ∈ front, ∃ doc, (loadFile earlier).Returns w doc w) → (loadFile file).Fails w f w →
      (load p).Fails w f (announced w p (found.map p.descend))

/-- Among the files that the walk met, the catalog files in order. -/
theorem exists_orderPaths (hd : w.disk.Sound) (hdir : w.disk.get? place = some .directory)
    {met : List (List String)} (once : met.Nodup)
    (exact : ∀ names, names ∈ met ↔ w.disk.HasFile (place ++ names)) :
    ∃ found : List (List String), found.Pairwise (List.Lex (· < ·)) ∧
      (∀ names, names ∈ found ↔
        w.disk.HasFile (place ++ names) ∧ ∃ name, names.getLast? = some name ∧ IsCatalogName name) ∧
      Disk.orderPaths ((met.map p.descend).filter fun file => hasAnyExtension file catalogExtensions) =
        found.map p.descend ∧
      ∀ file ∈ found.map p.descend, hasAnyExtension file catalogExtensions = true := by
  have hnames : ∀ names ∈ met, ∀ name ∈ names, Path.IsEntryName name := by
    intro names h name hname
    obtain ⟨content, hfile⟩ := (exact names).mp h
    exact (hd.isStorable_below hfile name hname).toIsEntryName
  have hlast : ∀ names ∈ met, hasAnyExtension (p.descend names) catalogExtensions = true ↔
      ∃ name, names.getLast? = some name ∧ IsCatalogName name := by
    intro names h
    rcases List.eq_nil_or_concat names with rfl | ⟨front, name, rfl⟩
    · obtain ⟨content, hfile⟩ := (exact []).mp h
      rw [List.append_nil, hdir] at hfile
      cases hfile
    · rw [List.concat_eq_append, Path.descend_append_singleton,
        hasAnyExtension_join _ (hnames _ h name (by simp))]
      simp
  let kept := met.filter fun names => hasAnyExtension (p.descend names) catalogExtensions
  have hperm := List.perm_insertionSort Disk.NamesLE kept
  have hkept : (met.map p.descend).filter (fun file => hasAnyExtension file catalogExtensions) =
      kept.map p.descend := by
    rw [List.filter_map]
    rfl
  refine ⟨kept.insertionSort Disk.NamesLE, ?_, fun names => ?_, ?_, fun file hfile => ?_⟩
  · have hsorted := List.pairwise_insertionSort Disk.NamesLE kept
    have hnodup : (kept.insertionSort Disk.NamesLE).Nodup := hperm.nodup_iff.mpr (once.filter _)
    exact (hsorted.and hnodup).imp fun h => Disk.lex_of_namesLE h.1 h.2
  · rw [hperm.mem_iff, List.mem_filter, exact]
    exact and_congr_right fun hfile => hlast names ((exact names).mpr hfile)
  · rw [hkept, Disk.orderPaths_descend p fun names h => hnames names (List.mem_filter.mp h).1]
  · obtain ⟨names, h, rfl⟩ := List.mem_map.mp hfile
    exact (List.mem_filter.mp (hperm.mem_iff.mp h)).2

/-- What is loaded is in the files that were collected. -/
theorem loadsInOrder_of_collected {found : List (List String)} (hdir : w.disk.isDirectory p = true)
    (ascending : found.Pairwise (List.Lex (· < ·)))
    (exact : ∀ names, names ∈ found ↔
      w.disk.HasFile (place ++ names) ∧ ∃ name, names.getLast? = some name ∧ IsCatalogName name)
    (collected : (collect p).Returns w (found.map p.descend) w)
    (hknown : ∀ file ∈ found.map p.descend, hasAnyExtension file catalogExtensions = true) :
    LoadsInOrder w p place found := by
  have hending := ending_load hdir collected
  have hlater : ∀ {file doc}, (loadFile file).Returns w doc w →
      (loadFile file).Returns (announced w p (found.map p.descend)) doc
        (announced w p (found.map p.descend)) := fun h => returns_loadFile_congr h rfl
  have hmerged : ∀ docs,
      List.Forall₂ (fun file doc => (loadFile file).Returns w doc w) (found.map p.descend) docs →
        (load p).Returns w (Document.mergeAll docs) (announced w p (found.map p.descend)) := by
    intro docs hdocs
    rw [Returns, hending]
    exact loadAll_returns .empty (hdocs.imp fun _ _ => hlater)
  have hfailed : ∀ front file rest f, found.map p.descend = front ++ file :: rest →
      (∀ earlier ∈ front, ∃ doc, (loadFile earlier).Returns w doc w) → (loadFile file).Fails w f w →
        (load p).Fails w f (announced w p (found.map p.descend)) := by
    intro front file rest f hsplit hfront hfile
    rw [Fails, hending]
    have hfile' : (loadFile file).Fails (announced w p (found.map p.descend)) f
        (announced w p (found.map p.descend)) := fails_loadFile_congr hfile rfl
    rw [hsplit] at hlater hfile' ⊢
    exact loadAll_fails .empty (fun earlier h => (hfront earlier h).imp fun _ => hlater) hfile'
  refine ⟨ascending, exact, collected, fun file hfile f w' hfails hsaid => ?_, ?_,
    fun docs hdocs => ⟨hmerged docs hdocs, Document.perm_mergeAll docs⟩, hfailed⟩
  · refine contexts_ne_nil (notationOf?_isSome (hknown file hfile)) hfails ?_
    rw [hsaid]
    rfl
  · rcases documents_or_failure (found.map p.descend) w with
      ⟨docs, hdocs, hall⟩ | ⟨front, file, rest, f, hsplit, hfront, hf⟩
    · exact ⟨fun _ => hall, fun _ => ⟨_, _, hmerged docs hdocs⟩⟩
    · constructor
      · rintro ⟨_, _, hload⟩
        exact absurd (hfailed front file rest f hsplit hfront hf) hload.not_fails
      · intro hall
        obtain ⟨doc, hdoc⟩ := hall file (by simp [hsplit])
        exact absurd hf hdoc.not_fails

/-- The failure of a directory whose path is too long to be listed. -/
def unlisted (p : Path) (names : List String) : Failure :=
  ⟨["Failed to read catalog directory " ++ p.text], .walk (.system (p.descend names) .nameTooLong)⟩

/-- Where the path of a directory below is too long for the system, nothing is collected or loaded. -/
theorem fails_of_not_openable (hd : w.disk.Sound) (hfind : w.disk.find p = .ok place)
    (hdir : w.disk.get? place = some .directory)
    (hfree : ∀ l, Disk.Inside place l → w.disk.Unlinked l) (hlong : ¬ w.disk.Openable p place) :
    ∃ names, w.disk.get? (place ++ names) = some .directory ∧
      Disk.pathLimit ≤ (p.descend names).text.utf8ByteSize ∧
      (collect p).Fails w (unlisted p names) w ∧ (load p).Fails w (unlisted p names) w := by
  have hwalked := hd.walked_filesBelow hfind hdir hfree
  generalize hbelow : w.disk.filesBelow p = r at hwalked
  cases hwalked with
  | listed once exact short => exact absurd (fun names => short names trivial) hlong
  | refused among hthere hsize =>
    have hisdir : w.disk.isDirectory p = true := Disk.isDirectory_iff.mpr ⟨place, hfind, hdir⟩
    have hcollect := fails_collect hbelow
    exact ⟨_, hthere, hsize, hcollect, fails_load hisdir hcollect⟩

/-- A directory without links below it is loaded from all catalog files at any depth, in order, if every
directory below it has a path that the system takes; otherwise nothing is collected or loaded. -/
theorem load_directory_in_order (hd : w.disk.Sound) (hfind : w.disk.find p = .ok place)
    (hdir : w.disk.get? place = some .directory)
    (hfree : ∀ l, Disk.Inside place l → w.disk.Unlinked l) :
    (w.disk.Openable p place → ∃ found, LoadsInOrder w p place found) ∧
      (¬ w.disk.Openable p place → ∃ names, w.disk.get? (place ++ names) = some .directory ∧
        Disk.pathLimit ≤ (p.descend names).text.utf8ByteSize ∧
        (collect p).Fails w (unlisted p names) w ∧ (load p).Fails w (unlisted p names) w) := by
  refine ⟨fun hopen => ?_, fails_of_not_openable hd hfind hdir hfree⟩
  have hwalked := hd.walked_filesBelow hfind hdir hfree
  generalize hbelow : w.disk.filesBelow p = r at hwalked
  cases hwalked with
  | refused among hthere hsize => exact absurd (hopen _ hthere) (Nat.not_lt.mpr hsize)
  | @listed met once exact short =>
    have hisdir : w.disk.isDirectory p = true := Disk.isDirectory_iff.mpr ⟨place, hfind, hdir⟩
    obtain ⟨found, ascending, hexact, horder, hknown⟩ :=
      exists_orderPaths (p := p) hd hdir once fun names => by rw [exact, true_and]
    have hcollect : (collect p).Returns w (found.map p.descend) w :=
      returns_collect.mpr ⟨⟨_, hbelow, horder.symm⟩, rfl⟩
    exact ⟨found, loadsInOrder_of_collected hisdir ascending hexact hcollect hknown⟩

/-- A directory and a file of which one is named like the other with an extension, files that are hidden
and one that is no catalog. -/
def mixedDisk : Disk :=
  ⟨[(["cat"], .directory), (["cat", "a.json"], .file "\x7b\x7d".toUTF8), (["cat", "a"], .directory),
    (["cat", "a", "b.YML"], .file "\x7b\x7d".toUTF8), (["cat", "a", ".json"], .file .empty),
    (["cat", "notes.txt"], .file .empty)], []⟩

theorem openable_mixed : mixedDisk.Openable ⟨"cat"⟩ ["cat"] := by
  intro names hthere
  rw [Disk.get?, if_neg (by simp),
    Disk.lookup_eq_some_iff_mem (by decide +kernel : mixedDisk.Sound).distinct] at hthere
  have hall : ∀ x ∈ mixedDisk.entries, x.2 = .directory →
      (Path.descend ⟨"cat"⟩ (x.1.drop 1)).text.utf8ByteSize < Disk.pathLimit := by decide +kernel
  exact hall _ hthere rfl

theorem loads_mixed_in_order :
    ∃ found, LoadsInOrder ⟨mixedDisk, []⟩ ⟨"cat"⟩ ["cat"] found ∧ ["a", "b.YML"] ∈ found := by
  have hfind : mixedDisk.find ⟨"cat"⟩ = .ok ["cat"] := by decide +kernel
  have hname : IsCatalogName "b.YML" :=
    ⟨"b", "YML", by decide, by decide, "yml", by decide, by decide⟩
  obtain ⟨found, h⟩ := (load_directory_in_order (w := ⟨mixedDisk, []⟩) (by decide +kernel) hfind rfl
    fun l _ => Disk.unlinked_of_noLinks rfl l).1 openable_mixed
  exact ⟨found, h, (h.exact _).mpr ⟨⟨_, rfl⟩, "b.YML", rfl, hname⟩⟩

/-! ## A directory that is too deep -/

/-- Directories of one name, one inside the other, and nothing else. -/
def nestedDisk (name : String) (levels : Nat) : Disk :=
  ⟨(List.range levels).map fun k => ("cat" :: List.replicate k name, .directory), []⟩

section
variable {name : String} {levels : Nat}

theorem nodup_nestedDisk : ((nestedDisk name levels).entries.map (·.1)).Nodup := by
  rw [nestedDisk, List.map_map]
  refine List.Nodup.map (fun a b hab => ?_) List.nodup_range
  simpa using congrArg List.length hab

theorem get?_nestedDisk {l : Location} {e : Entry} (hl : l ≠ []) :
    (nestedDisk name levels).get? l = some e ↔
      ∃ k < levels, l = "cat" :: List.replicate k name ∧ e = .directory := by
  rw [Disk.get?, if_neg hl, Disk.lookup_eq_some_iff_mem nodup_nestedDisk]
  simp [nestedDisk, eq_comm]

theorem sound_nestedDisk (h : Disk.IsStorable name) : (nestedDisk name levels).Sound := by
  refine Disk.sound_iff.mpr ⟨nodup_nestedDisk, fun x hx => ?_⟩
  obtain ⟨k, hk, rfl⟩ := List.mem_map.mp hx
  rw [List.mem_range] at hk
  cases k with
  | zero =>
    show (nestedDisk name levels).isPlaced ([] ++ ["cat"]) = true
    exact Disk.isPlaced_append_singleton.mpr ⟨Disk.get?_top _, by decide⟩
  | succ k =>
    rw [List.replicate_succ', ← List.cons_append]
    exact Disk.isPlaced_append_singleton.mpr
      ⟨(get?_nestedDisk (by simp)).mpr ⟨k, by omega, rfl, rfl⟩, h⟩

theorem noLinks_nestedDisk : (nestedDisk name levels).noLinks = true := by
  simp [Disk.noLinks, nestedDisk]

theorem not_hasFile_nestedDisk (names : List String) :
    ¬ (nestedDisk name levels).HasFile ("cat" :: names) := by
  rintro ⟨content, hfile⟩
  obtain ⟨k, -, -, he⟩ := (get?_nestedDisk (by simp)).mp hfile
  cases he

theorem not_openable_nestedDisk (h : Disk.IsStorable name)
    (hlong : Disk.pathLimit ≤ levels * name.utf8ByteSize) :
    ¬ (nestedDisk name (levels + 1)).Openable ⟨"cat"⟩ ["cat"] := by
  intro hopen
  have hshort := hopen (List.replicate levels name)
    ((get?_nestedDisk (by simp)).mpr ⟨levels, by omega, rfl, rfl⟩)
  have hnames : ∀ other ∈ List.replicate levels name,
      Path.IsEntryName other ∧ name.utf8ByteSize ≤ other.utf8ByteSize := by
    intro other hother
    obtain rfl := List.eq_of_mem_replicate hother
    exact ⟨h.toIsEntryName, Nat.le_refl _⟩
  have hsize := Path.le_utf8ByteSize_descend ⟨"cat"⟩ hnames
  rw [List.length_replicate] at hsize
  omega

end

/-- A name that can be stored. -/
def longName : String := String.ofList (List.replicate 250 'a')

theorem isStorable_longName : Disk.IsStorable longName := by
  have hall : ∀ {n : Nat} {c : Char}, c ∈ (String.ofList (List.replicate n 'a')).toList → c = 'a' := by
    intro n c hc
    rw [String.toList_ofList] at hc
    exact List.eq_of_mem_replicate hc
  exact ⟨⟨fun h => absurd (hall h) (by decide), by decide +kernel, by decide +kernel⟩,
    by decide +kernel, fun h => absurd (hall h) (by decide)⟩

/-- Seventeen long names do not fit into a path: no file is there that could be loaded or not, and yet
the directory is not loaded. -/
theorem too_deep_to_collect :
    (nestedDisk longName 18).Sound ∧ (nestedDisk longName 18).find ⟨"cat"⟩ = .ok ["cat"] ∧
      (nestedDisk longName 18).get? ["cat"] = some .directory ∧
      (nestedDisk longName 18).noLinks = true ∧
      (∀ names, ¬ (nestedDisk longName 18).HasFile (["cat"] ++ names)) ∧
      ¬ (∃ found, LoadsInOrder ⟨nestedDisk longName 18, []⟩ ⟨"cat"⟩ ["cat"] found) ∧
      ∃ f, (collect ⟨"cat"⟩).Fails ⟨nestedDisk longName 18, []⟩ f ⟨nestedDisk longName 18, []⟩ ∧
        (load ⟨"cat"⟩).Fails ⟨nestedDisk longName 18, []⟩ f ⟨nestedDisk longName 18, []⟩ := by
  have hsound : (nestedDisk longName 18).Sound := sound_nestedDisk isStorable_longName
  have hfind : (nestedDisk longName 18).find ⟨"cat"⟩ = .ok ["cat"] := by decide +kernel
  have hdir : (nestedDisk longName 18).get? ["cat"] = some .directory := by decide +kernel
  obtain ⟨names, -, -, hcollect, hload⟩ :=
    fails_of_not_openable (w := ⟨nestedDisk longName 18, []⟩) hsound hfind hdir
      (fun l _ => Disk.unlinked_of_noLinks noLinks_nestedDisk l)
      (not_openable_nestedDisk isStorable_longName (by decide +kernel))
  exact ⟨hsound, hfind, hdir, noLinks_nestedDisk, not_hasFile_nestedDisk,
    fun ⟨_, h⟩ => absurd hcollect h.collected.not_fails, _, hcollect, hload⟩

end StubListing.Catalog
