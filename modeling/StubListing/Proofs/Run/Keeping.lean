import StubListing.Proofs.Disk.Rebuilding
import StubListing.Proofs.Run.Reporting
import StubListing.Proofs.Run.Unheeded
/-!
# Stubs that were edited

Of a stub of the previous run that was edited since, the log says that it is kept, and clearing away
does keep it. What comes later in the run does not know of this: the file is still as it was afterwards
if no other entry of the old manifest names it as it now is, and if no stub that the run writes comes
out at it.
-/
namespace StubListing.Run
open StubListing.Action StubListing.Catalog StubListing.Stub
open StubListing.Disk (Leads Unlinked Within Remains Rebuilt Furnished)
open StubListing.Path (IsEntryName)

variable {c : Config} {w w' : Workplace} {d base : Disk} {place l : Location} {content : ByteArray}
  {now : Instant} {report : Report} {n : Nat} {p : Path} {e : ManifestEntry} {m : Manifest}

/-! ## What the log says -/

/-- The record for a stub that is kept because it was edited. -/
def keptRecord (p : Path) : Record := ⟨.warn, "Keeping " ++ p.text ++ ": modified since the last run"⟩

/-- The entry is a valid one, and the file at its path has another digest than it tells. -/
structure Edited (c : Config) (d : Disk) (e : ManifestEntry) : Prop where
  ns : Path.isFileName e.ns = true
  className : Path.isFileName e.className = true
  differs : ∃ content, d.content (entryPath c e) = .ok content ∧
    Digest.Sha256.ofBytes content ≠ e.digest

theorem keptRecord_inj {q : Path} (h : keptRecord p = keptRecord q) : p = q := by
  obtain ⟨p⟩ := p
  obtain ⟨q⟩ := q
  have htext := congrArg (fun r : Record => r.text.toList) h
  simp only [keptRecord, String.toList_append, List.append_assoc, List.append_cancel_left_eq,
    List.append_cancel_right_eq] at htext
  rw [String.toList_inj.mp htext]

/-- A text that begins with another letter is not that of a stub that is kept. -/
theorem ne_keptRecord {r : Record} (h : r.text.toList.head? ≠ some 'K') : r ≠ keptRecord p := by
  rintro rfl
  exact h (by simp [keptRecord, String.toList_append])

/-- On the way from one workplace to the other nothing is said of a stub that is kept. -/
def Unsaid (w w' : Workplace) : Prop := ∃ added, w'.log = w.log ++ added ∧ ∀ p, keptRecord p ∉ added

theorem unsaid_of_log_eq (h : w'.log = w.log) : Unsaid w w' :=
  ⟨[], by rw [h, List.append_nil], fun _ => List.not_mem_nil⟩

theorem Unsaid.trans {w₁ : Workplace} (h : Unsaid w w₁) (h' : Unsaid w₁ w') : Unsaid w w' := by
  obtain ⟨first, hlog, hfirst⟩ := h
  obtain ⟨more, hlog', hmore⟩ := h'
  refine ⟨first ++ more, by rw [hlog', hlog, List.append_assoc], fun p hm => ?_⟩
  exact (List.mem_append.mp hm).elim (hfirst p) (hmore p)

theorem unsaid_of_note {level : Level} {text : String} {u : Unit}
    (hret : (note level text).Returns w u w') (h : text.toList.head? ≠ some 'K') : Unsaid w w' := by
  rw [returns_note.mp hret]
  exact ⟨_, rfl, fun p hm => ne_keptRecord h (List.mem_singleton.mp hm).symm⟩

theorem unsaid_of_noteAll {level : Level} {texts : List String} {u : Unit}
    (hret : (noteAll level texts).Returns w u w')
    (h : ∀ text ∈ texts, text.toList.head? ≠ some 'K') : Unsaid w w' := by
  induction texts generalizing w with
  | nil => exact unsaid_of_log_eq (by rw [(returns_pure.mp hret).2])
  | cons text rest ih =>
    rw [List.forall_mem_cons] at h
    obtain ⟨_, w₁, hnote, hrest⟩ := returns_bind.mp hret
    exact (unsaid_of_note hnote h.1).trans (ih hrest h.2)

/-- Removing files is done without a word. -/
theorem log_of_clearFiles {root : Path} (h : (Files.clearFiles root).Returns w n w') :
    w'.log = w.log := by
  obtain ⟨listing, w₁, hlist, hcount⟩ := returns_bind.mp h
  obtain ⟨-, rfl⟩ := Files.returns_children.mp hlist
  have hall : ∀ {paths : List Path} {n : Nat} {w : Workplace},
      (countAll (paths.map Files.removeFile)).Returns w n w' → w'.log = w.log := by
    intro paths
    induction paths with
    | nil =>
      intro n w h
      rw [(returns_pure.mp h).2]
    | cons p rest ih =>
      intro n w h
      obtain ⟨_, w₁, hfirst, h⟩ := returns_bind.mp h
      obtain ⟨k, w₂, hrest, h⟩ := returns_bind.mp h
      obtain ⟨-, rfl⟩ := returns_pure.mp h
      obtain ⟨d, -, rfl⟩ := Files.returns_removeFile.mp hfirst
      rw [ih hrest]
  exact hall hcount

theorem previousManifest_unsaid {previous : Option Manifest}
    (h : (previousManifest c).Returns w previous w') : Unsaid w w' := by
  obtain ⟨d, w₁, hdisk, hrest⟩ := returns_bind.mp h
  obtain ⟨rfl, rfl⟩ := returns_disk.mp hdisk
  obtain ⟨result, hload, -⟩ := exists_ending_load (c.outputRoot.join Manifest.fileName) w₁
  split at hrest
  · rcases returns_tryCatch.mp hrest with hfound | ⟨f, w₂, hfail, hnote⟩
    · obtain ⟨m, w₂, hm, hpure⟩ := returns_bind.mp hfound
      obtain ⟨rfl, rfl⟩ := returns_pure.mp hpure
      rw [Returns, hload] at hm
      cases hm
      exact unsaid_of_log_eq rfl
    · obtain ⟨_, w₃, hwarn, hpure⟩ := returns_bind.mp hnote
      obtain ⟨rfl, rfl⟩ := returns_pure.mp hpure
      rcases fails_bind.mp hfail with hm | ⟨m, w₄, -, hpure⟩
      · rw [Fails, hload] at hm
        cases hm
        exact unsaid_of_note hwarn (by simp [String.toList_append])
      · exact absurd hpure fails_pure
  · obtain ⟨rfl, rfl⟩ := returns_pure.mp hrest
    exact unsaid_of_log_eq rfl

theorem pruneEntry_log (h : (pruneEntry c e).Returns w n w') :
    ∃ added, w'.log = w.log ++ added ∧
      ∀ p, keptRecord p ∈ added → p = entryPath c e ∧ Edited c w.disk e := by
  unfold pruneEntry at h
  cases ht : entryTarget c e with
  | error f =>
    rw [ht] at h
    obtain ⟨_, w₁, hwarn, hpure⟩ := returns_bind.mp h
    obtain ⟨-, rfl⟩ := returns_pure.mp hpure
    obtain ⟨added, hlog, hunsaid⟩ := unsaid_of_note hwarn (by simp [String.toList_append])
    exact ⟨added, hlog, fun p hm => absurd hm (hunsaid p)⟩
  | ok q =>
    rw [ht] at h
    obtain ⟨hns, hname, rfl⟩ := entryTarget_eq ht
    obtain ⟨d, w₁, hdisk, hrest⟩ := returns_bind.mp h
    obtain ⟨rfl, rfl⟩ := returns_disk.mp hdisk
    split at hrest
    · obtain ⟨digest, w₂, hdigest, hact⟩ := returns_bind.mp hrest
      obtain ⟨content, hread, rfl, rfl⟩ := Files.returns_digestOf.mp hdigest
      split at hact
      · obtain ⟨_, w₃, hremove, hpure⟩ := returns_bind.mp hact
        obtain ⟨-, rfl⟩ := returns_pure.mp hpure
        obtain ⟨d, -, rfl⟩ := Files.returns_removeFile.mp hremove
        exact ⟨[], (List.append_nil _).symm, fun p hm => absurd hm List.not_mem_nil⟩
      · rename_i hdiff
        obtain ⟨_, w₃, hwarn, hpure⟩ := returns_bind.mp hact
        obtain ⟨-, rfl⟩ := returns_pure.mp hpure
        rw [returns_note.mp hwarn]
        refine ⟨_, rfl, fun p hm => ?_⟩
        exact ⟨keptRecord_inj (List.mem_singleton.mp hm), hns, hname, content, hread, hdiff⟩
    · obtain ⟨-, rfl⟩ := returns_pure.mp hrest
      exact ⟨[], (List.append_nil _).symm, fun p hm => absurd hm List.not_mem_nil⟩

theorem pruneNamespace_unsaid {ns : String} (h : (pruneNamespace c ns).Returns w n w') :
    Unsaid w w' := by
  unfold pruneNamespace at h
  split at h
  · obtain ⟨-, rfl⟩ := returns_pure.mp h
    exact unsaid_of_log_eq rfl
  · obtain ⟨d, w₁, hdisk, hrest⟩ := returns_bind.mp h
    obtain ⟨rfl, rfl⟩ := returns_disk.mp hdisk
    split at hrest
    · obtain ⟨listing, w₂, hlist, hact⟩ := returns_bind.mp hrest
      obtain ⟨-, rfl⟩ := Files.returns_children.mp hlist
      split at hact
      · obtain ⟨_, w₃, hremove, hpure⟩ := returns_bind.mp hact
        obtain ⟨-, rfl⟩ := returns_pure.mp hpure
        obtain ⟨d, -, rfl⟩ := Files.returns_removeDirectory.mp hremove
        exact unsaid_of_log_eq rfl
      · obtain ⟨_, w₃, hwarn, hpure⟩ := returns_bind.mp hact
        obtain ⟨-, rfl⟩ := returns_pure.mp hpure
        rw [returns_note.mp hwarn]
        refine ⟨_, rfl, fun p hm => ?_⟩
        -- both records begin with the same word, but they end differently
        have hlast := congrArg (fun r : Record => r.text.toList.getLast?) (List.mem_singleton.mp hm)
        have hrun : ": modified since the last run".toList.getLast? = some 'n' := by decide
        have htool : ": contains files not written by this tool".toList.getLast? = some 'l' := by decide
        simp only [keptRecord, String.toList_append, List.getLast?_append, hrun, htool,
          Option.some_or, Option.some.injEq] at hlast
        exact absurd hlast (by decide)
    · obtain ⟨-, rfl⟩ := returns_pure.mp hrest
      exact unsaid_of_log_eq rfl

theorem pruneNamespaces_unsaid {names : List String}
    (h : (sumOf (names.map (pruneNamespace c))).Returns w n w') : Unsaid w w' := by
  induction names generalizing w n with
  | nil =>
    obtain ⟨-, rfl⟩ := returns_pure.mp h
    exact unsaid_of_log_eq rfl
  | cons ns rest ih =>
    obtain ⟨k, w₁, hfirst, h⟩ := returns_bind.mp h
    obtain ⟨m, w₂, hrest, h⟩ := returns_bind.mp h
    obtain ⟨-, rfl⟩ := returns_pure.mp h
    exact (pruneNamespace_unsaid hfirst).trans (ih hrest)

/-! ## Clearing the root, wherever its path leads through -/

/-- Names directly in the directory are gone, and nothing else is. -/
structure Swept (place : Location) (names : List String) (d d' : Disk) : Prop where
  within : Within d d'
  gone : ∀ name ∈ names, d'.get? (place ++ [name]) = none
  apart : ∀ {l}, Apart place l → d'.get? l = d.get? l

theorem removeFiles_sweep {root : Path} (hroot : Leads d root place) (hd : Within d w.disk)
    {names : List String} (hnames : ∀ name ∈ names, IsEntryName name)
    (h : (countAll (names.map fun name => Files.removeFile (root.join name))).Returns w n w') :
    Swept place names w.disk w'.disk := by
  induction names generalizing w n with
  | nil =>
    obtain ⟨-, rfl⟩ := returns_pure.mp h
    exact ⟨.refl _, fun _ hm => absurd hm List.not_mem_nil, fun _ => rfl⟩
  | cons name rest ih =>
    rw [List.forall_mem_cons] at hnames
    obtain ⟨_, w₁, hfirst, h⟩ := returns_bind.mp h
    obtain ⟨k, w₂, hrest, h⟩ := returns_bind.mp h
    obtain ⟨-, rfl⟩ := returns_pure.mp h
    obtain ⟨after, hcall, rfl⟩ := Files.returns_removeFile.mp hfirst
    obtain ⟨found, hfound, rfl⟩ := Disk.removeFile_join hnames.1 hcall
    obtain rfl := (hfound.within hd).unique hroot
    have hget := fun l => Disk.get?_drop w.disk (found ++ [name]) l (by simp)
    have hmore := ih (hd.drop (by simp)) hnames.2 hrest
    have hwithin := ((Within.refl w.disk).drop (by simp)).trans hmore.within
    refine ⟨hwithin, fun other hm => ?_, fun {l} hl => ?_⟩
    · rcases List.mem_cons.mp hm with rfl | hm
      · rw [Option.eq_none_iff_forall_ne_some]
        intro e he
        have hfront := hmore.within.entry he
        rw [hget, if_pos rfl] at hfront
        cases hfront
      · exact hmore.gone other hm
    · rw [hmore.apart hl, hget, if_neg (hl name)]

/-- After clearing, only directories are left directly in the root. -/
theorem clearFiles_sweeps {root : Path} (hd : w.disk.Sound) (hroot : Leads w.disk root place)
    (hcheck : Disk.checkPath root = .ok ()) (h : (Files.clearFiles root).Returns w n w') :
    Within w.disk w'.disk ∧
      (∀ name e, w'.disk.get? (place ++ [name]) = some e → e = .directory) ∧
      ∀ {l}, Apart place l → w'.disk.get? l = w.disk.get? l := by
  obtain ⟨listing, w₁, hlist, h⟩ := returns_bind.mp h
  obtain ⟨hlisting, rfl⟩ := Files.returns_children.mp hlist
  rw [hroot.listing_eq hcheck] at hlisting
  cases hlisting
  let loose := (w₁.disk.children place).filter fun x => x.2 != .directory
  have hnames : ∀ name ∈ loose.map (·.1), IsEntryName name := by
    intro name hm
    obtain ⟨x, hx, rfl⟩ := List.mem_map.mp hm
    exact (hd.named (hd.mem_children.mp (List.mem_of_mem_filter hx))).toIsEntryName
  have hactions : (loose.map fun x => root.join x.1).map Files.removeFile =
      (loose.map (·.1)).map fun name => Files.removeFile (root.join name) := by
    simp only [List.map_map]
    rfl
  have hswept := removeFiles_sweep hroot (.refl _) hnames (hactions ▸ h)
  refine ⟨hswept.within, fun name e he => ?_, hswept.apart⟩
  by_contra hfile
  have hbefore := hd.mem_children.mpr (hswept.within.entry he)
  have hloose : (name, e) ∈ loose := List.mem_filter.mpr ⟨hbefore, by simpa using hfile⟩
  rw [hswept.gone name (List.mem_map_of_mem hloose)] at he
  cases he

/-! ## What is left while the previous run is cleared away -/

/-- The file is still there, and nothing was taken away that was on the way to a directory. -/
structure Kept (base : Disk) (l : Location) (content : ByteArray) (d : Disk) : Prop
    extends Remains base l content d where
  rebuilt : Rebuilt base d

theorem kept_self (h : base.get? l = some (.file content)) : Kept base l content base :=
  ⟨Disk.remains_self h, .refl base⟩

/-- An entry that matches condemns the file in the directory that it is removed from. Links directly in the
root would have gone before, so the path of an entry has no link on its way but perhaps the last name. -/
theorem condemns_of_matches (hc : c.Valid) {house : Location}
    (hroot : ∀ {root : Location}, Leads base c.outputRoot root → root = place)
    (hlinks : ∀ name, Unlinked base (place ++ [name])) (hwithin : Within base d)
    (hmatches : Matches c d e) (hhouse : Leads d (c.outputRoot.join e.ns) house)
    (hfile : d.get? (house ++ [entryName c e]) = some (.file content)) :
    Condemns c base place e (house ++ [entryName c e]) := by
  have hns := Path.isEntryName_of_isFileName hmatches.ns
  have hname := isEntryName_entryName hc hmatches.className
  obtain ⟨root, hfront⟩ := Disk.leads_of_reaches_join hns hhouse.walk
  obtain rfl := hroot (hfront.within hwithin)
  have hplace := (hfront.within hwithin).child_eq hns (hlinks e.ns) (hhouse.within hwithin)
  obtain ⟨content', hread, hdigest⟩ := hmatches.same
  obtain ⟨found, hfound, hgot⟩ := Disk.content_eq_ok.mp hread
  obtain rfl := hhouse.find_child_eq hname (Disk.unlinked_of_file hfile) hfound
  exact ⟨hmatches.ns, hmatches.className, by rw [hplace], (Disk.find_eq_ok.mp hfound).1, content',
    hwithin.entry hgot, hdigest⟩

/-- An entry takes a file away only if it condemns it. -/
theorem pruneEntry_keeps (hc : c.Valid) (hroot : Leads base c.outputRoot place)
    (hlinks : ∀ name, Unlinked base (place ++ [name])) (hno : ¬ Condemns c base place e l)
    (h : Kept base l content w.disk) (hret : (pruneEntry c e).Returns w n w') :
    Kept base l content w'.disk := by
  rcases pruneEntry_cases hret with ⟨hmatches, hremove⟩ | ⟨-, hsame⟩
  · have hname := isEntryName_entryName hc hmatches.className
    obtain ⟨content', hread, -⟩ := hmatches.same
    obtain ⟨found, hfound, hfile⟩ := Disk.content_eq_ok.mp hread
    obtain ⟨d, hcall, rfl⟩ := Files.returns_removeFile.mp hremove
    obtain ⟨house, hhouse, rfl⟩ := Disk.removeFile_join hname hcall
    have hspent := (hhouse.spent hname hfound hfile).within h.within
    refine ⟨h.toRemains.drop (by simp) ?_, h.rebuilt.drop (by simp) fun _ _ => hspent⟩
    rintro rfl
    exact hno (condemns_of_matches hc (fun hlead => hlead.unique hroot) hlinks h.within hmatches hhouse
      h.there)
  · rw [hsame]
    exact h

theorem pruneNamespace_keeps {ns : String} (h : Kept base l content w.disk)
    (hret : (pruneNamespace c ns).Returns w n w') : Kept base l content w'.disk := by
  rcases pruneNamespace_cases hret with ⟨-, hremove⟩ | ⟨-, hsame⟩
  · obtain ⟨d, hcall, rfl⟩ := Files.returns_removeDirectory.mp hremove
    refine ⟨h.toRemains.removeDirectory hcall, ?_⟩
    obtain ⟨directory, name, hdir, rfl⟩ := Disk.removeDirectory_ok hcall
    exact h.rebuilt.drop (by simp) fun target hlink => absurd hlink (Disk.unlinked_of_directory hdir target)
  · rw [hsame]
    exact h

/-- What each of the actions keeps, they keep together. -/
theorem sumOf_keeps {ι : Type} {P : Disk → Prop} {f : ι → Action Nat} {items : List ι}
    (hkeep : ∀ i ∈ items, ∀ {w w' n}, P w.disk → (f i).Returns w n w' → P w'.disk) (h : P w.disk)
    (hret : (sumOf (items.map f)).Returns w n w') : P w'.disk := by
  induction items generalizing w n with
  | nil =>
    obtain ⟨-, rfl⟩ := returns_pure.mp hret
    exact h
  | cons i rest ih =>
    obtain ⟨k, w₁, hfirst, hret⟩ := returns_bind.mp hret
    obtain ⟨m, w₂, hrest, hret⟩ := returns_bind.mp hret
    obtain ⟨-, rfl⟩ := returns_pure.mp hret
    exact ih (fun j hj => hkeep j (List.mem_cons_of_mem _ hj))
      (hkeep i List.mem_cons_self h hfirst) hrest

theorem prune_keeps (hc : c.Valid) (hroot : Leads base c.outputRoot place)
    (hlinks : ∀ name, Unlinked base (place ++ [name]))
    (hno : ∀ e ∈ m.entries, ¬ Condemns c base place e l) (h : Kept base l content w.disk)
    {removed : Removed} (hret : (prune c m).Returns w removed w') : Kept base l content w'.disk := by
  obtain ⟨files, w₁, hentries, hret⟩ := returns_bind.mp hret
  obtain ⟨directories, w₂, hnames, hret⟩ := returns_bind.mp hret
  obtain ⟨-, rfl⟩ := returns_pure.mp hret
  refine sumOf_keeps (fun ns _ => pruneNamespace_keeps) ?_ hnames
  exact sumOf_keeps (fun e he => pruneEntry_keeps hc hroot hlinks (hno e he)) h hentries

/-- What is left is within what was there. -/
theorem pruneEntry_within (h : Within base w.disk) (hc : c.Valid)
    (hret : (pruneEntry c e).Returns w n w') : Within base w'.disk := by
  rcases pruneEntry_cases hret with ⟨hmatches, hremove⟩ | ⟨-, hsame⟩
  · obtain ⟨d, hcall, rfl⟩ := Files.returns_removeFile.mp hremove
    obtain ⟨house, -, rfl⟩ := Disk.removeFile_join (isEntryName_entryName hc hmatches.className) hcall
    exact h.drop (by simp)
  · rw [hsame]
    exact h

/-- When the log says that a stub is kept, its path comes out at a file with another digest than the
entry tells, in what is left of the root by then. -/
theorem pruneEntries_log (hc : c.Valid) {entries : List ManifestEntry} (h : Within base w.disk)
    (hret : (sumOf (entries.map (pruneEntry c))).Returns w n w') :
    ∃ added, w'.log = w.log ++ added ∧ ∀ p, keptRecord p ∈ added →
      ∃ e ∈ entries, p = entryPath c e ∧ ∃ d, Within base d ∧ Edited c d e := by
  induction entries generalizing w n with
  | nil =>
    obtain ⟨-, rfl⟩ := returns_pure.mp hret
    exact ⟨[], (List.append_nil _).symm, fun p hm => absurd hm List.not_mem_nil⟩
  | cons e rest ih =>
    obtain ⟨k, w₁, hfirst, hret⟩ := returns_bind.mp hret
    obtain ⟨m, w₂, hrest, hret⟩ := returns_bind.mp hret
    obtain ⟨-, rfl⟩ := returns_pure.mp hret
    obtain ⟨first, hlog, hsaid⟩ := pruneEntry_log hfirst
    obtain ⟨more, hlog', hmore⟩ := ih (pruneEntry_within h hc hfirst) hrest
    refine ⟨first ++ more, by rw [hlog', hlog, List.append_assoc], fun p hm => ?_⟩
    rcases List.mem_append.mp hm with hm | hm
    · obtain ⟨rfl, hedited⟩ := hsaid p hm
      exact ⟨e, List.mem_cons_self, rfl, _, h, hedited⟩
    · obtain ⟨e', he', hrest⟩ := hmore p hm
      exact ⟨e', List.mem_cons_of_mem _ he', hrest⟩

theorem prune_log (hc : c.Valid) {removed : Removed} (hret : (prune c m).Returns w removed w') :
    ∃ added, w'.log = w.log ++ added ∧ ∀ p, keptRecord p ∈ added →
      ∃ e ∈ m.entries, p = entryPath c e ∧ ∃ d, Within w.disk d ∧ Edited c d e := by
  obtain ⟨files, w₁, hentries, hret⟩ := returns_bind.mp hret
  obtain ⟨directories, w₂, hnames, hret⟩ := returns_bind.mp hret
  obtain ⟨-, rfl⟩ := returns_pure.mp hret
  obtain ⟨first, hlog, hsaid⟩ := pruneEntries_log hc (.refl _) hentries
  obtain ⟨more, hlog', hmore⟩ := pruneNamespaces_unsaid hnames
  refine ⟨first ++ more, by rw [hlog', hlog, List.append_assoc], fun p hm => ?_⟩
  exact hsaid p ((List.mem_append.mp hm).resolve_right (hmore p))

/-! ## Writing -/

/-- A job changes no more at a location than that a directory may be made there, or it wrote a stub that
comes out at it. -/
theorem job_furnishes (j : Job) (d : Disk) (l : Location) : Furnished l d (j.run d).2 ∨
    ∃ x, (j.run d).1 = .ok x ∧ (j.run d).2.find x.path = .ok l := by
  unfold Job.run
  cases hpath : j.path with
  | error f => exact Or.inl (Or.inl rfl)
  | ok path =>
    dsimp only
    have hhoused : Furnished l d _ := Disk.furnished_provide d (j.root.join j.ns)
    rcases hfirst : Files.provide d (j.root.join j.ns) with ⟨_ | _, d₁⟩
    all_goals rw [hfirst] at hhoused
    · exact Or.inl hhoused
    · dsimp only
      rcases hcall : Files.openFile d₁ path with ⟨f | found, d₂⟩
      all_goals have hopened := Disk.openFile_furnishes (l := l) hcall
      · rcases hopened with ⟨hfurnished, -⟩ | ⟨hsame, -⟩
        · exact Or.inl (hhoused.trans hfurnished)
        · cases hsame
      · rcases hopened with ⟨hfurnished, hother⟩ | ⟨hsame, hfind⟩
        · have hwritten := Disk.furnished_write (d := d₂) (hother found rfl) j.text.toUTF8
          exact Or.inl ((hhoused.trans hfurnished).trans hwritten)
        · obtain rfl := Except.ok.inj hsame
          have hlasts : Disk.LastsAll d₂ (d₂.write found j.text.toUTF8) := Disk.lasts_write _ _ _
          exact Or.inr ⟨_, rfl, hlasts.find hfind⟩

theorem renderAll_furnishes (c : Config) (plan : List Planned) (d : Disk) (l : Location) :
    Furnished l d (renderAll c plan d).2 ∨
      ∃ x, Except.ok x ∈ (renderAll c plan d).1 ∧ (renderAll c plan d).2.find x.path = .ok l := by
  induction plan generalizing d with
  | nil => exact Or.inl (Or.inl rfl)
  | cons planned rest ih =>
    cases planned with
    | error f => exact (ih d).imp id fun ⟨x, hx, hfind⟩ => ⟨x, List.mem_cons_of_mem _ hx, hfind⟩
    | ok s =>
      rcases job_furnishes (jobOf c s) d l with hfurnished | ⟨x, hx, hfind⟩
      · exact (ih _).imp hfurnished.trans fun ⟨x, hx, hfind⟩ => ⟨x, List.mem_cons_of_mem _ hx, hfind⟩
      · have hlasts : Disk.LastsAll ((jobOf c s).run d).2 (renderAll c rest ((jobOf c s).run d).2).2 :=
          renderAll_lasts rest _
        have hmem := (Job.outcome_eq_ok (j := jobOf c s)).mpr hx
        exact Or.inr ⟨x, List.mem_cons.mpr (Or.inl hmem.symm), hlasts.find hfind⟩

/-- A file is as it was after the stubs are written, or one of them comes out at it. -/
theorem renderAll_keeps_or_writes (plan : List Planned) (h : d.get? l = some (.file content)) :
    (renderAll c plan d).2.get? l = some (.file content) ∨
      ∃ x, Except.ok x ∈ (renderAll c plan d).1 ∧ (renderAll c plan d).2.find x.path = .ok l :=
  (renderAll_furnishes c plan d l).imp (fun hfurnished => hfurnished.file h) id

theorem renderAll_rebuilt (plan : List Planned) (h : Rebuilt base d) :
    Rebuilt base (renderAll c plan d).2 := by
  refine renderAll_keeps h fun s _ d hd => ?_
  refine Job.run_keeps hd (fun _ h => h.provide _) fun path _ d result d' h hopen => ?_
  exact ⟨h.openFile hopen, fun place _ => (h.openFile hopen).write _ _⟩

/-- The new manifest goes directly into the root, and the root is still where it was. -/
theorem record_keeps (hroot : Leads base c.outputRoot place)
    (hlink : Unlinked base (place ++ [Manifest.fileName])) (hapart : Apart place l)
    (hr : Rebuilt base w.disk) (h : w.disk.get? l = some (.file content)) {module : String}
    {written : List Written} {failures : List Failed} {told : Option Path}
    (hret : (record c now module written failures).Returns w told w') :
    w'.disk.get? l = some (.file content) := by
  unfold record at hret
  split at hret
  · obtain ⟨_, w₁, hsave, hpure⟩ := returns_bind.mp hret
    obtain ⟨-, rfl⟩ := returns_pure.mp hpure
    obtain ⟨w₂, hwrite, hsame⟩ := Manifest.returns_save hsave
    obtain ⟨opened, d, hopen, rfl⟩ := Files.returns_writeText.mp hwrite
    rw [hsame]
    rcases Disk.openFile_furnishes (l := l) hopen with ⟨hfurnished, hother⟩ | ⟨-, hfind⟩
    · exact (hfurnished.trans (Disk.furnished_write (hother opened rfl) _)).file h
    · have hopened := hr.openFile hopen
      obtain ⟨place', hplace'⟩ := Disk.leads_of_find_join isEntryName_manifest hfind
      obtain rfl := hopened.leads_eq hroot hplace'
      have hunlinked : Unlinked d (place ++ [Manifest.fileName]) :=
        fun target ht => hlink target (hopened.link ht)
      exact absurd (hplace'.find_child_eq isEntryName_manifest hunlinked hfind) (hapart _)
  · obtain ⟨-, rfl⟩ := returns_pure.mp hret
    exact h

theorem record_unsaid {module : String} {written : List Written} {failures : List Failed}
    {told : Option Path} (hret : (record c now module written failures).Returns w told w') :
    Unsaid w w' := by
  unfold record at hret
  split at hret
  · obtain ⟨_, w₁, hsave, hpure⟩ := returns_bind.mp hret
    obtain ⟨-, rfl⟩ := returns_pure.mp hpure
    obtain ⟨_, w₂, hwrite, hnote⟩ := returns_bind.mp hsave
    obtain ⟨opened, d, -, rfl⟩ := Files.returns_writeText.mp hwrite
    have hwritten := unsaid_of_note hnote (by simp [String.toList_append])
    exact (unsaid_of_log_eq rfl).trans hwritten
  · obtain ⟨-, rfl⟩ := returns_pure.mp hret
    exact unsaid_of_log_eq rfl

/-! ## The run -/

/-- What is said of stubs that are kept is said while the root is prepared. -/
theorem generate_unsaid {doc : Document} (h : (generate c now doc).Returns w report w') :
    ∃ m, ∃ parts : Parts c now m w report w', Unsaid w parts.started ∧ Unsaid parts.prepared w' := by
  unfold generate at h
  cases hm : doc.require c.module with
  | error f =>
    rw [hm] at h
    exact absurd h returns_fail
  | ok m =>
    rw [hm] at h
    obtain ⟨_, w₀, hname, h⟩ := returns_bind.mp h
    obtain ⟨_, w₁, hnote, h₁⟩ := returns_bind.mp h
    obtain ⟨removed, w₂, hprepare, h₂⟩ := returns_bind.mp h₁
    obtain ⟨outcomes, w₃, hrender, h₃⟩ := returns_bind.mp h₂
    obtain ⟨_, w₄, hwarn, h₄⟩ := returns_bind.mp h₃
    obtain ⟨told, w₅, hrecord, h₅⟩ := returns_bind.mp h₄
    obtain ⟨_, w₆, hend, h₆⟩ := returns_bind.mp h₅
    obtain ⟨rfl, rfl⟩ := returns_pure.mp h₆
    obtain ⟨rfl, rfl⟩ := returns_render.mp hrender
    have hfront := (unsaid_of_note hname (by simp [String.toList_append])).trans
      (unsaid_of_note hnote (by simp [String.toList_append]))
    have hwarned := unsaid_of_noteAll hwarn (by simp [String.toList_append])
    have hback := hwarned.trans ((record_unsaid hrecord).trans
      (unsaid_of_note hend (by simp [String.toList_append])))
    have hstart : w₁.disk = w.disk := (disk_of_note hnote).trans (disk_of_note hname)
    exact ⟨m, ⟨w₂, w₄, w₅, w₁, hstart, hprepare, disk_of_noteAll hwarn, rfl, rfl, hrecord,
      disk_of_note hend, rfl, rfl, rfl⟩, hfront, hback⟩

/-- Either nothing is said of stubs that are kept, or the files directly in the root are cleared and then
what the previous run wrote. -/
theorem prepare_cases {removed : Removed} (h : (prepare c).Returns w removed w') :
    (w.disk.isDirectory c.outputRoot = true → heeded c w.disk = none) ∧ Unsaid w w' ∨
      ∃ m w₁ w₂ cleared pruned, heeded c w.disk = some m ∧
      w.disk.isDirectory c.outputRoot = true ∧ w₁.disk = w.disk ∧ Unsaid w w₂ ∧
      (Files.clearFiles c.outputRoot).Returns w₁ cleared w₂ ∧ (prune c m).Returns w₂ pruned w' := by
  obtain ⟨d, w₀, hdisk, hrest⟩ := returns_bind.mp h
  obtain ⟨rfl, rfl⟩ := returns_disk.mp hdisk
  split at hrest
  · rename_i hdir
    have hlooked : ∃ w₁, w₁.disk = w₀.disk ∧ Unsaid w₀ w₁ ∧
        (clear c (heeded c w₀.disk)).Returns w₁ removed w' := by
      unfold heeded
      dsimp only at hrest
      split at hrest
      · rename_i hprune
        obtain ⟨previous, w₁, hprevious, hclear⟩ := returns_bind.mp hrest
        obtain ⟨hsame, rfl⟩ := returns_previousManifest hprevious
        rw [if_pos hprune]
        exact ⟨w₁, hsame, previousManifest_unsaid hprevious, hclear⟩
      · rename_i hkeep
        obtain ⟨previous, w₁, hprevious, hclear⟩ := returns_bind.mp hrest
        obtain ⟨rfl, rfl⟩ := returns_pure.mp hprevious
        rw [if_neg hkeep]
        exact ⟨_, rfl, unsaid_of_log_eq rfl, hclear⟩
    obtain ⟨w₁, hsame, hunsaid, hclear⟩ := hlooked
    obtain ⟨cleared, w₂, hfiles, hpruning⟩ := returns_bind.mp hclear
    have hcleared := hunsaid.trans (unsaid_of_log_eq (log_of_clearFiles hfiles))
    cases hm : heeded c w₀.disk with
    | none =>
      rw [hm] at hpruning
      obtain ⟨-, rfl⟩ := returns_pure.mp hpruning
      exact Or.inl ⟨fun _ => rfl, hcleared⟩
    | some m =>
      rw [hm] at hpruning
      obtain ⟨pruned, w₃, hprune, hpure⟩ := returns_bind.mp hpruning
      obtain ⟨-, rfl⟩ := returns_pure.mp hpure
      exact Or.inr ⟨m, w₁, w₂, cleared, pruned, rfl, hdir, hsame, hcleared, hfiles, hprune⟩
  · rename_i hmissing
    obtain ⟨_, w₁, hensure, hpure⟩ := returns_bind.mp hrest
    obtain ⟨-, rfl⟩ := returns_pure.mp hpure
    obtain ⟨d, -, rfl⟩ := returns_carryOut.mp hensure
    exact Or.inl ⟨fun hdir => absurd hdir hmissing, unsaid_of_log_eq rfl⟩

/-- What is said between two stretches in which nothing is. -/
theorem said_between {w₁ w₂ : Workplace} {added : Log} (hfront : Unsaid w w₁)
    (hlog : w₂.log = w₁.log ++ added) (hback : Unsaid w₂ w')
    (h : keptRecord p ∈ w'.log.drop w.log.length) : keptRecord p ∈ added := by
  obtain ⟨front, hf, hno⟩ := hfront
  obtain ⟨back, hb, hno'⟩ := hback
  rw [hb, hlog, hf, List.append_assoc, List.append_assoc, List.drop_left, List.mem_append,
    List.mem_append] at h
  exact (h.resolve_left (hno p)).resolve_right (hno' p)

/-! ## What is kept is said to be -/

/-- On the way from one workplace to the other the log says of a stub that it is kept. -/
def Said (p : Path) (w w' : Workplace) : Prop := ∃ added, w'.log = w.log ++ added ∧ keptRecord p ∈ added

theorem Said.after {w₁ : Workplace} {first : Log} (hlog : w₁.log = w.log ++ first)
    (h : Said p w₁ w') : Said p w w' := by
  obtain ⟨added, hadded, hm⟩ := h
  exact ⟨first ++ added, by rw [hadded, hlog, List.append_assoc], List.mem_append_right _ hm⟩

theorem Said.before {w₁ : Workplace} {last : Log} (h : Said p w w₁)
    (hlog : w'.log = w₁.log ++ last) : Said p w w' := by
  obtain ⟨added, hadded, hm⟩ := h
  exact ⟨added ++ last, by rw [hlog, hadded, List.append_assoc], List.mem_append_left _ hm⟩

theorem pruneEntry_tells (h : Edited c w.disk e) (hret : (pruneEntry c e).Returns w n w') :
    Said (entryPath c e) w w' := by
  obtain ⟨content, hread, hdiff⟩ := h.differs
  have htarget : entryTarget c e = .ok (entryPath c e) := target_eq_ok h.ns h.className
  unfold pruneEntry at hret
  rw [htarget] at hret
  obtain ⟨d, w₁, hdisk, hret⟩ := returns_bind.mp hret
  obtain ⟨rfl, rfl⟩ := returns_disk.mp hdisk
  rw [if_pos (Disk.isFile_eq_content.mpr ⟨content, hread⟩)] at hret
  obtain ⟨digest, w₂, hdigest, hact⟩ := returns_bind.mp hret
  obtain ⟨found, hfound, rfl, rfl⟩ := Files.returns_digestOf.mp hdigest
  rw [hread] at hfound
  cases hfound
  rw [if_neg hdiff] at hact
  obtain ⟨_, w₃, hwarn, hpure⟩ := returns_bind.mp hact
  obtain ⟨-, rfl⟩ := returns_pure.mp hpure
  rw [returns_note.mp hwarn]
  exact ⟨_, rfl, List.mem_singleton_self _⟩

/-- The location that an entry stands for, in a root at that place. -/
def entryPlace (c : Config) (place : Location) (e : ManifestEntry) : Location :=
  place ++ [e.ns] ++ [entryName c e]

/-- A file that was edited still is when another one was taken away. -/
theorem Edited.removes {gone : Location → Prop} {d' : Disk} (h : Edited c d e) (hc : c.Valid)
    (hr : Disk.Removes gone d d') (hd : d.Sound) (hroot : Leads d c.outputRoot place)
    (hroot' : Leads d' c.outputRoot place) (hhouse : Unlinked d (place ++ [e.ns]))
    (hspot : Unlinked d (entryPlace c place e)) (hleft : ¬ gone (entryPlace c place e)) :
    Edited c d' e := by
  have hns := Path.isEntryName_of_isFileName h.ns
  have hname := isEntryName_entryName hc h.className
  obtain ⟨content, hread, hdiff⟩ := h.differs
  obtain ⟨hcheck, hfile⟩ := (hroot.content_grandchild hd hns hname hhouse hspot).mp hread
  refine ⟨h.ns, h.className, content, ?_, hdiff⟩
  refine (hroot'.content_grandchild hr.sound hns hname (hr.unlinked hhouse) (hr.unlinked hspot)).mpr
    ⟨hcheck, hr.get?_eq_some.mpr ⟨hfile, hleft⟩⟩

/-- The log says of an edited stub that it is kept, unless an entry before its own takes it away. -/
theorem pruneEntries_tell (hc : c.Valid) (hr : Ready c w.disk place) {first rest : List ManifestEntry}
    (h : Edited c w.disk e) (hno : ∀ e' ∈ first, ¬ Condemns c w.disk place e' (entryPlace c place e))
    (hret : (sumOf ((first ++ e :: rest).map (pruneEntry c))).Returns w n w') :
    Said (entryPath c e) w w' := by
  induction first generalizing w n with
  | nil =>
    obtain ⟨k, w₁, hfirst, hret⟩ := returns_bind.mp hret
    obtain ⟨m, w₂, hrest, hret⟩ := returns_bind.mp hret
    obtain ⟨-, rfl⟩ := returns_pure.mp hret
    obtain ⟨last, hlog, -⟩ := pruneEntries_log hc (.refl _) hrest
    exact (pruneEntry_tells h hfirst).before hlog
  | cons e' first ih =>
    rw [List.forall_mem_cons] at hno
    obtain ⟨k, w₁, hfirst, hret⟩ := returns_bind.mp hret
    obtain ⟨m, w₂, hrest, hret⟩ := returns_bind.mp hret
    obtain ⟨-, rfl⟩ := returns_pure.mp hret
    have hremoves := pruneEntry_removes hc hr.sound hr.anchored.leads hr.unlinked hfirst
    have hr₁ := hr.removes hremoves fun l => inside_of_condemns
    have hhouse := Disk.inside_child place e.ns
    have hedited := h.removes hc hremoves hr.sound hr.anchored.leads hr₁.anchored.leads
      (hr.unlinked _ hhouse) (hr.unlinked _ (Disk.inside_append hhouse _)) hno.1
    obtain ⟨said, hlog, -⟩ := pruneEntry_log hfirst
    refine (ih hr₁ hedited (fun other hm => ?_) hrest).after hlog
    rw [condemns_congr (hremoves.kept hno.1)]
    exact hno.2 other hm

/-- In a root that can be cleared, the log of a run says of every edited stub that it is kept, if the
directory of its namespace is there and no entry before its own takes it away. -/
theorem generate_tells {doc : Document} (hc : c.Valid) (hcan : Clearable c w.disk place)
    (hm : heeded c w.disk = some m) {first rest : List ManifestEntry}
    (hentries : m.entries = first ++ e :: rest) (h : Edited c w.disk e)
    (hhouse : w.disk.get? (place ++ [e.ns]) = some .directory)
    (hno : ∀ e' ∈ first, ¬ Condemns c w.disk place e' (entryPlace c place e))
    (hrun : (generate c now doc).Returns w report w') : Said (entryPath c e) w w' := by
  obtain ⟨_, parts, ⟨front, hfront, -⟩, ⟨back, hback, -⟩⟩ := generate_unsaid hrun
  refine (Said.after hfront ?_).before hback
  rw [← parts.started_eq] at hcan hm h hhouse hno
  rcases prepare_cases parts.preparing with
    ⟨hnone, -⟩ | ⟨m', w₁, w₂, cleared, pruned, hm', hdir, hsame, ⟨said, hlog, -⟩, hclear, hprune⟩
  · rw [hnone hcan.present] at hm
    cases hm
  · obtain rfl := Option.some.inj (hm'.symm.trans hm)
    obtain ⟨hcheck, -⟩ := Disk.leads_of_isDirectory hdir
    rw [← hsame] at hcan h hhouse hno
    have hremoves := clearFiles_removes hcan.sound hcan.anchored hcheck hclear
    have hready : Ready c w₂.disk place :=
      ⟨hremoves.sound, hcan.anchored.agrees (hremoves.agreesOutside fun l => inside_of_loose),
        unlinked_of_removes hcan.linksLoose (fun _ => id) hremoves⟩
    have hspot : ¬ Loose w₁.disk place (entryPlace c place e) := fun hloose =>
      hloose.1.elim fun name => Disk.grandchild_ne_child _ _ _ _
    have hunlinked : Unlinked w₁.disk (entryPlace c place e) := by
      intro target hlink
      obtain ⟨name, heq⟩ := hcan.linksLoose _ target
        (Disk.inside_append (Disk.inside_child place e.ns) _) hlink
      exact Disk.grandchild_ne_child _ _ _ _ heq
    have hedited := h.removes hc hremoves hcan.sound hcan.anchored.leads hready.anchored.leads
      (Disk.unlinked_of_directory hhouse) hunlinked hspot
    obtain ⟨files, w₃, hfiles, hret⟩ := returns_bind.mp hprune
    obtain ⟨directories, w₄, hnames, hret⟩ := returns_bind.mp hret
    obtain ⟨-, hend⟩ := returns_pure.mp hret
    obtain ⟨last, hlast, -⟩ := pruneNamespaces_unsaid hnames
    rw [hentries] at hfiles
    rw [hend]
    refine ((pruneEntries_tell hc hready hedited (fun e' he' => ?_) hfiles).before hlast).after hlog
    rw [condemns_congr (hremoves.kept hspot)]
    exact hno e' he'

/-! ## Entries for one stub

A root with a stub that was edited, and a manifest of which every entry is for that stub. -/

/-- The entry for a stub of the class, written with that text. -/
def stubEntry (text : String) : ManifestEntry :=
  ⟨"Game", "A", ⟨"Game/A.stub"⟩, Digest.Sha256.ofBytes text.toUTF8, ⟨0, 0, 0⟩⟩

/-- The manifest of a run that wrote these texts. -/
def stubManifest (texts : List String) : Manifest :=
  ⟨⟨⟨2024, 1, 1⟩, 0, 0⟩, "M", [], texts.map stubEntry, [], Manifest.currentVersion⟩

def editedPlace : Location := ["out", "Game", "A.stub"]

/-- The tree with the manifest and with a stub that now has the text "edited". -/
def editedDisk (texts : List String) : Disk :=
  ⟨[(["out"], .directory), (["out", "Game"], .directory), (editedPlace, .file "edited".toUTF8),
    (["out", Manifest.fileName], .file (stubManifest texts).text.toUTF8)], []⟩

variable {texts : List String}

theorem editedDisk_passable : Passable (nextConfig 0) (editedDisk texts) ["out"] := by
  have hunlinked := Disk.unlinked_of_noLinks (rfl : (editedDisk texts).noLinks = true)
  have hdirect : Disk.Direct (editedDisk texts) (nextConfig 0).outputRoot :=
    ⟨by decide, fun l _ => hunlinked l⟩
  have hsound : (editedDisk texts).Sound := of_decide_eq_true rfl
  refine ⟨hsound, hdirect.anchored_of_isDirectory rfl, rfl, fun l target _ hlink => ?_,
    fun {name e} he hfile => ?_, fun hwanted => by cases hwanted⟩
  · exact absurd hlink (hunlinked l target)
  · have hmem : (["out"] ++ [name], e) ∈ (editedDisk texts).entries :=
      (Disk.lookup_eq_some_iff_mem hsound.distinct).mp he
    simp only [editedDisk, editedPlace, List.cons_append, List.nil_append, List.mem_cons,
      Prod.mk.injEq, List.cons.injEq, true_and, List.not_mem_nil, or_false] at hmem
    rcases hmem with ⟨hnil, -⟩ | ⟨-, rfl⟩ | ⟨⟨-, hnil⟩, -⟩ | ⟨⟨rfl, -⟩, -⟩
    · cases hnil
    · exact absurd rfl hfile
    · cases hnil
    · decide

theorem heeded_editedDisk : heeded (nextConfig 0) (editedDisk texts) = some (stubManifest texts) := by
  have hpass : Passable (nextConfig 0) (editedDisk texts) ["out"] := editedDisk_passable
  have hthere : (editedDisk texts).get? (["out"] ++ [Manifest.fileName]) =
      some (.file (stubManifest texts).text.toUTF8) := rfl
  have hcontent := (hpass.anchored.leads.content_child hpass.sound isEntryName_manifest
    (Disk.unlinked_of_file hthere)).mpr ⟨hpass.nameable hthere (by simp), hthere⟩
  have htime : Instant.Valid ⟨⟨2024, 1, 1⟩, 0, 0⟩ := ⟨by decide, by decide, by decide, by decide⟩
  have hcount : Stub.MemberCounts.Countable ⟨0, 0, 0⟩ := ⟨by decide, by decide, by decide⟩
  have hwritable : (stubManifest texts).Writable := by
    refine ⟨htime, fun e he => ?_⟩
    obtain ⟨text, -, rfl⟩ := List.mem_map.mp he
    exact hcount
  have hprune : (nextConfig 0).pruneStale = true := rfl
  unfold heeded
  rw [if_pos hprune]
  exact storedManifest_of_text (Disk.text_of_content hcontent) hwritable

theorem entryName_stubEntry (text : String) : entryName (nextConfig 0) (stubEntry text) = "A.stub" := by
  have hextension : Path.extension? ⟨"Game/A.stub"⟩ = some "stub" := by decide
  show "A" ++ "." ++ (Path.extension? ⟨"Game/A.stub"⟩).getD _ = _
  rw [hextension]
  decide

theorem entryPath_stubEntry (text : String) :
    entryPath (nextConfig 0) (stubEntry text) = ⟨"out/Game/A.stub"⟩ := by
  rw [entryPath, entryName_stubEntry]
  show ((nextConfig 0).outputRoot.join "Game").join "A.stub" = _
  decide

/-- The file at the path of every entry is the stub. -/
theorem edited_stubEntry {text : String}
    (h : Digest.Sha256.ofBytes "edited".toUTF8 ≠ (stubEntry text).digest) :
    Edited (nextConfig 0) (editedDisk texts) (stubEntry text) := by
  have hpass : Passable (nextConfig 0) (editedDisk texts) ["out"] := editedDisk_passable
  have hunlinked := Disk.unlinked_of_noLinks (rfl : (editedDisk texts).noLinks = true)
  have hns : Path.isFileName "Game" = true := by decide
  have hclass : Path.isFileName "A" = true := by decide
  have hname : Path.isFileName "A.stub" = true := by decide
  have hthere : (editedDisk texts).get? (["out"] ++ ["Game"] ++ ["A.stub"]) =
      some (.file "edited".toUTF8) := rfl
  have hcontent := (hpass.anchored.leads.content_grandchild hpass.sound
    (Path.isEntryName_of_isFileName hns) (Path.isEntryName_of_isFileName hname) (hunlinked _)
    (hunlinked _)).mpr ⟨by decide, hthere⟩
  refine ⟨hns, hclass, _, ?_, h⟩
  rw [entryPath, entryName_stubEntry]
  exact hcontent

/-- An entry that tells the digest of what is there now condemns the stub. -/
theorem condemns_stubEntry {text : String}
    (h : Digest.Sha256.ofBytes "edited".toUTF8 = (stubEntry text).digest) :
    Condemns (nextConfig 0) (editedDisk texts) ["out"] (stubEntry text) editedPlace := by
  have hns : Path.isFileName "Game" = true := by decide
  have hclass : Path.isFileName "A" = true := by decide
  refine ⟨hns, hclass, ?_, ?_, _, rfl, h⟩
  · rw [entryName_stubEntry]
    rfl
  · rw [entryPath_stubEntry]
    decide

theorem digest_ne_stubEntry : Digest.Sha256.ofBytes "edited".toUTF8 ≠ (stubEntry "x").digest := by
  decide +kernel

/-- A run on that root goes through and writes no stub. If the text of the first entry is not the one
that is there, the log says that the stub is kept. -/
theorem exists_run_editedDisk (now : Instant) (text : String) (rest : List String)
    (h : Digest.Sha256.ofBytes "edited".toUTF8 ≠ (stubEntry text).digest) :
    ∃ report w', (generate (nextConfig 0) now ⟨[⟨"M", []⟩]⟩).Returns ⟨editedDisk (text :: rest), []⟩
        report w' ∧ report.written = [] ∧ keptRecord ⟨"out/Game/A.stub"⟩ ∈ w'.log ∧
      Nonempty (Parts (nextConfig 0) now ⟨"M", []⟩ ⟨editedDisk (text :: rest), []⟩ report w') := by
  have hpass : Passable (nextConfig 0) (editedDisk (text :: rest)) ["out"] := editedDisk_passable
  obtain ⟨report, w', hrun⟩ : (generate (nextConfig 0) now ⟨[⟨"M", []⟩]⟩).Completes
      ⟨editedDisk (text :: rest), []⟩ := generate_completes (nextConfig_valid 0) rfl hpass
  obtain ⟨m, hm, ⟨parts⟩⟩ := generate_returns hrun
  cases hm
  have hentries : (stubManifest (text :: rest)).entries =
      [] ++ stubEntry text :: rest.map stubEntry := rfl
  have hhouse : (editedDisk (text :: rest)).get? (["out"] ++ [(stubEntry text).ns]) =
      some .directory := rfl
  have hsaid := generate_tells (w := ⟨editedDisk (text :: rest), []⟩) (nextConfig_valid 0)
    hpass.clearable heeded_editedDisk hentries (edited_stubEntry h) hhouse
    (fun e he => absurd he List.not_mem_nil) hrun
  rw [entryPath_stubEntry] at hsaid
  obtain ⟨added, hlog, hmem⟩ := hsaid
  refine ⟨report, w', hrun, parts.written_eq, ?_, ⟨parts⟩⟩
  rw [hlog]
  exact List.mem_append_right _ hmem

/-! ## Edited stubs -/

/-- A stub of which the log says that it is kept is there as it was, unless another entry of the old
manifest condemns it as it now is, or a stub that the run writes comes out at it. -/
theorem generate_keeps_edited {doc : Document} (hc : c.Valid) (hd : w.disk.Sound)
    (h : (generate c now doc).Returns w report w')
    (hkept : keptRecord p ∈ w'.log.drop w.log.length) :
    ∃ m e l content, heeded c w.disk = some m ∧ e ∈ m.entries ∧ p = entryPath c e ∧
      w.disk.find p = .ok l ∧ w.disk.get? l = some (.file content) ∧
      Digest.Sha256.ofBytes content ≠ e.digest ∧
      ((∀ place, w.disk.find c.outputRoot = .ok place →
          ∀ e' ∈ m.entries, ¬ Condemns c w.disk place e' l) →
        (∀ x ∈ report.written, w'.disk.find x.path ≠ .ok l) →
          w'.disk.get? l = some (.file content)) := by
  obtain ⟨_, parts, hfront, hback⟩ := generate_unsaid h
  rw [← parts.started_eq] at hd ⊢
  rcases prepare_cases parts.preparing with
    ⟨-, hunsaid⟩ | ⟨m, w₁, w₂, cleared, pruned, hm, hdir, hsame, hunsaid, hclear, hprune⟩
  · exact absurd hkept (fun hm => List.not_mem_nil
      (said_between ((hfront.trans hunsaid)) (List.append_nil _).symm hback hm))
  · obtain ⟨added, hlog, hsaid⟩ := prune_log hc hprune
    obtain ⟨e, he, rfl, d, hleft, hedited⟩ := hsaid p
      (said_between (hfront.trans hunsaid) hlog hback hkept)
    obtain ⟨content, hread, hdigest⟩ := hedited.differs
    obtain ⟨l, hfind, hfile⟩ := Disk.content_eq_ok.mp hread
    obtain ⟨hcheck, place, hroot⟩ := Disk.leads_of_isDirectory hdir
    rw [← hsame] at hd hroot
    obtain ⟨hwithin, hbare, hapart⟩ := clearFiles_sweeps hd hroot hcheck hclear
    have hbase := hleft.entry hfile
    have hlinks : ∀ name, Unlinked w₂.disk (place ++ [name]) := by
      intro name target hlink
      cases hbare name _ hlink
    have hdeep : Apart place l := by
      rintro name rfl
      cases hbare name _ hbase
    -- the path of the stub could only be followed because that of the root still could
    obtain ⟨house, hhouse⟩ :=
      Disk.leads_of_find_join (isEntryName_entryName hc hedited.className) hfind
    obtain ⟨place', hplace⟩ :=
      Disk.leads_of_reaches_join (Path.isEntryName_of_isFileName hedited.ns) hhouse.walk
    have hroot₂ := hplace.within hleft
    obtain rfl := (hroot₂.within hwithin).unique hroot
    refine ⟨m, e, l, content, hm, he, rfl, ?_, ?_, hdigest, fun hothers hwritten => ?_⟩
    · rw [← hsame]
      exact hwithin.find (hleft.find hfind)
    · rw [← hsame, ← hapart hdeep, hbase]
    · have hno : ∀ e' ∈ m.entries, ¬ Condemns c w₂.disk place' e' l := by
        intro e' he' hcondemns
        rw [← hsame] at hothers
        exact hothers place' (hroot.find_eq hcheck) e' he'
          ((condemns_congr (hapart hdeep)).mp hcondemns)
      have hprepared := prune_keeps hc hroot₂ hlinks hno (kept_self hbase) hprune
      have hrebuilt : Rebuilt w₂.disk parts.rendered.disk := by
        rw [parts.rendered_eq]
        exact renderAll_rebuilt _ hprepared.rebuilt
      rw [parts.ended_eq] at hwritten ⊢
      refine record_keeps hroot₂ (hlinks _) hdeep hrebuilt ?_ parts.recording
      rcases renderAll_keeps_or_writes (planFor c _) hprepared.there with hstill | ⟨x, hx, hfound⟩
      · rw [parts.rendered_eq, hstill]
      · rw [← parts.rendered_eq] at hfound
        have hlasts : Disk.LastsAll parts.rendered.disk parts.recorded.disk :=
          record_lasts parts.recording
        refine absurd (hlasts.find hfound) (hwritten x ?_)
        rw [parts.written_eq]
        exact mem_writtenOf.mpr hx

/-- The entry of the only stub tells the digest of another text: the stub stays as it is. -/
theorem edited_kept :
    ∃ report w', (generate (nextConfig 0) ⟨⟨2024, 1, 2⟩, 0, 0⟩ ⟨[⟨"M", []⟩]⟩).Returns
        ⟨editedDisk ["x"], []⟩ report w' ∧ keptRecord ⟨"out/Game/A.stub"⟩ ∈ w'.log ∧
      w'.disk.get? editedPlace = some (.file "edited".toUTF8) := by
  have hpass : Passable (nextConfig 0) (editedDisk ["x"]) ["out"] := editedDisk_passable
  obtain ⟨report, w', hrun, hwritten, hsaid, -⟩ :=
    exists_run_editedDisk ⟨⟨2024, 1, 2⟩, 0, 0⟩ "x" [] digest_ne_stubEntry
  obtain ⟨m, _, l, content, hm, -, -, hfind, hfile, -, hkept⟩ :=
    generate_keeps_edited (nextConfig_valid 0) hpass.sound hrun hsaid
  rw [heeded_editedDisk] at hm
  cases hm
  have hplace : (editedDisk ["x"]).find ⟨"out/Game/A.stub"⟩ = .ok editedPlace := rfl
  obtain rfl := Except.ok.inj (hplace.symm.trans hfind)
  obtain rfl := Entry.file.inj (Option.some.inj hfile)
  refine ⟨report, w', hrun, hsaid, hkept (fun place _ e he hcon => ?_) (by simp [hwritten])⟩
  obtain ⟨_, hthere, hsame⟩ := hcon.unchanged
  obtain rfl := Entry.file.inj (Option.some.inj (hfile.symm.trans hthere))
  rw [List.mem_singleton.mp he] at hsame
  exact digest_ne_stubEntry hsame

/-- A second entry for the stub tells the digest it has now. The log says of the stub that it is kept,
and then it is taken away. -/
theorem edited_removed :
    (nextConfig 0).Valid ∧ (editedDisk ["x", "edited"]).Sound ∧
      heeded (nextConfig 0) (editedDisk ["x", "edited"]) = some (stubManifest ["x", "edited"]) ∧
      (editedDisk ["x", "edited"]).find ⟨"out/Game/A.stub"⟩ = .ok editedPlace ∧
      (editedDisk ["x", "edited"]).get? editedPlace = some (.file "edited".toUTF8) ∧
      ∃ report w', (generate (nextConfig 0) ⟨⟨2024, 1, 2⟩, 0, 0⟩ ⟨[⟨"M", []⟩]⟩).Returns
          ⟨editedDisk ["x", "edited"], []⟩ report w' ∧ keptRecord ⟨"out/Game/A.stub"⟩ ∈ w'.log ∧
        w'.disk.get? editedPlace = none := by
  have hpass : Passable (nextConfig 0) (editedDisk ["x", "edited"]) ["out"] := editedDisk_passable
  obtain ⟨report, w', hrun, hwritten, hsaid, ⟨parts⟩⟩ :=
    exists_run_editedDisk ⟨⟨2024, 1, 2⟩, 0, 0⟩ "x" ["edited"] digest_ne_stubEntry
  obtain ⟨hremoves, hready⟩ := parts.ready_of_there (nextConfig_valid _) hpass.sound hpass.anchored
    hpass.present hpass.linksLoose
  have hframed := framed_of_parts parts rfl (nextConfig_valid _) hpass.sound hpass.anchored.leads
    hready hremoves
  have hcondemned : Condemned (nextConfig 0) (editedDisk ["x", "edited"]) ["out"] editedPlace :=
    ⟨_, heeded_editedDisk, stubEntry "edited", by simp [stubManifest], condemns_stubEntry rfl⟩
  have hgone := hframed.condemned ⟨_, _, _, rfl⟩ rfl (by simp [hwritten]) hcondemned
  exact ⟨nextConfig_valid 0, hpass.sound, heeded_editedDisk, rfl, rfl, report, w', hrun, hsaid, hgone⟩

end StubListing.Run
