import StubListing.Proofs.Run.Ending
/-!
# Runs that come to an end

A run on a root that is there goes through, whatever the old manifest says: what it removes has been
found before. Only a loose file that cannot be named, or something in the way of the new manifest,
stops it.
-/
namespace StubListing.Run
open StubListing.Action StubListing.Catalog StubListing.Stub
open StubListing.Disk (Sound Anchored Leads Inside Unlinked Removes checkPath)
open StubListing.Path (IsEntryName)

variable {c : Config} {now : Instant} {m : Module} {w w' : Workplace} {root : Path}
  {place : Location} {d d' : Disk} {n : Nat}

/-- A removal below the root leaves it ready. -/
theorem Ready.removes {gone : Location → Prop} (h : Ready c d place) (hr : Removes gone d d')
    (hin : ∀ l, gone l → Inside place l) : Ready c d' place :=
  ⟨hr.sound, h.anchored.agrees (hr.agreesOutside hin), fun l hl => hr.unlinked (h.unlinked l hl)⟩

/-! ## One after the other -/

/-- Actions come to an end in a row if each does where the invariant holds, and keeps it. -/
theorem sumOf_completes {ι : Type} {f : ι → Action Nat} {items : List ι}
    {I : Workplace → Prop} (hends : ∀ x ∈ items, ∀ w, I w → (f x).Completes w)
    (hkeeps : ∀ x ∈ items, ∀ w n w', I w → (f x).Returns w n w' → I w') (h : I w) :
    (sumOf (items.map f)).Completes w := by
  induction items generalizing w with
  | nil => exact completes_pure 0 w
  | cons x rest ih =>
    refine completes_bind (hends x (by simp) w h) fun n w₁ hx => ?_
    refine completes_bind (ih (fun y hy => hends y (List.mem_cons_of_mem _ hy))
      (fun y hy => hkeeps y (List.mem_cons_of_mem _ hy)) (hkeeps x (by simp) w n w₁ h hx)) ?_
    exact fun k w₂ _ => completes_pure (n + k) w₂

/-! ## Clearing -/

/-- What stands loose in the directory can be named. -/
def Nameable (root : Path) (d : Disk) (place : Location) : Prop :=
  ∀ {name : String} {e : Entry}, d.get? (place ++ [name]) = some e → e ≠ .directory →
    checkPath (root.join name) = .ok ()

theorem removeFile_completes {name : String} {e : Entry} (hd : w.disk.Sound)
    (hroot : Leads w.disk root place) (hthere : w.disk.get? (place ++ [name]) = some e)
    (hfile : e ≠ .directory) (hcheck : checkPath (root.join name) = .ok ()) :
    (Files.removeFile (root.join name)).Completes w := by
  have hname := hd.named hthere
  have hcall := (hroot.removeFile_child hname.toIsEntryName).mpr
    ⟨hcheck, hname.short, ⟨e, hthere, hfile⟩, rfl⟩
  exact ⟨(), _, Files.returns_removeFile.mpr ⟨_, hcall, rfl⟩⟩

/-- Files that are there can be removed one by one. -/
theorem removeFiles_completes {names : List String} (hd : w.disk.Sound)
    (hroot : Anchored w.disk root place) (hnodup : names.Nodup)
    (hthere : ∀ name ∈ names, ∃ e, w.disk.get? (place ++ [name]) = some e ∧ e ≠ .directory ∧
      checkPath (root.join name) = .ok ()) :
    (countAll (names.map fun name => Files.removeFile (root.join name))).Completes w := by
  induction names generalizing w with
  | nil => exact completes_pure 0 w
  | cons name rest ih =>
    obtain ⟨hnew, hnodup⟩ := List.nodup_cons.mp hnodup
    obtain ⟨e, he, hfile, hcheck⟩ := hthere name (by simp)
    refine completes_bind (removeFile_completes hd hroot.leads he hfile hcheck) fun _ w₁ hremove => ?_
    have hone := removeFile_removes hd hroot.leads (hd.named he).toIsEntryName hremove
    have hroot₁ := hroot.agrees (hone.agreesOutside fun l hl => hl ▸ Disk.inside_child place name)
    refine completes_bind (ih hone.sound hroot₁ hnodup fun other hm => ?_) fun k w₂ _ =>
      completes_pure (k + 1) w₂
    obtain ⟨e', he', hrest⟩ := hthere other (List.mem_cons_of_mem _ hm)
    refine ⟨e', ?_, hrest⟩
    rw [hone.kept, he']
    intro heq
    have hsame : other = name := by simpa using List.append_cancel_left heq
    exact hnew (hsame ▸ hm)

theorem clearFiles_completes (hd : w.disk.Sound) (hroot : Anchored w.disk root place)
    (hcheck : checkPath root = .ok ()) (hloose : Nameable root w.disk place) :
    (Files.clearFiles root).Completes w := by
  refine completes_bind (Files.returns_children.mpr ⟨hroot.leads.listing_eq hcheck, rfl⟩).completes ?_
  intro listing w₁ hlist
  obtain ⟨hlisting, rfl⟩ := Files.returns_children.mp hlist
  rw [hroot.leads.listing_eq hcheck] at hlisting
  cases hlisting
  let files := (w₁.disk.children place).filter fun x => x.2 != .directory
  have hnodup : (files.map (·.1)).Nodup :=
    (hd.nodup_children place).sublist (List.filter_sublist.map _)
  have hends := removeFiles_completes hd hroot hnodup fun name hm => by
    obtain ⟨⟨_, e⟩, hx, rfl⟩ := List.mem_map.mp hm
    obtain ⟨hmem, hfile⟩ := List.mem_filter.mp hx
    have hget := hd.mem_children.mp hmem
    have hne : e ≠ .directory := by simpa using hfile
    exact ⟨e, hget, hne, hloose hget hne⟩
  rw [List.map_map] at hends ⊢
  exact hends

/-! ## Pruning -/

theorem previousManifest_completes (c : Config) (w : Workplace) :
    (previousManifest c).Completes w := by
  refine completes_disk_bind ?_
  split
  · rcases returns_or_fails (do pure (some (← Manifest.load (c.outputRoot.join Manifest.fileName))))
      w with ⟨m, w₁, hload⟩ | ⟨f, w₁, hfail⟩
    · exact ⟨m, w₁, returns_tryCatch.mpr (Or.inl hload)⟩
    · obtain ⟨previous, w₂, hnote⟩ : (do
          note .warn ("Ignoring unreadable manifest, skipping pruning: " ++ f.message)
          pure none : Action (Option Manifest)).Completes w₁ :=
        completes_bind (completes_note _ _ w₁) fun _ w₂ _ => completes_pure none w₂
      exact ⟨previous, w₂, returns_tryCatch.mpr (Or.inr ⟨f, w₁, hfail, hnote⟩)⟩
  · exact completes_pure none w

/-- A file that has been found can be read and removed. -/
theorem pruneEntry_completes (hc : c.Valid) (h : Ready c w.disk place) (e : ManifestEntry) :
    (pruneEntry c e).Completes w := by
  unfold pruneEntry
  cases ht : entryTarget c e with
  | error f => exact completes_bind (completes_note _ _ w) fun _ w₁ _ => completes_pure 0 w₁
  | ok p =>
    obtain ⟨hns, hname, rfl⟩ := entryTarget_eq ht
    have hin := Disk.inside_child place e.ns
    refine completes_disk_bind ?_
    split
    · rename_i hfile
      obtain ⟨content, hcontent⟩ := Disk.isFile_eq_content.mp hfile
      obtain ⟨hcheck, hget⟩ := (h.anchored.leads.content_grandchild h.sound
        (Path.isEntryName_of_isFileName hns) (isEntryName_entryName hc hname) (h.unlinked _ hin)
        (h.unlinked _ (Disk.inside_append hin _))).mp hcontent
      refine completes_bind (Files.returns_digestOf.mpr ⟨content, hcontent, rfl, rfl⟩).completes ?_
      intro digest w₁ hdigest
      obtain ⟨_, -, -, rfl⟩ := Files.returns_digestOf.mp hdigest
      split
      · have hdir := h.sound.housed hget
        have hleads := h.anchored.leads.child (Path.isEntryName_of_isFileName hns)
          (h.sound.named hdir).short hdir
        exact completes_bind (removeFile_completes h.sound hleads hget (by simp) hcheck)
          fun _ w₂ _ => completes_pure 1 w₂
      · exact completes_bind (completes_note _ _ _) fun _ w₂ _ => completes_pure 0 w₂
    · exact completes_pure 0 w

/-- A directory that has been found can be listed and, if it is empty, removed. -/
theorem pruneNamespace_completes (h : Ready c w.disk place) (ns : String) :
    (pruneNamespace c ns).Completes w := by
  unfold pruneNamespace
  split
  · exact completes_pure 0 w
  · rename_i hgo
    have hname : IsEntryName ns := by
      simp only [Bool.or_eq_true, not_or, Bool.not_eq_true', Bool.not_eq_false] at hgo
      exact Path.isEntryName_of_isFileName hgo.2
    have hu := h.unlinked _ (Disk.inside_child place ns)
    refine completes_disk_bind ?_
    split
    · rename_i hthere
      obtain ⟨hcheck, hdir⟩ := (h.anchored.leads.isDirectory_child h.sound hname hu).mp hthere
      have hshort := (h.sound.named hdir).short
      have hleads := h.anchored.leads.child hname hshort hdir
      refine completes_bind (Files.returns_children.mpr ⟨hleads.listing_eq hcheck, rfl⟩).completes ?_
      intro listing w₁ hlist
      obtain ⟨hlisting, rfl⟩ := Files.returns_children.mp hlist
      split
      · rename_i hclear
        have hempty := (h.sound.children_isEmpty _).mpr
          ((hleads.listing_isEmpty h.sound hcheck hlisting).mp hclear)
        have hremove := (h.anchored.leads.removeDirectory_child hname).mpr
          ⟨hcheck, hshort, hdir, hempty, rfl⟩
        exact completes_bind ⟨(), _, Files.returns_removeDirectory.mpr ⟨_, hremove, rfl⟩⟩
          fun _ w₂ _ => completes_pure 1 w₂
      · exact completes_bind (completes_note _ _ _) fun _ w₂ _ => completes_pure 0 w₂
    · exact completes_pure 0 w

/-- Clearing away what the previous run wrote goes through for every manifest. -/
theorem prune_completes (hc : c.Valid) (h : Ready c w.disk place) (previous : Manifest) :
    (prune c previous).Completes w := by
  refine completes_bind (sumOf_completes (I := fun w => Ready c w.disk place)
    (fun e _ w hw => pruneEntry_completes hc hw e) (fun e _ w n w' hw he => ?_) h) ?_
  · exact hw.removes (pruneEntry_removes hc hw.sound hw.anchored.leads hw.unlinked he)
      fun l => inside_of_condemns
  · intro files w₁ hfiles
    have h₁ := h.removes (pruneEntries_removes hc h.sound h.anchored h.unlinked hfiles)
      fun l ⟨e, _, hl⟩ => inside_of_condemns hl
    refine completes_bind (sumOf_completes (I := fun w => Ready c w.disk place)
      (fun ns _ w hw => pruneNamespace_completes hw ns) (fun ns _ w n w' hw hns => ?_) h₁) ?_
    · exact hw.removes (pruneNamespace_removes hw.sound hw.anchored.leads hw.unlinked hns)
        fun l => inside_of_deserted
    · exact fun directories w₂ _ => completes_pure _ w₂

/-! ## Preparing -/

/-- What has to hold of a root that is there for it to be cleared. -/
structure Clearable (c : Config) (d : Disk) (place : Location) : Prop where
  sound : d.Sound
  anchored : Anchored d c.outputRoot place
  present : d.isDirectory c.outputRoot = true
  linksLoose : LinksLoose d place
  nameable : Nameable c.outputRoot d place

theorem clear_completes (hc : c.Valid) (hd : w.disk.Sound)
    (hroot : Anchored w.disk c.outputRoot place) (hcheck : checkPath c.outputRoot = .ok ())
    (hlinks : LinksLoose w.disk place) (hloose : Nameable c.outputRoot w.disk place)
    (previous : Option Manifest) : (clear c previous).Completes w := by
  refine completes_bind (clearFiles_completes hd hroot hcheck hloose) fun cleared w₁ hclear => ?_
  have hremoves := clearFiles_removes hd hroot hcheck hclear
  have hready : Ready c w₁.disk place :=
    ⟨hremoves.sound, hroot.agrees (hremoves.agreesOutside fun l => inside_of_loose),
      unlinked_of_removes hlinks (fun _ => id) hremoves⟩
  cases previous with
  | none => exact completes_pure _ w₁
  | some m => exact completes_bind (prune_completes hc hready m) fun _ w₂ _ => completes_pure _ w₂

theorem prepare_completes (hc : c.Valid) (h : Clearable c w.disk place) :
    (prepare c).Completes w := by
  obtain ⟨hcheck, -⟩ := Disk.leads_of_isDirectory h.present
  refine completes_disk_bind ?_
  rw [if_pos h.present]
  dsimp only
  split
  · refine completes_bind (previousManifest_completes c w) fun previous w₁ hfound => ?_
    have hsame := (returns_previousManifest hfound).1
    exact clear_completes hc (hsame ▸ h.sound) (hsame ▸ h.anchored) hcheck (hsame ▸ h.linksLoose)
      (fun hget => h.nameable (hsame ▸ hget)) previous
  · refine completes_bind (completes_pure none w) fun previous w₁ hpure => ?_
    obtain ⟨rfl, rfl⟩ := returns_pure.mp hpure
    exact clear_completes hc h.sound h.anchored hcheck h.linksLoose h.nameable none

/-! ## A whole run -/

/-- What has to hold of a root that is there for a run to go through. -/
structure Passable (c : Config) (d : Disk) (place : Location) : Prop where
  sound : d.Sound
  anchored : Anchored d c.outputRoot place
  present : d.isDirectory c.outputRoot = true
  linksLoose : LinksLoose d place
  nameable : Nameable c.outputRoot d place
  manifest : c.writeManifest = true → checkPath (c.outputRoot.join Manifest.fileName) = .ok () ∧
    Manifest.fileName ∉ c.namespaces ∧ d.get? (place ++ [Manifest.fileName]) ≠ some .directory

theorem Passable.clearable (h : Passable c d place) : Clearable c d place :=
  ⟨h.sound, h.anchored, h.present, h.linksLoose, h.nameable⟩

theorem record_completes {module : String} {written : List Written} {failures : List Failed}
    (h : Ready c w.disk place) (hfree : c.writeManifest = true →
      checkPath (c.outputRoot.join Manifest.fileName) = .ok () ∧
        w.disk.get? (place ++ [Manifest.fileName]) ≠ some .directory) :
    (record c now module written failures).Completes w := by
  unfold record
  split
  · rename_i hwanted
    obtain ⟨hcheck, hdir⟩ := hfree hwanted
    have hopen := (Files.openFile_direct h.anchored.leads isEntryName_manifest
      (h.unlinked _ (Disk.inside_child place _))).mpr ⟨hcheck, by decide, hdir, rfl, rfl⟩
    refine completes_bind (completes_bind (completes_bind ?_ fun _ w₁ _ => ?_) fun _ w₁ _ => ?_)
      fun _ w₁ _ => completes_pure _ w₁
    · exact ⟨_, _, returns_carryOut.mpr ⟨_, hopen, rfl⟩⟩
    · exact completes_disk_bind ⟨(), _, returns_setDisk.mpr rfl⟩
    · exact completes_note _ _ w₁
  · exact completes_pure none w

/-- When the stubs have been written, no directory is in the place of the manifest, if one is
wanted. -/
def Recordable (c : Config) (m : Module) (d : Disk) (place : Location) : Prop :=
  c.writeManifest = true → checkPath (c.outputRoot.join Manifest.fileName) = .ok () ∧
    (renderAll c (planFor c m) d).2.get? (place ++ [Manifest.fileName]) ≠ some .directory

/-- The stubs leave the manifest's place alone if no accepted class has its name for a namespace. -/
theorem Ready.recordable (h : Ready c d place) (hc : c.Valid)
    (hcheck : c.writeManifest = true → checkPath (c.outputRoot.join Manifest.fileName) = .ok ())
    (hfree : c.writeManifest = true → d.get? (place ++ [Manifest.fileName]) ≠ some .directory)
    (hnames : c.writeManifest = true →
      ∀ s, Except.ok s ∈ planFor c m → s.ns ≠ Manifest.fileName) : Recordable c m d place := by
  intro hwanted
  refine ⟨hcheck hwanted, ?_⟩
  rw [(h.settled hc).child_eq (hnames hwanted)]
  exact hfree hwanted

/-- A run goes through if preparing the root does and leaves the root ready for stubs and manifest. -/
theorem generate_completes_of_prepare {doc : Document} (hc : c.Valid)
    (hm : doc.require c.module = .ok m)
    (hprepare : ∀ w₁ : Workplace, w₁.disk = w.disk → (prepare c).Completes w₁)
    (hready : ∀ (w₁ : Workplace) (removed : Removed) (w₂ : Workplace), w₁.disk = w.disk →
      (prepare c).Returns w₁ removed w₂ → Ready c w₂.disk place ∧ Recordable c m w₂.disk place) :
    (generate c now doc).Completes w := by
  unfold generate
  rw [hm]
  refine completes_bind (completes_note _ _ w) fun _ w₁ hnote => ?_
  refine completes_bind (completes_note _ _ w₁) fun _ w₂ hnote' => ?_
  have hsame : w₂.disk = w.disk := (disk_of_note hnote').trans (disk_of_note hnote)
  refine completes_bind (hprepare w₂ hsame) fun removed w₃ hprepared => ?_
  obtain ⟨hroot, hrecord⟩ := hready w₂ removed w₃ hsame hprepared
  have hsettled : Settled c (planFor c m) w₃.disk place _ := hroot.settled hc
  refine completes_bind (returns_render.mpr ⟨rfl, rfl⟩).completes fun outcomes w₄ hrender => ?_
  obtain ⟨-, rfl⟩ := returns_render.mp hrender
  refine completes_bind (completes_noteAll _ _ _) fun _ w₅ hwarn => ?_
  have hdisk := disk_of_noteAll hwarn
  have hready₅ : Ready c w₅.disk place := by
    rw [hdisk]
    exact hsettled.ready hroot
  refine completes_bind (record_completes hready₅ fun hwanted => ?_) fun _ w₆ _ =>
    completes_bind (completes_note _ _ w₆) fun _ w₇ _ => completes_pure _ w₇
  rw [hdisk]
  exact hrecord hwanted

/-- A run on a passable root goes through. -/
theorem generate_completes {doc : Document} (hc : c.Valid) (hm : doc.require c.module = .ok m)
    (h : Passable c w.disk place) : (generate c now doc).Completes w := by
  have hready : ∀ (w₁ : Workplace) (removed : Removed) (w₂ : Workplace), w₁.disk = w.disk →
      (prepare c).Returns w₁ removed w₂ → Ready c w₂.disk place ∧ Recordable c m w₂.disk place := by
    intro w₁ removed w₂ hsame hprepare
    rw [← hsame] at h
    have hremoves := prepare_removes hc h.sound h.anchored h.present h.linksLoose hprepare
    have hready := ready_of_removes h.anchored h.linksLoose hremoves
    refine ⟨hready, hready.recordable hc (fun hwanted => (h.manifest hwanted).1) ?_ ?_⟩
    · intro hwanted hget
      exact (h.manifest hwanted).2.2 (hremoves.get?_eq_some.mp hget).1
    · intro hwanted s hs heq
      exact (h.manifest hwanted).2.1 (heq ▸ (mem_types_of_planned hc hs).2)
  apply generate_completes_of_prepare hc hm _ hready
  intro w₁ hsame
  exact prepare_completes hc (hsame ▸ h.clearable)

end StubListing.Run
