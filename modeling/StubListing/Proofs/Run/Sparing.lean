import StubListing.Proofs.Catalog.Loading
import StubListing.Proofs.Run.Keeping
/-!
# Files that a run leaves alone

A run comes to a file that was there before it in four ways only: the file itself lies directly in the
output root, it is a stub of the previous run and still as that run wrote it, or the path of a stub
or of the new manifest comes out at it. Any other file is there afterwards with the same bytes,
however the run ends. A file that is only linked to from the root is such another one.
-/
namespace StubListing.Run
open StubListing.Action StubListing.Catalog StubListing.Stub
open StubListing.Disk (Remains Intact MayFind Leads Unlinked)
open StubListing.Path (IsEntryName)

variable {c : Config} {w w' : Workplace} {d₀ d : Disk} {place l : Location} {content : ByteArray}

/-! ## Clearing the root -/

theorem removeFile_spares {q : Path} {name : String} (hn : IsEntryName name)
    (hno : ∀ place, Leads w.disk q place → l = place ++ [name] → w.disk.find (q.join name) ≠ .ok l)
    (h : Remains d₀ l content w.disk) :
    (Files.removeFile (q.join name)).Leaves (Remains d₀ l content) w :=
  leaves_during (leaves_change h fun _ hcall => h.removeFile hn hno hcall)

theorem clearFiles_spares {root : Path} (hd : w.disk.Sound)
    (hno : ∀ place name, Leads d₀ root place → l = place ++ [name] → d₀.find (root.join name) ≠ .ok l)
    (h : Remains d₀ l content w.disk) :
    (Files.clearFiles root).Leaves (Remains d₀ l content) w := by
  apply leaves_bind ((Files.readsOnly_children root).leaves h)
  intro listing w₁ hlist h₁
  obtain ⟨hlisting, -⟩ := Files.returns_children.mp hlist
  apply leaves_countAll _ h₁
  intro action haction w₂ h₂
  obtain ⟨p, hp, rfl⟩ := List.mem_map.mp haction
  obtain ⟨name, hn, rfl⟩ := Disk.mem_files_of_listing hd hlisting hp
  exact removeFile_spares hn (fun place hroot heq hfind =>
    hno place name (hroot.within h₂.within) heq (h₂.within.find hfind)) h₂

/-- While the entries are gone through, what links there were directly in the root are gone already. -/
theorem pruneEntry_spares (hc : c.Valid) {e : ManifestEntry}
    (hroot : ∀ {root : Location}, Leads d₀ c.outputRoot root → root = place)
    (hlinks : ∀ name, Unlinked d₀ (place ++ [name])) (hno : ¬ Condemns c d₀ place e l)
    (h : Remains d₀ l content w.disk) : (pruneEntry c e).Leaves (Remains d₀ l content) w := by
  unfold pruneEntry
  cases ht : entryTarget c e with
  | error f => exact leaves_bind (leaves_note h) fun _ _ _ hnoted => leaves_pure hnoted
  | ok p =>
    obtain ⟨hns, hname, rfl⟩ := entryTarget_eq ht
    apply leaves_disk_bind
    split
    · apply leaves_bind ((Files.readsOnly_digestOf _).leaves h)
      intro digest w₁ hdigest h₁
      obtain ⟨read, hread, rfl, rfl⟩ := Files.returns_digestOf.mp hdigest
      split
      · rename_i hsame
        have hother : ∀ house, Leads w₁.disk (c.outputRoot.join e.ns) house →
            l = house ++ [entryName c e] → w₁.disk.find (entryPath c e) ≠ .ok l := by
          rintro house hhouse rfl -
          exact hno (condemns_of_matches hc hroot hlinks h₁.within ⟨hns, hname, read, hread, hsame⟩
            hhouse h₁.there)
        apply leaves_bind (removeFile_spares (isEntryName_entryName hc hname) hother h₁)
        exact fun _ _ _ hremoved => leaves_pure hremoved
      · exact leaves_bind (leaves_note h₁) fun _ _ _ hnoted => leaves_pure hnoted
    · exact leaves_pure h

theorem pruneNamespace_spares (ns : String) (h : Remains d₀ l content w.disk) :
    (pruneNamespace c ns).Leaves (Remains d₀ l content) w := by
  unfold pruneNamespace
  split
  · exact leaves_pure h
  · apply leaves_disk_bind
    split
    · apply leaves_bind ((Files.readsOnly_children _).leaves h)
      intro listing w₁ _ h₁
      split
      · have hremove : (Files.removeDirectory (c.outputRoot.join ns)).Leaves
            (Remains d₀ l content) w₁ :=
          leaves_during (leaves_change h₁ fun _ hcall => h₁.removeDirectory hcall)
        exact leaves_bind hremove fun _ _ _ hremoved => leaves_pure hremoved
      · exact leaves_bind (leaves_note h₁) fun _ _ _ hnoted => leaves_pure hnoted
    · exact leaves_pure h

/-- What every action of the list keeps, they keep together. -/
theorem leaves_sumOf {P : Disk → Prop} {actions : List (Action Nat)}
    (hkeep : ∀ action ∈ actions, ∀ w, P w.disk → action.Leaves P w) (h : P w.disk) :
    (sumOf actions).Leaves P w := by
  induction actions generalizing w with
  | nil => exact h
  | cons action rest ih =>
    apply leaves_bind (hkeep action List.mem_cons_self w h)
    intro n w₁ _ hafter
    apply leaves_bind (ih (fun next hm => hkeep next (List.mem_cons_of_mem _ hm)) hafter)
    intro m w₂ _ hsummed
    exact leaves_pure hsummed

theorem prune_spares (hc : c.Valid) {m : Manifest}
    (hroot : ∀ {root : Location}, Leads d₀ c.outputRoot root → root = place)
    (hlinks : ∀ name, Unlinked d₀ (place ++ [name]))
    (hstale : ∀ e ∈ m.entries, ¬ Condemns c d₀ place e l) (h : Remains d₀ l content w.disk) :
    (prune c m).Leaves (Remains d₀ l content) w := by
  have hentries : (sumOf (m.entries.map (pruneEntry c))).Leaves (Remains d₀ l content) w := by
    apply leaves_sumOf _ h
    intro action haction w₁ h₁
    obtain ⟨e, he, rfl⟩ := List.mem_map.mp haction
    exact pruneEntry_spares hc hroot hlinks (hstale e he) h₁
  apply leaves_bind hentries
  intro files w₁ _ h₁
  have hnamespaces : (sumOf (m.namespaces.map (pruneNamespace c))).Leaves
      (Remains d₀ l content) w₁ := by
    apply leaves_sumOf _ h₁
    intro action haction w₂ h₂
    obtain ⟨ns, -, rfl⟩ := List.mem_map.mp haction
    exact pruneNamespace_spares ns h₂
  exact leaves_bind hnamespaces fun _ _ _ h₂ => leaves_pure h₂

theorem clear_spares (hc : c.Valid) {previous : Option Manifest} (hd : w.disk.Sound)
    (hcheck : Disk.checkPath c.outputRoot = .ok ()) (hroot : Leads w.disk c.outputRoot place)
    (hloose : ∀ name, l = place ++ [name] → w.disk.find (c.outputRoot.join name) ≠ .ok l)
    (hstale : ∀ m, previous = some m → ∀ e ∈ m.entries, ¬ Condemns c w.disk place e l)
    (hfile : w.disk.get? l = some (.file content)) :
    (clear c previous).Leaves (Remains w.disk l content) w := by
  have hcleared : (Files.clearFiles c.outputRoot).Leaves (Remains w.disk l content) w := by
    refine clearFiles_spares hd (fun place' name hplace' heq => ?_) (Disk.remains_self hfile)
    obtain rfl := hplace'.unique hroot
    exact hloose name heq
  apply leaves_bind hcleared
  intro cleared w₁ hret h₁
  cases previous with
  | none => exact leaves_pure h₁
  | some m =>
    obtain ⟨hwithin, hbare, -⟩ := clearFiles_sweeps hd hroot hcheck hret
    have hlinks : ∀ name, Unlinked w₁.disk (place ++ [name]) := fun name target hlink =>
      Entry.noConfusion (hbare name _ hlink)
    have hstill : ∀ e ∈ m.entries, ¬ Condemns c w₁.disk place e l := fun e he hcondemns =>
      hstale m rfl e he ((condemns_congr (h₁.there.trans hfile.symm)).mp hcondemns)
    have hpruned := prune_spares hc (fun hlead => (hlead.within hwithin).unique hroot) hlinks hstill
      (Disk.remains_self h₁.there)
    refine leaves_bind (hpruned.mono fun _ hafter => ?_) fun _ _ _ h₂ => leaves_pure h₂
    exact ⟨hwithin.trans hafter.within, hafter.there⟩

/-! ## Preparing the root -/

/-- The ways in which a run can come to a file of the tree that it is begun on. -/
inductive Exposed (c : Config) (selected : List Selected) (d : Disk) (l : Location) : Prop
  /-- The file itself lies directly in the output root. A file that a link in the root leads to does not:
  it is the link that is removed. -/
  | loose {place : Location} {name : String} (hdir : d.isDirectory c.outputRoot = true)
      (hroot : Leads d c.outputRoot place) (hplace : l = place ++ [name])
      (hfind : d.find (c.outputRoot.join name) = .ok l)
  /-- The manifest of the previous run names the file itself and tells its present digest. -/
  | stale {m : Manifest} {e : ManifestEntry} {place : Location}
      (hdir : d.isDirectory c.outputRoot = true) (hroot : Leads d c.outputRoot place)
      (hheeded : heeded c d = some m) (hentry : e ∈ m.entries) (hcondemns : Condemns c d place e l)
  /-- The path of a stub may come out at the file. -/
  | stub {s : Selected} {path : Path} (hselected : s ∈ selected) (htarget : targetOf c s = .ok path)
      (hfind : MayFind d path l)
  /-- The path of the new manifest may come out at the file. -/
  | recorded (hwrite : c.writeManifest = true)
      (hfind : MayFind d (c.outputRoot.join Manifest.fileName) l)

variable {selected : List Selected}

/-- In a tree without links, what a run can come to lies in the root, one or two names down. -/
theorem Exposed.near_root (hc : c.Valid) (hlinks : d.noLinks = true)
    (hup : ".." ∉ c.outputRoot.moves) (h : Exposed c selected d l) :
    (∃ name, l = d.spelled c.outputRoot ++ [name]) ∨
      ∃ ns name, l = d.spelled c.outputRoot ++ [ns] ++ [name] := by
  have hdeep : ∀ {ns name : String}, IsEntryName ns → IsEntryName name →
      MayFind d ((c.outputRoot.join ns).join name) l →
        l = d.spelled c.outputRoot ++ [ns] ++ [name] := by
    intro ns name hns hname hfind
    rw [← Disk.spelled_join d c.outputRoot hns]
    exact Disk.mayFind_join hlinks (Disk.noUp_join hup hns) hname hfind
  cases h with
  | loose hdir hroot hplace hfind => exact Or.inl ⟨_, hroot.eq_spelled hlinks hup ▸ hplace⟩
  | stale hdir hroot hheeded hentry hcondemns =>
    exact Or.inr ⟨_, _, hroot.eq_spelled hlinks hup ▸ hcondemns.place_eq⟩
  | stub hselected htarget hfind =>
    have hproper := proper_of_targetOf hc htarget
    obtain ⟨-, -, rfl⟩ := targetOf_eq_ok_iff.mp htarget
    exact Or.inr ⟨_, _, hdeep hproper.isEntryName_ns hproper.isEntryName_fileName hfind⟩
  | recorded hwrite hfind =>
    exact Or.inl ⟨_, Disk.mayFind_join hlinks hup isEntryName_manifest hfind⟩

/-- However preparing ends, no link is new and the file is still there, so where a path may come out
is judged by the tree from before. -/
theorem prepare_spares (hc : c.Valid) (hd : w.disk.Sound)
    (hfile : w.disk.get? l = some (.file content))
    (hsafe : ¬ Exposed c selected w.disk l) :
    (prepare c).Leaves (Intact w.disk l content) w := by
  have hstart := Disk.remains_self hfile
  apply leaves_disk_bind
  split
  · rename_i hdir
    obtain ⟨hcheck, place, hroot⟩ := Disk.leads_of_isDirectory hdir
    -- the manifest is looked up before, if at all, so clearing begins on the same tree either way
    have hclear : ∀ {w₁ : Workplace}, w₁.disk = w.disk →
        (clear c (heeded c w.disk)).Leaves (Intact w.disk l content) w₁ := by
      intro w₁ hsame
      rw [← hsame] at hd hroot hdir hfile hsafe ⊢
      refine (clear_spares hc hd hcheck hroot ?_ ?_ hfile).mono fun _ => Remains.intact
      · exact fun name hplace hfind => hsafe (.loose hdir hroot hplace hfind)
      · exact fun m hm e he hcondemns => hsafe (.stale hdir hroot hm he hcondemns)
    unfold heeded at hclear
    dsimp only
    split
    · rename_i hprune
      rw [if_pos hprune] at hclear
      apply (readsOnly_previousManifest c).then_leaves hstart.intact
      intro previous w₁ hret hsame
      rw [(returns_previousManifest hret).2]
      exact hclear hsame
    · rename_i hkeep
      rw [if_neg hkeep] at hclear
      exact (readsOnly_pure none).then_leaves hstart.intact fun previous w₁ hret hsame => by
        rw [(returns_pure.mp hret).1]
        exact hclear hsame
  · have hensure : (Files.ensureDirectory c.outputRoot).Leaves (Intact w.disk l content) w :=
      leaves_carryOut (hstart.intact.provide _)
    exact leaves_bind hensure fun _ _ _ hafter => leaves_pure hafter

/-! ## Writing -/

theorem job_spares {j : Job} (hno : ∀ path, j.path = .ok path → ¬ MayFind d₀ path l)
    (h : Intact d₀ l content d) : Intact d₀ l content (j.run d).2 := by
  refine Job.run_keeps h (fun _ hd => hd.provide _) fun path hpath d result d' hd hopen => ?_
  obtain ⟨hafter, hother⟩ := hd.openFile (hno path hpath) hopen
  exact ⟨hafter, fun place hplace => hafter.write (hother place hplace) _⟩

theorem renderAll_spares {planned : List Planned}
    (hno : ∀ s, Except.ok s ∈ planned → ∀ path, targetOf c s = .ok path → ¬ MayFind d₀ path l)
    (h : Intact d₀ l content d) : Intact d₀ l content (renderAll c planned d).2 := by
  exact renderAll_keeps h fun s hs _ hd => job_spares (hno s hs) hd

theorem writeText_spares {p : Path} {text : String} (hno : ¬ MayFind d₀ p l)
    (h : Intact d₀ l content w.disk) :
    (Files.writeText p text).Leaves (Intact d₀ l content) w := by
  have hopen : (Files.carryOut fun d => Files.openFile d p).Leaves (Intact d₀ l content) w :=
    leaves_carryOut (h.openFile hno rfl).1
  apply leaves_bind hopen
  intro place w₁ hret h₁
  obtain ⟨d₁, hact, -⟩ := returns_carryOut.mp hret
  have hother := (h.openFile hno hact).2 place rfl
  exact leaves_disk_bind (leaves_setDisk (h₁.write hother _))

theorem record_spares {now : Instant} {module : String} {written : List Written}
    {failures : List Failed}
    (hno : c.writeManifest = true → ¬ MayFind d₀ (c.outputRoot.join Manifest.fileName) l)
    (h : Intact d₀ l content w.disk) :
    (record c now module written failures).Leaves (Intact d₀ l content) w := by
  unfold record
  split
  · rename_i hwrite
    apply leaves_bind
    · apply leaves_bind (writeText_spares (hno hwrite) h)
      exact fun _ _ _ hafter => leaves_note hafter
    · exact fun _ _ _ hafter => leaves_pure hafter
  · exact leaves_pure h

/-! ## The run -/

theorem generateModule_spares {now : Instant} {m : Module} (hc : c.Valid) (hd : w.disk.Sound)
    (hfile : w.disk.get? l = some (.file content))
    (hsafe : ¬ Exposed c (select c.namespaces m.types) w.disk l) :
    (generateModule c now m).Leaves (Intact w.disk l content) w := by
  have hstart := (Disk.remains_self hfile).intact
  apply (readsOnly_note _ _).then_leaves hstart
  intro _ w₁ _ hsame
  rw [← hsame] at hd hfile hsafe ⊢
  apply leaves_bind (prepare_spares hc hd hfile hsafe)
  intro removed w₂ _ h₂
  have hrender : (render c (plan c (select c.namespaces m.types))).Leaves
      (Intact w₁.disk l content) w₂ := by
    apply leaves_disk_bind
    refine renderAll_spares (fun s hs path htarget hfind => ?_) h₂
    exact hsafe (.stub (mem_of_mem_plan hc hs) htarget hfind)
  apply leaves_bind hrender
  intro outcomes w₃ _ h₃
  apply leaves_bind (leaves_noteAll h₃)
  intro _ w₄ _ h₄
  apply leaves_bind (record_spares (fun hwrite hfind => hsafe (.recorded hwrite hfind)) h₄)
  intro manifestPath w₅ _ h₅
  exact leaves_bind (leaves_note h₅) fun _ _ _ h₆ => leaves_pure h₆

/-- A run leaves every file alone that it does not come to by its settings and its selection. -/
theorem fromDisk_spares {now : Instant} (hc : c.Valid) (hd : w.disk.Sound)
    (hfile : w.disk.get? l = some (.file content))
    (hsafe : ∀ selected w', (preview c).Returns w selected w' →
      ¬ Exposed c selected w.disk l) :
    (fromDisk c now).Leaves (Intact w.disk l content) w := by
  have hstart := (Disk.remains_self hfile).intact
  apply ((readsOnly_load c.catalogPath).during _).then_leaves hstart
  intro document w₁ hload hsame
  unfold generate
  cases hm : document.require c.module with
  | error f => exact leaves_fail (by rw [hsame]; exact hstart)
  | ok m =>
    have hpreview : (preview c).Returns w (select c.namespaces m.types) w₁ := by
      apply returns_bind.mpr
      refine ⟨document, w₁, returns_during.mp hload, ?_⟩
      rw [hm]
      exact returns_pure.mpr ⟨rfl, rfl⟩
    have hexposed := hsafe _ _ hpreview
    rw [← hsame] at hd hfile hexposed hstart ⊢
    apply (readsOnly_note _ _).then_leaves hstart
    intro _ w₂ _ hsame₂
    rw [← hsame₂] at hd hfile hexposed ⊢
    exact generateModule_spares hc hd hfile hexposed

end StubListing.Run
