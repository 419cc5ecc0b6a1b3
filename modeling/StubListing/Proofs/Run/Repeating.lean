import StubListing.Proofs.Run.Frame
import StubListing.Proofs.Run.Tidying
/-!
# Runs that are repeated

A run that follows another one with the same settings and the same catalog finds the manifest of the
first, if any, and takes away no more than the first one has written. So it carries out its plan on a
tree that can stand for the one on which the first did, and comes to the same end.
-/
namespace StubListing.Run
open StubListing.Action StubListing.Catalog StubListing.Stub
open StubListing.Disk (Sound Anchored Leads Inside Unlinked Removes Ordinary checkPath)

variable {c : Config} {now now' : Instant} {m : Module} {doc : Document} {w w' w₁ w₂ : Workplace}
  {report : Report} {place l : Location} {d d' e e' : Disk} {plan : List Planned} {s : Selected}
  {removed : Removed}

/-! ## Trees that can stand for each other -/

/-- The second tree differs from the first at most in what the plan writes anyway. -/
structure Replays (c : Config) (plan : List Planned) (place : Location) (d d' : Disk) : Prop where
  home : d'.home = d.home
  houses : ∀ {s : Selected}, Except.ok s ∈ plan → (jobOf c s).Housable d place →
    d'.get? ((jobOf c s).house place) = some .directory
  spots : ∀ {s : Selected} {x : Written}, Except.ok s ∈ plan →
    (jobOf c s).fateIn d place = .ok x → d'.get? ((jobOf c s).spot place) ≠ some .directory
  spared : ∀ {l : Location}, Spared c plan d place l → d'.get? l = d.get? l

namespace Replays

variable (h : Replays c plan place d d')

include h

theorem housing_eq (hs : Except.ok s ∈ plan) :
    Files.housing (jobOf c s).housePath (jobOf c s).ns (d'.get? ((jobOf c s).house place)) =
      Files.housing (jobOf c s).housePath (jobOf c s).ns (d.get? ((jobOf c s).house place)) := by
  by_cases hh : (jobOf c s).Housable d place
  · have hok : Files.housing (jobOf c s).housePath (jobOf c s).ns
        (d.get? ((jobOf c s).house place)) = .ok () := hh
    obtain ⟨hcheck, hlen, -⟩ := Files.housing_eq_ok.mp hok
    rw [hok, h.houses hs hh]
    exact Files.housing_eq_ok.mpr ⟨hcheck, hlen, Or.inr rfl⟩
  · rw [h.spared (spared_house hh)]

/-- Every class of the plan has the same fate in both trees. -/
theorem fateIn_eq (hp : Plannable c plan) (hs : Except.ok s ∈ plan) :
    (jobOf c s).fateIn d' place = (jobOf c s).fateIn d place := by
  have hhousing := h.housing_eq hs
  cases hf : (jobOf c s).fateIn d place with
  | ok x =>
    obtain ⟨hhouse, hopen, rfl⟩ := Job.fate_eq_ok_iff.mp hf
    obtain ⟨hcheck, hlen, -⟩ := Files.opening_eq_ok.mp hopen
    apply Job.fate_eq_ok_iff.mpr
    exact ⟨hhousing.trans hhouse,
      Files.opening_eq_ok.mpr ⟨hcheck, hlen, h.spots hs hf⟩, rfl⟩
  | error f =>
    have hspot := h.spared (spared_spot hp hs hf)
    rw [← hf]
    unfold Job.fateIn Job.fate
    rw [hspot, hhousing]

theorem outcomes_eq (hp : Plannable c plan) :
    plan.map (outcomeIn c d' place) = plan.map (outcomeIn c d place) := by
  apply List.map_congr_left
  intro p hm
  cases p with
  | error f => rfl
  | ok s =>
    show (jobOf c s).outcome _ = (jobOf c s).outcome _
    rw [h.fateIn_eq hp hm]

theorem housable_iff (hs : Except.ok s ∈ plan) :
    (jobOf c s).Housable d' place ↔ (jobOf c s).Housable d place := by
  unfold Job.Housable
  rw [h.housing_eq hs]

/-- Carrying out the plan on either tree gives the same one. -/
theorem settled_eq (hp : Plannable c plan) (hd : Settled c plan d place e)
    (hd' : Settled c plan d' place e') (l : Location) : e'.get? l = e.get? l := by
  by_cases hl : Spared c plan d place l
  · have hl' : Spared c plan d' place l := by
      constructor
      · intro s hs heq hh
        exact hl.house s hs heq ((h.housable_iff hs).mp hh)
      · intro s x hs heq hx
        exact hl.spot s x hs heq (h.fateIn_eq hp hs ▸ hx)
    rw [hd'.spared hl', h.spared hl, hd.spared hl]
  · by_cases hhouse : ∃ s, Except.ok s ∈ plan ∧ l = (jobOf c s).house place ∧
        (jobOf c s).Housable d place
    · obtain ⟨s, hs, rfl, hh⟩ := hhouse
      rw [hd.houses hs hh, hd'.houses hs ((h.housable_iff hs).mpr hh)]
    · by_cases hspot : ∃ s x, Except.ok s ∈ plan ∧ l = (jobOf c s).spot place ∧
          (jobOf c s).fateIn d place = .ok x
      · obtain ⟨s, x, hs, rfl, hx⟩ := hspot
        rw [hd.spots hs hx, hd'.spots hs ((h.fateIn_eq hp hs).trans hx)]
      · refine absurd ⟨?_, ?_⟩ hl
        · exact fun s hs heq hh => hhouse ⟨s, hs, heq, hh⟩
        · exact fun s x hs heq hx => hspot ⟨s, x, hs, heq, hx⟩

end Replays

/-! ## What a second run finds -/

namespace Parts

variable (parts : Parts c now m w report w') (hc : c.Valid)
  (hready : Ready c parts.prepared.disk place)
  (hkept : ∀ {name : String} {e : Entry},
    parts.prepared.disk.get? (place ++ [name]) = some e → e = .directory)

include hc hready

/-- The place of the manifest is not one of the directories. -/
theorem house_ne_manifest (hwanted : c.writeManifest = true)
    (h : parts.rendered.disk.get? l = some .directory) : l ≠ place ++ [Manifest.fileName] := by
  intro heq
  exact (parts.manifest_free hc hready hwanted).2 (heq ▸ h)

include hkept

/-- What stands directly in the root at the end is a directory or the manifest. -/
theorem child_cases {name : String} {e : Entry} (h : w'.disk.get? (place ++ [name]) = some e) :
    e = .directory ∨ c.writeManifest = true ∧ name = Manifest.fileName := by
  rcases parts.get?_child hc hready h with hold | ⟨-, hdir⟩ | ⟨hwanted, hname, -⟩
  · exact Or.inl (hkept hold)
  · exact Or.inl hdir
  · exact Or.inr ⟨hwanted, hname⟩

/-- The manifest that the next run goes by, if there is one, is that of this run. -/
theorem heeded_cases (hnow : now.Valid) (hcount : ∀ t ∈ m.types, Countable t) {previous : Manifest}
    (h : heeded c w'.disk = some previous) :
    c.writeManifest = true ∧ previous = parts.manifest := by
  obtain ⟨hend, -⟩ := parts.ended_ready hc hready
  have hstored : storedManifest w'.disk (c.outputRoot.join Manifest.fileName) = some previous := by
    unfold heeded at h
    split at h
    · exact h
    · cases h
  by_cases hwanted : c.writeManifest = true
  · refine ⟨hwanted, ?_⟩
    have hfound := storedManifest_of_text (parts.manifest_text hc hready hwanted)
      (parts.manifest_writable hc hready hnow hcount)
    rw [hstored] at hfound
    exact Option.some.inj hfound
  · exfalso
    have hfile : w'.disk.isFile (c.outputRoot.join Manifest.fileName) = true := by
      by_contra hno
      rw [storedManifest_of_not_isFile (by simpa using hno)] at hstored
      cases hstored
    obtain ⟨content, hcontent⟩ := Disk.isFile_eq_content.mp hfile
    have hthere := ((hend.anchored.leads.content_child hend.sound isEntryName_manifest
      (hend.unlinked _ (Disk.inside_child place _))).mp hcontent).2
    rcases parts.child_cases hc hready hkept hthere with hdir | ⟨hmanifest, -⟩
    · cases hdir
    · exact hwanted hmanifest

/-- What the next run takes away is the manifest and the stubs of this run. -/
theorem gone_cases (hnow : now.Valid) (hcount : ∀ t ∈ m.types, Countable t)
    (hgone : Gone c w'.disk place l) (hthere : (w'.disk.get? l).isSome = true) :
    (c.writeManifest = true ∧ l = place ++ [Manifest.fileName]) ∨
      ∃ s x, Except.ok s ∈ planFor c m ∧ l = (jobOf c s).spot place ∧
        (jobOf c s).fateIn parts.prepared.disk place = .ok x := by
  obtain ⟨e, he⟩ := Option.isSome_iff_exists.mp hthere
  rcases hgone with ⟨⟨name, rfl⟩, hloose⟩ | ⟨previous, hheeded, entry, hentry, hcon⟩ | ⟨ns, hns, -⟩
  · rcases parts.child_cases hc hready hkept he with hdir | ⟨hwanted, rfl⟩
    · exact absurd (hdir ▸ he) hloose
    · exact Or.inl ⟨hwanted, rfl⟩
  · obtain ⟨-, rfl⟩ := parts.heeded_cases hc hready hkept hnow hcount hheeded
    rw [parts.manifest_entries hc] at hentry
    obtain ⟨x, hx, rfl⟩ := List.mem_map.mp hentry
    obtain ⟨s, hs, hfate⟩ := (parts.mem_written hc hready).mp hx
    have hstands := parts.stands hc hready hs hfate
    refine Or.inr ⟨s, x, hs, ?_, hfate⟩
    obtain ⟨-, -, rfl⟩ := Job.fate_eq_ok_iff.mp hfate
    rw [hcon.place_eq, hstands.filed.entryName_recorded hc]
    rfl
  · -- every namespace of the manifest is still exported
    obtain ⟨previous, hheeded, hlisted⟩ := hns.listed
    obtain ⟨-, rfl⟩ := parts.heeded_cases hc hready hkept hnow hcount hheeded
    exact absurd hlisted hns.dropped

/-- What is neither the manifest nor a stub is left as it was when the stubs had been written. -/
theorem get?_left (hnow : now.Valid) (hcount : ∀ t ∈ m.types, Countable t)
    (hremoves : Removes (Gone c w'.disk place) w'.disk d)
    (hmanifest : c.writeManifest = true → l ≠ place ++ [Manifest.fileName])
    (hspot : ∀ s x, Except.ok s ∈ planFor c m → l = (jobOf c s).spot place →
      (jobOf c s).fateIn parts.prepared.disk place ≠ .ok x) :
    d.get? l = parts.rendered.disk.get? l := by
  have hended : w'.disk.get? l = parts.rendered.disk.get? l := by
    rw [parts.ended_get? hc hready, if_neg]
    intro h
    exact hmanifest h.1 h.2
  rw [← hended]
  by_cases hgone : Gone c w'.disk place l
  · rw [hremoves.none_of hgone]
    cases hthere : w'.disk.get? l with
    | none => rfl
    | some e =>
      exfalso
      have hsome : (w'.disk.get? l).isSome = true := by rw [hthere]; rfl
      rcases parts.gone_cases hc hready hkept hnow hcount hgone hsome with
        ⟨hwanted, heq⟩ | ⟨s, x, hs, heq, hx⟩
      · exact hmanifest hwanted heq
      · exact hspot s x hs heq hx
  · exact hremoves.kept hgone

/-- The root as the next run leaves it prepared can stand for the root as this run did. -/
theorem replays (hnow : now.Valid) (hcount : ∀ t ∈ m.types, Countable t)
    (hremoves : Removes (Gone c w'.disk place) w'.disk d) :
    Replays c (planFor c m) place parts.prepared.disk d := by
  have hsettled := parts.rendered_settled hc hready
  have hleft := fun l => parts.get?_left (l := l) hc hready hkept hnow hcount hremoves
  refine ⟨?_, fun {s} hs hh => ?_, fun {s x} hs hx hdir => ?_, fun {l} hl => ?_⟩
  · rw [hremoves.home, (parts.ended_ready hc hready).2.home]
  · have hhouse := hsettled.houses hs hh
    rw [hleft _ (fun hwanted => parts.house_ne_manifest hc hready hwanted hhouse), hhouse]
    intro t x _ heq
    exact absurd heq.symm ((jobOf c t).spot_ne_house (jobOf c s) place)
  · have hold := (hremoves.get?_eq_some.mp hdir).1
    rw [parts.get?_spot_ended hc hready hs hx] at hold
    cases hold
  · have hrendered := hsettled.spared hl
    by_cases hmanifest : c.writeManifest = true ∧ l = place ++ [Manifest.fileName]
    · -- the manifest goes, and there was nothing in its place before
      obtain ⟨hwanted, rfl⟩ := hmanifest
      have hfree := (parts.manifest_free hc hready hwanted).2
      have hgone : Gone c w'.disk place (place ++ [Manifest.fileName]) := by
        refine Or.inl ⟨⟨_, rfl⟩, ?_⟩
        rw [parts.ended_get? hc hready, if_pos ⟨hwanted, rfl⟩]
        simp
      rw [hremoves.none_of hgone]
      cases hg : parts.prepared.disk.get? (place ++ [Manifest.fileName]) with
      | none => rfl
      | some e =>
        rw [hrendered, hg, hkept hg] at hfree
        exact absurd rfl hfree
    · rw [hleft _ (fun hwanted heq => hmanifest ⟨hwanted, heq⟩) hl.spot, hrendered]

end Parts

/-! ## Preparing once more -/

theorem sumOf_eq_zero {ι : Type} {f : ι → Action Nat} {items : List ι} {n : Nat}
    (hzero : ∀ x ∈ items, ∀ w k w', (f x).Returns w k w' → k = 0)
    (h : (sumOf (items.map f)).Returns w n w') : n = 0 := by
  induction items generalizing w n w' with
  | nil => exact (returns_pure.mp h).1
  | cons x rest ih =>
    obtain ⟨k, w₁, hfirst, h⟩ := returns_bind.mp h
    obtain ⟨j, w₂, hrest, h⟩ := returns_bind.mp h
    obtain ⟨hsum, -⟩ := returns_pure.mp h
    have hk := hzero x (by simp) _ _ _ hfirst
    have hj := ih (fun y hy => hzero y (List.mem_cons_of_mem _ hy)) hrest
    omega

/-- No directory goes if every namespace of the manifest is still exported. -/
theorem clear_exported {previous : Option Manifest}
    (hlisted : ∀ manifest, previous = some manifest → ∀ ns ∈ manifest.namespaces, ns ∈ c.namespaces)
    (h : (clear c previous).Returns w removed w') : removed.directories = 0 := by
  obtain ⟨cleared, w₁, -, h⟩ := returns_bind.mp h
  cases previous with
  | none =>
    obtain ⟨rfl, -⟩ := returns_pure.mp h
    rfl
  | some manifest =>
    obtain ⟨counts, w₂, hprune, h⟩ := returns_bind.mp h
    obtain ⟨rfl, -⟩ := returns_pure.mp h
    obtain ⟨files, w₃, -, h⟩ := returns_bind.mp hprune
    obtain ⟨directories, w₄, hnamespaces, h⟩ := returns_bind.mp h
    obtain ⟨rfl, -⟩ := returns_pure.mp h
    apply sumOf_eq_zero _ hnamespaces
    intro ns hns w k w' hone
    unfold pruneNamespace at hone
    rw [if_pos (by simp [hlisted manifest rfl ns hns])] at hone
    exact (returns_pure.mp hone).1

/-- However the root is prepared after the run, it is ready and can stand for the root on which the run
wrote. -/
structure Again (parts : Parts c now m w report w') (place : Location) : Prop where
  ready : Ready c parts.prepared.disk place
  completes : ∀ {w₁ : Workplace}, w₁.disk = w'.disk → (prepare c).Completes w₁
  prepared : ∀ {w₁ : Workplace} {removed : Removed} {w₂ : Workplace}, w₁.disk = w'.disk →
    (prepare c).Returns w₁ removed w₂ → removed.directories = 0 ∧ Ready c w₂.disk place ∧
      Replays c (planFor c m) place parts.prepared.disk w₂.disk

/-- A root that the run left as a directory is cleared of what the run wrote. -/
theorem Parts.again_of_checked (parts : Parts c now m w report w') (hc : c.Valid)
    (hready : Ready c parts.prepared.disk place)
    (hkept : ∀ {name : String} {e : Entry},
      parts.prepared.disk.get? (place ++ [name]) = some e → e = .directory)
    (hcheck : checkPath c.outputRoot = .ok ()) (hnow : now.Valid)
    (hcount : ∀ t ∈ m.types, Countable t) : Again parts place := by
  obtain ⟨hend, -⟩ := parts.ended_ready hc hready
  have hdir := hend.anchored.leads.isDirectory hcheck
  have hlinks : LinksLoose w'.disk place := fun l target hl ht => absurd ht (hend.unlinked l hl target)
  refine ⟨hready, fun {w₁} hsame => ?_, fun {w₁ removed w₂} hsame hprepare => ?_⟩
  · have hclear : Clearable c w'.disk place := by
      refine ⟨hend.sound, hend.anchored, hdir, hlinks, fun {name e} he hfile => ?_⟩
      rcases parts.child_cases hc hready hkept he with hdir | ⟨hwanted, rfl⟩
      · exact absurd hdir hfile
      · exact (parts.manifest_free hc hready hwanted).1
    exact prepare_completes hc (hsame ▸ hclear)
  · rw [← hsame] at hend hdir hlinks
    have hremoves := prepare_removes hc hend.sound hend.anchored hdir hlinks hprepare
    refine ⟨?_, ready_of_removes hend.anchored hlinks hremoves,
      parts.replays hc hready hkept hnow hcount (hsame ▸ hremoves)⟩
    obtain ⟨_, -, hclear⟩ := prepare_there hdir hprepare
    apply clear_exported _ hclear
    intro manifest hheeded
    rw [hsame] at hheeded
    obtain ⟨-, rfl⟩ := parts.heeded_cases hc hready hkept hnow hcount hheeded
    exact fun ns hns => hns

section Refused

variable (hc : c.Valid) (hordinary : Ordinary c.outputRoot) (hne : c.outputRoot.text ≠ "")
  (hmoves : c.outputRoot.moves = []) (hcheck : checkPath c.outputRoot ≠ .ok ())

include hordinary hmoves hcheck in
/-- The top of the tree, if the system does not take its spelling, counts as missing. Making it makes
nothing. -/
theorem prepare_refused : (prepare c).Returns w removed w' ↔ removed = ⟨0, 0⟩ ∧ w' = w := by
  have hmissing : w.disk.isDirectory c.outputRoot = false := by
    rw [Bool.eq_false_iff]
    intro hdir
    exact hcheck (Disk.leads_of_isDirectory hdir).1
  rw [prepare_missing hmissing, Disk.provide_top hordinary hmoves]
  simp

include hne hcheck

/-- A path that the system does not take has no acceptable one below it. -/
theorem not_checked_below {name : String} (hname : Path.IsEntryName name) :
    checkPath (c.outputRoot.join name) ≠ .ok () := fun h =>
  hcheck (Disk.checkPath_of_isPrefix (Path.text_isPrefix_join _ hname) hne h)

include hc

theorem not_housable (hs : Except.ok s ∈ planFor c m) : ¬ (jobOf c s).Housable d place := by
  intro hh
  have hname := ((plannable_plan hc _).proper hs).isEntryName_ns
  exact not_checked_below hne hcheck hname (Files.housing_eq_ok.mp hh).1

theorem no_fate (hs : Except.ok s ∈ planFor c m) {x : Written} :
    (jobOf c s).fateIn d place ≠ .ok x := fun h =>
  not_housable hc hne hcheck hs (Job.fate_eq_ok_iff.mp h).1

/-- Under such a root the plan writes nothing at all. -/
theorem spared_refused (l : Location) : Spared c (planFor c m) d place l where
  house := fun _ hs _ => not_housable hc hne hcheck hs
  spot := fun _ _ hs _ => no_fate hc hne hcheck hs

theorem replays_refused (hhome : d'.home = d.home) (hsame : ∀ l, d'.get? l = d.get? l) :
    Replays c (planFor c m) place d d' where
  home := hhome
  houses := fun hs hh => absurd hh (not_housable hc hne hcheck hs)
  spots := fun hs hx => absurd hx (no_fate hc hne hcheck hs)
  spared := fun {l} _ => hsame l

end Refused

/-- Where the root is the top of the tree, spelt by too many slashes, the run changes nothing. -/
theorem Parts.again_of_top (parts : Parts c now m w report w') (hc : c.Valid)
    (hd : w.disk.Sound) (hordinary : Ordinary c.outputRoot) (hne : c.outputRoot.text ≠ "")
    (hmoves : c.outputRoot.moves = []) (hlinks : ∀ l, Inside [] l → Unlinked w.disk l)
    (hdir : w.disk.isDirectory c.outputRoot = false) : Again parts [] := by
  have hcheck : checkPath c.outputRoot ≠ .ok () := by
    intro hcheck
    rw [(Disk.leads_top hordinary hne hmoves).isDirectory hcheck] at hdir
    cases hdir
  have hready : Ready c parts.prepared.disk [] := by
    obtain ⟨-, hstay⟩ := (prepare_refused hordinary hmoves hcheck).mp parts.preparing
    rw [hstay, parts.started_eq]
    exact ⟨hd, fun d' _ => Disk.leads_top hordinary hne hmoves, hlinks⟩
  have hunwanted : c.writeManifest ≠ true := fun hwanted =>
    not_checked_below hne hcheck isEntryName_manifest (parts.manifest_free hc hready hwanted).1
  have hsame : ∀ l, w'.disk.get? l = parts.prepared.disk.get? l := by
    intro l
    rw [parts.ended_get? hc hready, if_neg fun h => hunwanted h.1]
    exact (parts.rendered_settled hc hready).spared (spared_refused hc hne hcheck l)
  obtain ⟨hend, houtside⟩ := parts.ended_ready hc hready
  refine ⟨hready, fun {w₁} _ => ⟨_, _, (prepare_refused hordinary hmoves hcheck).mpr ⟨rfl, rfl⟩⟩,
    fun {w₁ removed w₂} hfrom hprepare => ?_⟩
  obtain ⟨rfl, rfl⟩ := (prepare_refused hordinary hmoves hcheck).mp hprepare
  rw [hfrom]
  exact ⟨rfl, hend, replays_refused hc hne hcheck houtside.home hsame⟩

/-! ## The second run -/

/-- What the root has to be like before the first run: where its path leads, if it leads anywhere, the
way does not run through what is below the root, and no link is below it. -/
structure Repeatable (c : Config) (d : Disk) : Prop where
  named : c.outputRoot.text ≠ ""
  ordinary : Ordinary c.outputRoot
  anchored : ∀ {place : Location}, Leads d c.outputRoot place → Anchored d c.outputRoot place
  unlinked : ∀ {place l : Location}, Leads d c.outputRoot place → Inside place l → Unlinked d l

theorem Parts.again (parts : Parts c now m w report w') (hc : c.Valid) (hd : w.disk.Sound)
    (hroot : Repeatable c w.disk) (hnow : now.Valid) (hcount : ∀ t ∈ m.types, Countable t) :
    ∃ place, Again parts place := by
  by_cases hdir : w.disk.isDirectory c.outputRoot = true
  · obtain ⟨hcheck, place, hleads⟩ := Disk.leads_of_isDirectory hdir
    have hlinks : LinksLoose w.disk place := fun l target hl ht =>
      absurd ht (hroot.unlinked hleads hl target)
    obtain ⟨hremoves, hready⟩ := parts.ready_of_there hc hd (hroot.anchored hleads) hdir hlinks
    exact ⟨place, parts.again_of_checked hc hready (housekept_of_removes hremoves).houses hcheck hnow
      hcount⟩
  · have hdir : w.disk.isDirectory c.outputRoot = false := by simpa using hdir
    by_cases hmoves : c.outputRoot.moves = []
    · have htop := Disk.leads_top (d := w.disk) hroot.ordinary hroot.named hmoves
      exact ⟨[], parts.again_of_top hc hd hroot.ordinary hroot.named hmoves
        (fun l hl => hroot.unlinked htop hl) hdir⟩
    · obtain ⟨-, place, -, hempty, hready⟩ := parts.ready_of_missing hd hroot.ordinary hmoves hdir
      have hstart : parts.started.disk.isDirectory c.outputRoot = false := by
        rw [parts.started_eq, hdir]
      obtain ⟨-, d, hprovide, -⟩ := (prepare_missing hstart).mp parts.preparing
      refine ⟨place, parts.again_of_checked hc hready (fun {name e} he => ?_)
        (Disk.checkPath_of_provide hmoves hprovide) hnow hcount⟩
      rw [hempty _ (Disk.inside_child place name)] at he
      cases he

/-- The second tree is the first one, but for the time that the manifest tells. -/
structure Retimed (c : Config) (now now' : Instant) (report : Report) (d d' : Disk) : Prop where
  home : d'.home = d.home
  same : ∀ {l : Location}, (c.writeManifest = true →
    d.find (c.outputRoot.join Manifest.fileName) ≠ .ok l) → d'.get? l = d.get? l
  manifest : c.writeManifest = true →
    d.text (c.outputRoot.join Manifest.fileName) = .ok (Manifest.ofRun now c.module c.namespaces
        c.outputRoot report.written report.failures).text ∧
      d'.text (c.outputRoot.join Manifest.fileName) = .ok (Manifest.ofRun now' c.module c.namespaces
        c.outputRoot report.written report.failures).text

namespace Again

variable {parts : Parts c now m w report w'} {report' : Report} {w'' : Workplace}
  (h : Again parts place) (hc : c.Valid)

include h hc

/-- What is written on the root prepared again is what the run has written. -/
theorem rendered_get? (hsame : w₁.disk = w'.disk) (hprepare : (prepare c).Returns w₁ removed w₂)
    (l : Location) :
    (renderAll c (planFor c m) w₂.disk).2.get? l = parts.rendered.disk.get? l := by
  have hrendered := parts.rendered_settled hc h.ready
  obtain ⟨-, hready, hreplays⟩ := h.prepared hsame hprepare
  exact hreplays.settled_eq (plannable_plan hc _) hrendered (hready.settled hc) l

theorem run_completes (hm : doc.require c.module = .ok m) (now' : Instant) :
    (generate c now' doc).Completes w' := by
  apply generate_completes_of_prepare hc hm (fun w₁ => h.completes)
  intro w₁ removed w₂ hsame hprepare
  refine ⟨(h.prepared hsame hprepare).2.1, fun hwanted => ?_⟩
  rw [h.rendered_get? hc hsame hprepare]
  exact parts.manifest_free hc h.ready hwanted

/-- Every class has the outcome again that it had. -/
theorem reported (parts' : Parts c now' m w' report' w'') :
    report'.written = report.written ∧ report'.failures = report.failures := by
  obtain ⟨-, hready, hreplays⟩ := h.prepared parts'.started_eq parts'.preparing
  have houtcomes : (renderAll c (planFor c m) parts'.prepared.disk).1 =
      (renderAll c (planFor c m) parts.prepared.disk).1 := by
    rw [parts'.outcomes_eq hc hready, parts.outcomes_eq hc h.ready]
    exact hreplays.outcomes_eq (plannable_plan hc _)
  rw [parts'.written_eq, parts.written_eq, parts'.failures_eq, parts.failures_eq, houtcomes]
  exact ⟨rfl, rfl⟩

theorem retimed (parts' : Parts c now' m w' report' w'') (hname : m.name = c.module) :
    Retimed c now now' report w'.disk w''.disk := by
  obtain ⟨-, hready, hreplays⟩ := h.prepared parts'.started_eq parts'.preparing
  obtain ⟨hend, houtside⟩ := parts.ended_ready hc h.ready
  obtain ⟨-, houtside'⟩ := parts'.ended_ready hc hready
  refine ⟨?_, fun {l} hl => ?_, fun hwanted => ?_⟩
  · rw [houtside'.home, hreplays.home, houtside.home]
  · have hne : ¬ (c.writeManifest = true ∧ l = place ++ [Manifest.fileName]) := by
      intro hmanifest
      obtain ⟨hwanted, rfl⟩ := hmanifest
      apply hl hwanted
      apply (hend.anchored.leads.find_child_iff hend.sound isEntryName_manifest
        (hend.unlinked _ (Disk.inside_child place _))).mpr
      refine ⟨(parts.manifest_free hc h.ready hwanted).1, rfl, ?_⟩
      rw [parts.ended_get? hc h.ready, if_pos ⟨hwanted, rfl⟩]
      rfl
    have hsame : parts'.rendered.disk.get? l = parts.rendered.disk.get? l := by
      rw [parts'.rendered_eq]
      exact h.rendered_get? hc parts'.started_eq parts'.preparing l
    rw [parts'.ended_get? hc hready, if_neg hne, parts.ended_get? hc h.ready, if_neg hne, hsame]
  · obtain ⟨hwritten, hfailures⟩ := h.reported hc parts'
    have htext := parts.manifest_text hc h.ready hwanted
    have htext' := parts'.manifest_text hc hready hwanted
    rw [Parts.manifest, hname] at htext
    rw [Parts.manifest, hname, hwritten, hfailures] at htext'
    exact ⟨htext, htext'⟩

end Again

/-- Run again at once, with the same settings and the same catalog, the second run goes through and
reports what the first did. It removes no directory and leaves the tree as it found it, but for the time
in the manifest. -/
theorem generate_again (hc : c.Valid) (hd : w.disk.Sound) (hroot : Repeatable c w.disk)
    (hnow : now.Valid) (hcount : ∀ m ∈ doc.modules, ∀ t ∈ m.types, Countable t)
    (h : (generate c now doc).Returns w report w') (now' : Instant) :
    ∃ report' w'', (generate c now' doc).Returns w' report' w'' ∧
      report'.written = report.written ∧ report'.failures = report.failures ∧
      report'.counters = report.counters ∧ report'.removed.directories = 0 ∧
      Retimed c now now' report w'.disk w''.disk := by
  obtain ⟨m, hm, ⟨parts⟩⟩ := generate_returns h
  obtain ⟨hmem, hname⟩ := Document.mem_of_require hm
  obtain ⟨place, hagain⟩ := parts.again hc hd hroot hnow (hcount m hmem)
  obtain ⟨report', w'', hrun⟩ := hagain.run_completes hc hm now'
  obtain ⟨m', hm', ⟨parts'⟩⟩ := generate_returns hrun
  obtain rfl : m' = m := Except.ok.inj (hm'.symm.trans hm)
  obtain ⟨hwritten, hfailures⟩ := hagain.reported hc parts'
  obtain ⟨hkeep, -⟩ := hagain.prepared parts'.started_eq parts'.preparing
  refine ⟨report', w'', hrun, hwritten, hfailures, ?_, hkeep, hagain.retimed hc parts' hname⟩
  rw [parts'.counters_eq, parts.counters_eq]

/-- The first run makes the root and writes a stub. The second one goes by the manifest, removes the stub
and writes it again. -/
theorem generate_again_of_missing :
    let c : Config := { Config.standard with module := "M", namespaces := ["N"], outputRoot := ⟨"G"⟩ }
    let doc : Document := ⟨[⟨"M", [.emptyClass "N" "A"]⟩]⟩
    let now : Instant := ⟨⟨2024, 1, 1⟩, 0, 0⟩
    let now' : Instant := ⟨⟨2024, 1, 2⟩, 0, 0⟩
    ∃ report report' w' w'', (generate c now doc).Returns ⟨⟨[], []⟩, []⟩ report w' ∧
      (generate c now' doc).Returns w' report' w'' ∧ report'.written = report.written ∧
        Retimed c now now' report w'.disk w''.disk := by
  intro c doc now now'
  obtain ⟨report, hfirst⟩ : ∃ report, (generate c now doc).Returns ⟨⟨[], []⟩, []⟩ report _ :=
    returns_of_isOk (by decide +kernel)
  have hnowhere : ∀ place, ¬ Leads ⟨[], []⟩ c.outputRoot place := by
    intro place hleads
    have hdir := hleads.isDirectory (by decide)
    exact absurd hdir (by decide)
  have hroot : Repeatable c ⟨[], []⟩ :=
    ⟨by decide, by decide, fun h => absurd h (hnowhere _), fun h => absurd h (hnowhere _)⟩
  obtain ⟨report', w'', hsecond, hwritten, -, -, -, hretimed⟩ :=
    generate_again ⟨by decide, by decide, by decide⟩ (by decide : Sound ⟨[], []⟩) hroot
      ⟨by decide, by decide, by decide, by decide⟩
      (by simp [doc, Countable, TypeDecl.emptyClass]) hfirst now'
  exact ⟨report, report', _, w'', hfirst, hsecond, hwritten, hretimed⟩

/-! ## A way through what is below the root -/

/-- A tree with an old manifest in the root, an empty directory that the manifest names, and a link
elsewhere that leads to the root by way of that directory. -/
def roundaboutDisk : Disk :=
  ⟨[(["out"], .directory), (["out", "sub"], .directory),
    (["out", Manifest.fileName], .file
      (Manifest.text ⟨⟨⟨2024, 1, 1⟩, 0, 0⟩, "M", ["sub"], [], [], Manifest.currentVersion⟩).toUTF8),
    (["L"], .link "out/sub/..")], []⟩

def roundaboutConfig : Config :=
  { Config.standard with
    module := "M", namespaces := [], outputRoot := ⟨"L"⟩, writeManifest := false }

theorem roundaboutDisk_unlinked (hl : Inside ["out"] l) : Unlinked roundaboutDisk l := by
  intro target hlink
  obtain ⟨name, rest, rfl⟩ := hl
  have hmem : (["out"] ++ name :: rest, Entry.link target) ∈ roundaboutDisk.entries :=
    (Disk.lookup_eq_some_iff_mem (by decide)).mp hlink
  simp [roundaboutDisk] at hmem

/-- A run on that tree, with a catalog of one empty module. -/
def roundaboutRun : Action Report :=
  generate roundaboutConfig ⟨⟨2024, 1, 2⟩, 0, 0⟩ ⟨[⟨"M", []⟩]⟩

/-- The first run goes through, and the one after it does not. -/
theorem roundabout_once : ∃ report w', roundaboutRun.Returns ⟨roundaboutDisk, []⟩ report w' ∧
    (roundaboutRun.ending w').1.isOk = false := by
  have hruns : (match roundaboutRun.ending ⟨roundaboutDisk, []⟩ with
      | (.ok _, w') => (roundaboutRun.ending w').1.isOk
      | (.error _, _) => true) = false := by decide +kernel
  unfold Returns
  revert hruns
  cases roundaboutRun.ending ⟨roundaboutDisk, []⟩ with
  | mk result w' =>
    cases result with
    | error f =>
      intro h
      cases h
    | ok report =>
      intro h
      exact ⟨report, w', rfl, h⟩

/-- If the path to the root runs through a directory below it, the first run may remove that directory,
and then the second one fails. -/
theorem roundabout_not_again :
    roundaboutConfig.Valid ∧ roundaboutDisk.Sound ∧ roundaboutConfig.outputRoot.text ≠ "" ∧
      Ordinary roundaboutConfig.outputRoot ∧
      roundaboutDisk.find roundaboutConfig.outputRoot = .ok ["out"] ∧
      (∀ l, Inside ["out"] l → Unlinked roundaboutDisk l) ∧
      ∃ report w', roundaboutRun.Returns ⟨roundaboutDisk, []⟩ report w' ∧
        ∀ report' w'', ¬ roundaboutRun.Returns w' report' w'' := by
  obtain ⟨report, w', hfirst, hrefused⟩ := roundabout_once
  refine ⟨⟨by decide, by decide, by decide⟩, by decide, by decide, by decide, by decide +kernel,
    fun l => roundaboutDisk_unlinked, report, w', hfirst, ?_⟩
  intro report' w'' hsecond
  rw [hsecond] at hrefused
  cases hrefused

end StubListing.Run
