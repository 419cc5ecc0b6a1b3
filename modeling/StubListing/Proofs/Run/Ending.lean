import StubListing.Proofs.Run.Running
/-!
# The tree at the end of a run

Once the root is prepared, the tree at the end is settled for the plan, with the manifest written
over it if it is wanted, and the outcomes can be read off the prepared tree.
-/
namespace StubListing.Run
open StubListing.Action StubListing.Catalog StubListing.Stub
open StubListing.Disk (Sound Anchored Leads Inside Unlinked AgreesOutside checkPath)

variable {c : Config} {now : Instant} {m : Module} {w w' : Workplace} {report : Report}
  {place : Location} {d d' : Disk}

theorem mem_types_of_planned (hc : c.Valid) {s : Selected} (hs : Except.ok s ∈ planFor c m) :
    s.type ∈ m.types ∧ s.ns ∈ c.namespaces :=
  mem_types_of_mem_select (mem_of_mem_plan hc hs)

/-! ## Settled trees -/

theorem Settled.agreesOutside {plan : List Planned} (h : Settled c plan d place d') :
    AgreesOutside place d d' := by
  refine ⟨h.keeps.home, fun {l} hl => h.others (fun s _ he => ?_) (fun s w _ he => ?_)⟩
  · exact absurd (he ▸ inside_house _ place) hl
  · exact absurd (he ▸ inside_spot _ place) hl

/-- What a run needs of the root once it is prepared. -/
structure Ready (c : Config) (d : Disk) (place : Location) : Prop where
  sound : d.Sound
  anchored : Anchored d c.outputRoot place
  unlinked : ∀ l, Inside place l → Unlinked d l

theorem Settled.ready {plan : List Planned} (h : Settled c plan d place d')
    (hready : Ready c d place) : Ready c d' place :=
  ⟨h.sound hready.sound, hready.anchored.agrees h.agreesOutside, h.unlinked hready.unlinked⟩

theorem Ready.settled (h : Ready c d place) (hc : c.Valid) :
    Settled c (planFor c m) d place (renderAll c (planFor c m) d).2 :=
  (renderAll_settled (plannable_plan hc _) h.anchored.leads h.unlinked).2

/-- What has a name that no accepted class has for its namespace stays as it is. -/
theorem Settled.child_eq {plan : List Planned} (h : Settled c plan d place d') {name : String}
    (hn : ∀ s, Except.ok s ∈ plan → s.ns ≠ name) :
    d'.get? (place ++ [name]) = d.get? (place ++ [name]) := by
  refine h.others (fun s hs heq => ?_) fun s w _ heq => ?_
  · have hname : name = s.ns := (List.cons.inj (List.append_cancel_left heq)).1
    exact absurd hname.symm (hn s hs)
  · exact absurd heq.symm (Disk.grandchild_ne_child _ _ _ _)

/-! ## Parts of a run -/

theorem mem_writtenOf {outcomes : List Outcome} {x : Written} :
    x ∈ writtenOf outcomes ↔ Except.ok x ∈ outcomes := by
  unfold writtenOf
  rw [List.mem_filterMap]
  constructor
  · rintro ⟨o, ho, hx⟩
    cases o <;> cases hx
    exact ho
  · exact fun ho => ⟨_, ho, rfl⟩

namespace Parts

variable (parts : Parts c now m w report w') (hc : c.Valid)
  (hready : Ready c parts.prepared.disk place)

include hc hready

theorem rendered_settled :
    Settled c (planFor c m) parts.prepared.disk place parts.rendered.disk := by
  rw [parts.rendered_eq]
  exact hready.settled hc

theorem outcomes_eq :
    (renderAll c (planFor c m) parts.prepared.disk).1 =
      (planFor c m).map (outcomeIn c parts.prepared.disk place) :=
  (renderAll_settled (plannable_plan hc _) hready.anchored.leads hready.unlinked).1

theorem rendered_ready : Ready c parts.rendered.disk place :=
  (parts.rendered_settled hc hready).ready hready

/-- The manifest of the run. -/
def manifest (_ : Parts c now m w report w') : Manifest :=
  .ofRun now m.name c.namespaces c.outputRoot report.written report.failures

/-- The whole tree at the end. -/
theorem ended_get? (l : Location) :
    w'.disk.get? l =
      if c.writeManifest = true ∧ l = place ++ [Manifest.fileName] then
        some (.file parts.manifest.text.toUTF8)
      else parts.rendered.disk.get? l := by
  have hrendered := parts.rendered_ready hc hready
  have h := record_returns hrendered.anchored.leads
    (hrendered.unlinked _ (Disk.inside_child place _)) parts.recording
  rw [parts.ended_eq]
  split at h
  · rename_i hwanted
    rw [h.2.2.2.2.2 l]
    simp [hwanted, manifest]
  · rename_i hunwanted
    rw [h.2, if_neg fun hl => hunwanted hl.1]

theorem ended_sound : w'.disk.Sound ∧ w'.disk.home = parts.rendered.disk.home := by
  have hrendered := parts.rendered_ready hc hready
  have h := record_returns hrendered.anchored.leads
    (hrendered.unlinked _ (Disk.inside_child place _)) parts.recording
  rw [parts.ended_eq]
  split at h
  · exact ⟨h.2.2.2.2.1 hrendered.sound, h.2.2.2.1⟩
  · rw [h.2]
    exact ⟨hrendered.sound, rfl⟩

/-- The manifest does not stand where a directory is. -/
theorem manifest_free (hwanted : c.writeManifest = true) :
    checkPath (c.outputRoot.join Manifest.fileName) = .ok () ∧
      parts.rendered.disk.get? (place ++ [Manifest.fileName]) ≠ some .directory := by
  have hrendered := parts.rendered_ready hc hready
  have h := record_returns hrendered.anchored.leads
    (hrendered.unlinked _ (Disk.inside_child place _)) parts.recording
  rw [if_pos hwanted] at h
  exact ⟨h.2.1, h.2.2.1⟩

/-- Below the root the run leaves no link, and outside nothing is changed. -/
theorem ended_ready :
    Ready c w'.disk place ∧ AgreesOutside place parts.prepared.disk w'.disk := by
  have hrendered := parts.rendered_ready hc hready
  have hget := parts.ended_get? hc hready
  obtain ⟨hsound, hhome⟩ := parts.ended_sound hc hready
  have hagrees : AgreesOutside place parts.rendered.disk w'.disk := by
    refine ⟨hhome, fun {l} hl => ?_⟩
    rw [hget, if_neg]
    rintro ⟨-, rfl⟩
    exact hl (Disk.inside_child place _)
  refine ⟨⟨hsound, hrendered.anchored.agrees hagrees, fun l hl target ht => ?_⟩,
    (parts.rendered_settled hc hready).agreesOutside.trans hagrees⟩
  rw [hget] at ht
  split at ht
  · cases ht
  · exact hrendered.unlinked l hl target ht

/-! ## What is reported -/

omit hready in
theorem planFor_getElem? (i : Nat) :
    (planFor c m)[i]? = (select c.namespaces m.types)[i]?.map
      (planned c ((select c.namespaces m.types).take i)) := plan_getElem? hc _ i

theorem mem_written {x : Written} :
    x ∈ report.written ↔ ∃ s, Except.ok s ∈ planFor c m ∧
      (jobOf c s).fateIn parts.prepared.disk place = .ok x := by
  rw [parts.written_eq, parts.outcomes_eq hc hready, mem_writtenOf, List.mem_map]
  simp only [outcomeIn_eq_ok]
  exact ⟨fun ⟨p, hp, s, hs, hf⟩ => ⟨s, hs ▸ hp, hf⟩, fun ⟨s, hs, hf⟩ => ⟨_, hs, s, rfl, hf⟩⟩

end Parts

/-! ## Roots that were there -/

theorem ready_of_removes (hroot : Anchored d c.outputRoot place) (hlinks : LinksLoose d place)
    (h : Disk.Removes (Gone c d place) d d') : Ready c d' place :=
  ⟨h.sound, hroot.agrees (h.agreesOutside fun _ => inside_of_gone),
    unlinked_of_removes hlinks (fun _ => Or.inl) h⟩

/-- A root that was there is ready once it is prepared. -/
theorem Parts.ready_of_there (parts : Parts c now m w report w') (hc : c.Valid)
    (hd : w.disk.Sound) (hroot : Anchored w.disk c.outputRoot place)
    (hdir : w.disk.isDirectory c.outputRoot = true) (hlinks : LinksLoose w.disk place) :
    Disk.Removes (Gone c w.disk place) w.disk parts.prepared.disk ∧
      Ready c parts.prepared.disk place := by
  have hstart := parts.started_eq
  have hremoves := prepare_removes hc (hstart ▸ hd) (hstart ▸ hroot) (hstart ▸ hdir)
    (hstart ▸ hlinks) parts.preparing
  rw [hstart] at hremoves
  exact ⟨hremoves, ready_of_removes hroot hlinks hremoves⟩

/-- A root that was missing is ready once it is prepared. -/
theorem Parts.ready_of_missing (parts : Parts c now m w report w') (hd : w.disk.Sound)
    (hordinary : Disk.Ordinary c.outputRoot) (hmoves : c.outputRoot.moves ≠ [])
    (hdir : w.disk.isDirectory c.outputRoot = false) :
    Disk.Grows w.disk parts.prepared.disk ∧ ∃ place, w.disk.get? place = none ∧
      (∀ l, Inside place l → parts.prepared.disk.get? l = none) ∧
      Ready c parts.prepared.disk place := by
  have hstart := parts.started_eq
  obtain ⟨hgrows, place, hnone, hempty, hroot⟩ :=
    prepare_grows (hstart ▸ hd) hordinary hmoves (hstart ▸ hdir) parts.preparing
  rw [hstart] at hgrows hnone
  refine ⟨hgrows, place, hnone, hempty, hgrows.sound hd, hroot, fun l hl target ht => ?_⟩
  rw [hempty l hl] at ht
  cases ht

end StubListing.Run
