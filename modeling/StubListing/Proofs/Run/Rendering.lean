import StubListing.Proofs.Run.Planning
import StubListing.Proofs.Stub.Standing
/-!
# Stubs written at the same time

The stubs of a plan may be written by any number of workers, whose steps mix in any order. A
schedule says whose turn it is. In a root that is a directory each stub stands along every schedule as
if it were alone, so when all are finished the outcomes and the tree can be told from the tree at the
start. One class after the other is one of the schedules.
-/
namespace StubListing.Run
open StubListing.Catalog StubListing.Stub
open StubListing.Disk (Leads Unlinked Keeps Inside)

/-- The writing of several stubs: the tree they share, and how far each of them has come. -/
structure Rendering where
  disk : Disk
  stage : Nat → Stage

namespace Rendering

/-- Nothing has been written yet. -/
def start (d : Disk) : Rendering := ⟨d, fun _ => .waiting⟩

/-- One class of the plan makes its next step. A class that is turned down makes none. -/
def advance (c : Config) (plan : List Planned) (r : Rendering) (i : Nat) : Rendering :=
  match plan[i]? with
  | some (.ok s) =>
    let made := (jobOf c s).step r.disk (r.stage i)
    ⟨made.2, fun k => if k = i then made.1 else r.stage k⟩
  | _ => r

/-- The classes make steps in the order of the schedule. -/
def interleave (c : Config) (plan : List Planned) (schedule : List Nat) (d : Disk) : Rendering :=
  schedule.foldl (advance c plan) (start d)

/-- The class in some place of the plan has made all its steps. -/
def finish (r : Rendering) (i : Nat) (made : Except Failure Written × Disk) : Rendering :=
  ⟨made.2, fun k => if k = i then .finished made.1 else r.stage k⟩

@[simp] theorem finish_disk (r : Rendering) (i : Nat) (made : Except Failure Written × Disk) :
    (r.finish i made).disk = made.2 := rfl

theorem finish_stage_self (r : Rendering) (i : Nat) (made : Except Failure Written × Disk) :
    (r.finish i made).stage i = .finished made.1 := if_pos rfl

theorem finish_stage_of_ne (r : Rendering) {i k : Nat} (made : Except Failure Written × Disk)
    (h : k ≠ i) : (r.finish i made).stage k = r.stage k := if_neg h

/-- What became of the class in some place of the plan, if that is known. -/
def told? (c : Config) (r : Rendering) (i : Nat) : Planned → Option Outcome
  | .error f => some (.error f)
  | .ok s => match r.stage i with
    | .finished result => some ((jobOf c s).outcome result)
    | _ => none

/-- What became of the classes, in the order of the plan. -/
def outcomes (c : Config) (plan : List Planned) (r : Rendering) : List (Option Outcome) :=
  plan.mapIdx (r.told? c)

end Rendering

variable {c : Config} {plan : List Planned} {d d' : Disk} {root : Location}

/-! ## What the tree comes to -/

/-- What becomes of a planned class when nothing else is written to the tree. -/
def outcomeIn (c : Config) (d : Disk) (root : Location) : Planned → Outcome
  | .error f => .error f
  | .ok s => (jobOf c s).outcome ((jobOf c s).fateIn d root)

theorem outcomeIn_eq_ok {p : Planned} {x : Written} :
    outcomeIn c d root p = .ok x ↔ ∃ s, p = .ok s ∧ (jobOf c s).fateIn d root = .ok x := by
  cases p with
  | error f => simp [outcomeIn]
  | ok s =>
    have houtcome : outcomeIn c d root (.ok s) = (jobOf c s).outcome ((jobOf c s).fateIn d root) :=
      rfl
    rw [houtcome]
    cases hf : (jobOf c s).fateIn d root <;> simp [Job.outcome, hf]

/-- The second tree is the first with everything written that the plan accepts and that can be
written. -/
structure Settled (c : Config) (plan : List Planned) (d : Disk) (root : Location) (d' : Disk) :
    Prop where
  keeps : Keeps d d'
  sound : d.Sound → d'.Sound
  houses : ∀ {s : Selected}, Except.ok s ∈ plan → (jobOf c s).Housable d root →
    d'.get? ((jobOf c s).house root) = some .directory
  spots : ∀ {s : Selected} {w : Written}, Except.ok s ∈ plan → (jobOf c s).fateIn d root = .ok w →
    d'.get? ((jobOf c s).spot root) = some (.file (jobOf c s).text.toUTF8)
  others : ∀ {l : Location},
    (∀ s, Except.ok s ∈ plan → l = (jobOf c s).house root → ¬ (jobOf c s).Housable d root) →
    (∀ s w, Except.ok s ∈ plan → l = (jobOf c s).spot root → (jobOf c s).fateIn d root ≠ .ok w) →
    d'.get? l = d.get? l

/-- There is only one such tree. -/
theorem Settled.get?_eq {d₁ d₂ : Disk} (h₁ : Settled c plan d root d₁)
    (h₂ : Settled c plan d root d₂) (l : Location) : d₁.get? l = d₂.get? l := by
  by_cases hhouse : ∃ s, Except.ok s ∈ plan ∧ l = (jobOf c s).house root ∧
      (jobOf c s).Housable d root
  · obtain ⟨s, hs, rfl, hh⟩ := hhouse
    rw [h₁.houses hs hh, h₂.houses hs hh]
  · by_cases hspot : ∃ s w, Except.ok s ∈ plan ∧ l = (jobOf c s).spot root ∧
        (jobOf c s).fateIn d root = .ok w
    · obtain ⟨s, w, hs, rfl, hw⟩ := hspot
      rw [h₁.spots hs hw, h₂.spots hs hw]
    · have hh := fun s hs hl hh => hhouse ⟨s, hs, hl, hh⟩
      have hw := fun s w hs hl hw => hspot ⟨s, w, hs, hl, hw⟩
      rw [h₁.others hh hw, h₂.others hh hw]

/-- The tree has no links in the root but those that it had. -/
theorem Settled.unlinked (h : Settled c plan d root d') (hu : ∀ l, Inside root l → Unlinked d l) :
    ∀ l, Inside root l → Unlinked d' l := by
  intro l hl target ht
  by_cases hhouse : ∃ s, Except.ok s ∈ plan ∧ l = (jobOf c s).house root ∧
      (jobOf c s).Housable d root
  · obtain ⟨s, hs, rfl, hh⟩ := hhouse
    rw [h.houses hs hh] at ht
    cases ht
  · by_cases hspot : ∃ s w, Except.ok s ∈ plan ∧ l = (jobOf c s).spot root ∧
        (jobOf c s).fateIn d root = .ok w
    · obtain ⟨s, w, hs, rfl, hw⟩ := hspot
      rw [h.spots hs hw] at ht
      cases ht
    · have hsame := h.others (fun s hs he hh => hhouse ⟨s, hs, he, hh⟩)
        (fun s w hs he hw => hspot ⟨s, w, hs, he, hw⟩)
      exact hu l hl target (hsame ▸ ht)

/-! ## One step of one class -/

/-- The state of a rendering along every schedule. -/
structure Orderly (c : Config) (plan : List Planned) (d : Disk) (root : Location) (r : Rendering) :
    Prop where
  keeps : Keeps d r.disk
  sound : d.Sound → r.disk.Sound
  houses : ∀ {s : Selected}, Except.ok s ∈ plan → (jobOf c s).HouseKept d root r.disk
  standing : ∀ {i : Nat} {s : Selected}, plan[i]? = some (.ok s) →
    (jobOf c s).Standing d root r.disk (r.stage i)
  others : ∀ {l : Location},
    (∀ s, Except.ok s ∈ plan → l ≠ (jobOf c s).house root ∧ l ≠ (jobOf c s).spot root) →
    r.disk.get? l = d.get? l

theorem orderly_start (c : Config) (plan : List Planned) (d : Disk) (root : Location) :
    Orderly c plan d root (.start d) :=
  ⟨Keeps.refl d, id, fun _ => Or.inl rfl, fun _ => .waiting rfl, fun _ => rfl⟩

theorem inside_house (j : Job) (root : Location) : Inside root (j.house root) :=
  Disk.inside_child root j.ns

theorem inside_spot (j : Job) (root : Location) : Inside root (j.spot root) :=
  Disk.inside_append (Disk.inside_child root j.ns) [j.fileName]

theorem housable_congr {s t : Selected}
    (h : (jobOf c s).house root = (jobOf c t).house root) :
    (jobOf c s).Housable d root ↔ (jobOf c t).Housable d root := by
  have hns : s.ns = t.ns := (List.cons.inj (List.append_cancel_left h)).1
  unfold Job.Housable Job.housePath Job.house
  simp only [jobOf, hns]

/-- A step of one class leaves the rendering orderly. -/
theorem Orderly.advance {r : Rendering} (hp : Plannable c plan) (hroot : Leads d c.outputRoot root)
    (hlinks : ∀ l, Inside root l → Unlinked d l) (h : Orderly c plan d root r) (i : Nat) :
    Orderly c plan d root (r.advance c plan i) := by
  unfold Rendering.advance
  split
  · rename_i s hs
    have hmem := List.mem_of_getElem? hs
    obtain ⟨hnext, htouch⟩ := (h.standing hs).step (hp.proper hmem) (hroot.keeps h.keeps)
      (hlinks _ (inside_house _ root)) (hlinks _ (inside_spot _ root)) (h.houses hmem)
    refine ⟨⟨?_, ?_, ?_⟩, htouch.sound ∘ h.sound, fun {t} ht => ?_, fun {k t} ht => ?_, fun {l} hl => ?_⟩
    · rw [htouch.keeps.home, h.keeps.home]
    · exact fun hl => htouch.keeps.directory (h.keeps.directory hl)
    · exact fun hl => htouch.keeps.link (h.keeps.link hl)
    · -- the house of `t` may be the house of the class that made the step
      by_cases hsame : (jobOf c t).house root = (jobOf c s).house root
      · rcases htouch.house with hkeep | ⟨hhouse, hdir⟩
        · have := h.houses ht
          unfold Job.HouseKept at this ⊢
          rw [hsame] at this ⊢
          rwa [hkeep]
        · exact Or.inr ⟨(housable_congr hsame).mpr hhouse, hsame ▸ hdir⟩
      · have hspot := ((jobOf c s).spot_ne_house (jobOf c t) root).symm
        have hsteady := htouch.elsewhere _ hsame hspot
        have := h.houses ht
        unfold Job.HouseKept at this ⊢
        rwa [hsteady]
    · dsimp only
      by_cases hk : k = i
      · subst hk
        have : t = s := by simpa using ht.symm.trans hs
        subst this
        rw [if_pos rfl]
        exact hnext
      · rw [if_neg hk]
        have hspot := hp.spot_ne ht hs hk root
        have hhouse := (jobOf c t).spot_ne_house (jobOf c s) root
        exact (h.standing ht).frame htouch.keeps (htouch.elsewhere _ hhouse hspot)
    · obtain ⟨hhouse, hspot⟩ := hl s hmem
      rw [htouch.elsewhere l hhouse hspot, h.others hl]
  · exact h

/-! ## A whole schedule -/

/-- Every schedule is orderly from beginning to end. -/
theorem Orderly.interleave {r : Rendering} (hp : Plannable c plan)
    (hroot : Leads d c.outputRoot root) (hlinks : ∀ l, Inside root l → Unlinked d l)
    (h : Orderly c plan d root r) (schedule : List Nat) :
    Orderly c plan d root (schedule.foldl (Rendering.advance c plan) r) := by
  induction schedule generalizing r with
  | nil => exact h
  | cons i rest ih => exact ih (h.advance hp hroot hlinks i)

theorem stage_of_told {r : Rendering} {i : Nat} {s : Selected}
    (h : r.told? c i (.ok s) ≠ none) : ∃ result, r.stage i = .finished result := by
  unfold Rendering.told? at h
  cases hr : r.stage i with
  | finished result => exact ⟨result, rfl⟩
  | _ => simp [hr] at h

theorem Orderly.told?_eq {r : Rendering} (h : Orderly c plan d root r) {i : Nat} {p : Planned}
    (hi : plan[i]? = some p) (hdone : r.told? c i p ≠ none) :
    r.told? c i p = some (outcomeIn c d root p) := by
  cases p with
  | error f => rfl
  | ok s =>
    obtain ⟨result, hr⟩ := stage_of_told hdone
    have hst := h.standing hi
    rw [hr] at hst
    cases hst
    simp only [Rendering.told?, hr, outcomeIn]

theorem told_of_done {r : Rendering} (hdone : none ∉ r.outcomes c plan) {i : Nat} {p : Planned}
    (hi : plan[i]? = some p) : r.told? c i p ≠ none := by
  intro hnone
  refine hdone (List.mem_of_getElem? (i := i) ?_)
  rw [Rendering.outcomes, List.getElem?_mapIdx, hi, Option.map_some, hnone]

/-- When all classes are finished, each has the outcome it has on its own. -/
theorem Orderly.outcomes_eq {r : Rendering} (h : Orderly c plan d root r)
    (hdone : none ∉ r.outcomes c plan) :
    r.outcomes c plan = plan.map fun p => some (outcomeIn c d root p) := by
  apply List.ext_getElem?
  intro i
  rw [Rendering.outcomes, List.getElem?_mapIdx, List.getElem?_map]
  cases hi : plan[i]? with
  | none => rfl
  | some p => exact congrArg some (h.told?_eq hi (told_of_done hdone hi))

/-- When all classes are finished, the tree is settled. -/
theorem Orderly.settled {r : Rendering} (h : Orderly c plan d root r)
    (hdone : none ∉ r.outcomes c plan) : Settled c plan d root r.disk := by
  have hstanding : ∀ {s : Selected}, Except.ok s ∈ plan →
      (jobOf c s).Standing d root r.disk (.finished ((jobOf c s).fateIn d root)) := by
    intro s hs
    obtain ⟨i, hi⟩ := List.getElem?_of_mem hs
    obtain ⟨result, hr⟩ := stage_of_told (told_of_done hdone hi)
    have hst := h.standing hi
    rw [hr] at hst
    cases hst with
    | finished hhouse hwritten hfailed => exact .finished hhouse hwritten hfailed
  refine ⟨h.keeps, h.sound, fun {s} hs hhouse => ?_, fun {s w} hs hw => ?_, fun {l} hhouse hspot => ?_⟩
  · cases hstanding hs with
    | finished hh _ _ => exact hh hhouse
  · cases hstanding hs with
    | finished _ hwritten _ => exact hwritten w hw
  · by_cases hat : ∃ s, Except.ok s ∈ plan ∧ (l = (jobOf c s).house root ∨ l = (jobOf c s).spot root)
    · obtain ⟨s, hs, rfl | rfl⟩ := hat
      · rcases h.houses hs with hkeep | ⟨hh, -⟩
        · exact hkeep
        · exact absurd hh (hhouse s hs rfl)
      · cases hf : (jobOf c s).fateIn d root with
        | ok w => exact absurd hf (hspot s w hs rfl)
        | error f =>
          cases hstanding hs with
          | finished _ _ hfailed => exact hfailed f hf
    · refine h.others fun s hs => ⟨fun hl => hat ⟨s, hs, Or.inl hl⟩, fun hl => hat ⟨s, hs, Or.inr hl⟩⟩

/-! ## One class after the other -/

/-- Three steps of a class in a row are its whole run. -/
theorem advance_thrice {r : Rendering} {i : Nat} {s : Selected} (hs : plan[i]? = some (.ok s))
    (hw : r.stage i = .waiting) :
    [i, i, i].foldl (Rendering.advance c plan) r = r.finish i ((jobOf c s).run r.disk) := by
  have hrun := (jobOf c s).steps_eq_run r.disk
  simp only at hrun
  simp only [List.foldl_cons, List.foldl_nil, Rendering.advance, hs, hw, if_true, hrun,
    Rendering.finish]
  congr 1
  funext k
  by_cases hk : k = i <;> simp [hk]

/-- Some schedule lets the classes run one after the other. -/
theorem exists_schedule_renderAll (c : Config) (front rest : List Planned) (r : Rendering)
    (hw : ∀ k, front.length ≤ k → r.stage k = .waiting) :
    ∃ (schedule : List Nat) (r' : Rendering),
      schedule.foldl (Rendering.advance c (front ++ rest)) r = r' ∧
        r'.disk = (renderAll c rest r.disk).2 ∧
        (∀ k < front.length, r'.stage k = r.stage k) ∧
        (rest.mapIdx fun i => r'.told? c (front.length + i)) = (renderAll c rest r.disk).1.map some := by
  induction rest generalizing front r with
  | nil => exact ⟨[], r, rfl, rfl, fun _ _ => rfl, rfl⟩
  | cons p rest ih =>
    have hplan : front ++ p :: rest = (front ++ [p]) ++ rest := by simp
    have hlen : (front ++ [p]).length = front.length + 1 := by simp
    have hidx : ∀ r' : Rendering, ((p :: rest).mapIdx fun i => r'.told? c (front.length + i)) =
        r'.told? c front.length p ::
          rest.mapIdx fun i => r'.told? c ((front ++ [p]).length + i) := by
      intro r'
      rw [List.mapIdx_cons, hlen]
      simp only [Nat.add_zero, List.cons.injEq, true_and]
      congr 1
      funext i
      rw [Nat.add_assoc, Nat.add_comm 1 i]
    cases p with
    | error f =>
      obtain ⟨schedule, r', hr', hdisk, hstage, htold⟩ := ih (front ++ [.error f]) r
        fun k hk => hw k (by omega)
      refine ⟨schedule, r', hplan ▸ hr', hdisk, fun k hk => hstage k (by omega), ?_⟩
      rw [hidx r', htold]
      rfl
    | ok s =>
      have hs : ((front ++ [Except.ok s]) ++ rest)[front.length]? = some (Except.ok s) := by simp
      have hrun := advance_thrice (c := c) (r := r) hs (hw _ (Nat.le_refl _))
      obtain ⟨schedule, r', hr', hdisk, hstage, htold⟩ := ih (front ++ [.ok s])
        (r.finish front.length ((jobOf c s).run r.disk)) (by
          intro k hk
          rw [r.finish_stage_of_ne _ (by omega)]
          exact hw k (by omega))
      refine ⟨[front.length, front.length, front.length] ++ schedule, r', ?_, ?_, ?_, ?_⟩
      · rw [List.foldl_append, hplan, hrun]
        exact hr'
      · exact hdisk
      · intro k hk
        rw [hstage k (by omega), r.finish_stage_of_ne _ (by omega)]
      · have hself : r'.stage front.length = .finished ((jobOf c s).run r.disk).1 := by
          rw [hstage _ (by omega), r.finish_stage_self]
        rw [hidx r', htold]
        simp only [Rendering.told?, hself]
        rfl

/-- One class after the other is one of the orders. -/
theorem exists_interleave_renderAll (c : Config) (plan : List Planned) (d : Disk) :
    ∃ schedule, (Rendering.interleave c plan schedule d).disk = (renderAll c plan d).2 ∧
      (Rendering.interleave c plan schedule d).outcomes c plan = (renderAll c plan d).1.map some := by
  obtain ⟨schedule, r, rfl, hdisk, -, htold⟩ :=
    exists_schedule_renderAll c [] plan (.start d) fun _ _ => rfl
  refine ⟨schedule, hdisk, ?_⟩
  simp only [List.length_nil, Nat.zero_add] at htold
  exact htold

/-- What every order comes to, one class after the other comes to. -/
theorem renderAll_of_interleave {P : List (Option Outcome) → Disk → Prop}
    (h : ∀ schedule, none ∉ (Rendering.interleave c plan schedule d).outcomes c plan →
      P ((Rendering.interleave c plan schedule d).outcomes c plan)
        (Rendering.interleave c plan schedule d).disk) :
    P ((renderAll c plan d).1.map some) (renderAll c plan d).2 := by
  obtain ⟨schedule, hdisk, htold⟩ := exists_interleave_renderAll c plan d
  rw [← hdisk, ← htold]
  refine h schedule ?_
  rw [htold]
  simp

/-- One class after the other: the outcomes are those of the classes on their own, and the tree
settles. -/
theorem renderAll_settled (hp : Plannable c plan) (hroot : Leads d c.outputRoot root)
    (hlinks : ∀ l, Inside root l → Unlinked d l) :
    (renderAll c plan d).1 = plan.map (outcomeIn c d root) ∧
      Settled c plan d root (renderAll c plan d).2 := by
  obtain ⟨houtcomes, hsettled⟩ := renderAll_of_interleave
    (P := fun outcomes d' => outcomes = plan.map (fun p => some (outcomeIn c d root p)) ∧
      Settled c plan d root d')
    fun schedule hdone =>
      have horder := (orderly_start c plan d root).interleave hp hroot hlinks schedule
      ⟨horder.outcomes_eq hdone, horder.settled hdone⟩
  refine ⟨?_, hsettled⟩
  apply (List.map_inj_right fun _ _ => Option.some.inj).mp
  rw [houtcomes, List.map_map]
  rfl

/-! ## One class among those of a plan -/

/-- Carrying out the plan leaves what is at the location as it is. -/
structure Spared (c : Config) (plan : List Planned) (d : Disk) (root l : Location) : Prop where
  house : ∀ s, Except.ok s ∈ plan → l = (jobOf c s).house root → ¬ (jobOf c s).Housable d root
  spot : ∀ s w, Except.ok s ∈ plan → l = (jobOf c s).spot root →
    (jobOf c s).fateIn d root ≠ .ok w

theorem Settled.spared (h : Settled c plan d root d') {l : Location}
    (hl : Spared c plan d root l) : d'.get? l = d.get? l := h.others hl.house hl.spot

/-- A directory that cannot be had for one class cannot be had for another. -/
theorem spared_house {s : Selected} (hs : ¬ (jobOf c s).Housable d root) :
    Spared c plan d root ((jobOf c s).house root) := by
  constructor
  · intro t _ hl hh
    exact hs ((housable_congr hl).mpr hh)
  · intro t _ _ hl
    exact absurd hl.symm ((jobOf c t).spot_ne_house (jobOf c s) root)

/-- No class has its stub where that of another one cannot be written. -/
theorem spared_spot (hp : Plannable c plan) {s : Selected} (hs : Except.ok s ∈ plan) {f : Failure}
    (hf : (jobOf c s).fateIn d root = .error f) : Spared c plan d root ((jobOf c s).spot root) := by
  constructor
  · intro t _ hl
    exact absurd hl ((jobOf c s).spot_ne_house (jobOf c t) root)
  · intro t w ht hl hw
    obtain ⟨i, hi⟩ := List.getElem?_of_mem hs
    obtain ⟨k, hk⟩ := List.getElem?_of_mem ht
    by_cases hik : i = k
    · subst hik
      have : s = t := by simpa using hi.symm.trans hk
      subst this
      rw [hf] at hw
      cases hw
    · exact hp.spot_ne hi hk hik root hl

variable {plan₁ plan₂ : List Planned} {d₁ d₂ : Disk} {s : Selected}

theorem Settled.house_eq (h₁ : Settled c plan₁ d root d₁) (h₂ : Settled c plan₂ d root d₂)
    (hs₁ : Except.ok s ∈ plan₁) (hs₂ : Except.ok s ∈ plan₂) :
    d₁.get? ((jobOf c s).house root) = d₂.get? ((jobOf c s).house root) := by
  by_cases hh : (jobOf c s).Housable d root
  · rw [h₁.houses hs₁ hh, h₂.houses hs₂ hh]
  · rw [h₁.spared (spared_house hh), h₂.spared (spared_house hh)]

theorem Settled.spot_eq (h₁ : Settled c plan₁ d root d₁) (h₂ : Settled c plan₂ d root d₂)
    (hp₁ : Plannable c plan₁) (hp₂ : Plannable c plan₂) (hs₁ : Except.ok s ∈ plan₁)
    (hs₂ : Except.ok s ∈ plan₂) :
    d₁.get? ((jobOf c s).spot root) = d₂.get? ((jobOf c s).spot root) := by
  cases hf : (jobOf c s).fateIn d root with
  | ok w => rw [h₁.spots hs₁ hf, h₂.spots hs₂ hf]
  | error f => rw [h₁.spared (spared_spot hp₁ hs₁ hf), h₂.spared (spared_spot hp₂ hs₂ hf)]

/-! ## Turns enough -/

/-- How many steps are left at most. -/
def stepsLeft : Stage → Nat
  | .waiting => 3
  | .housed _ => 2
  | .opened _ _ => 1
  | .finished _ => 0

theorem stepsLeft_step (j : Job) (d : Disk) (stage : Stage) :
    stepsLeft (j.step d stage).1 ≤ stepsLeft stage - 1 := by
  cases stage with
  | waiting =>
    unfold Job.step
    cases j.path with
    | error f => simp [stepsLeft]
    | ok path => rcases Files.provide d (j.root.join j.ns) with ⟨_ | _, _⟩ <;> simp [stepsLeft]
  | housed path =>
    rw [Job.step]
    cases Files.openFile d path with
    | mk result after => cases result <;> simp [stepsLeft]
  | opened path place => simp [Job.step, stepsLeft]
  | finished result => simp [Job.step, stepsLeft]

theorem stepsLeft_advance {r : Rendering} {i : Nat} {s : Selected} (hs : plan[i]? = some (.ok s))
    (k : Nat) : stepsLeft ((r.advance c plan k).stage i) ≤
      stepsLeft (r.stage i) - if k = i then 1 else 0 := by
  unfold Rendering.advance
  by_cases hk : k = i
  · subst hk
    rw [hs, if_pos rfl]
    dsimp only
    rw [if_pos rfl]
    exact stepsLeft_step _ _ _
  · rw [if_neg hk]
    split
    · dsimp only
      rw [if_neg fun h => hk h.symm]
      omega
    · omega

theorem stepsLeft_interleave {i : Nat} {s : Selected} (hs : plan[i]? = some (.ok s))
    (schedule : List Nat) (r : Rendering) :
    stepsLeft ((schedule.foldl (Rendering.advance c plan) r).stage i) ≤
      stepsLeft (r.stage i) - schedule.count i := by
  induction schedule generalizing r with
  | nil => simp
  | cons k rest ih =>
    have hstep := stepsLeft_advance (c := c) (r := r) hs k
    have hrest := ih (r.advance c plan k)
    rw [List.foldl_cons, List.count_cons]
    by_cases hk : k = i
    · simp only [hk, beq_self_eq_true, if_true] at hstep hrest ⊢
      omega
    · have hb : (k == i) = false := by simpa using hk
      simp only [hk, hb, if_false, Bool.false_eq_true] at hstep ⊢
      omega

/-- A schedule that gives every class three turns finishes them all. -/
theorem done_of_turns {schedule : List Nat} (h : ∀ i < plan.length, 3 ≤ schedule.count i)
    (d : Disk) : none ∉ (Rendering.interleave c plan schedule d).outcomes c plan := by
  intro hm
  obtain ⟨i, hi⟩ := List.getElem?_of_mem hm
  rw [Rendering.outcomes, List.getElem?_mapIdx, Option.map_eq_some_iff] at hi
  obtain ⟨p, hp, htold⟩ := hi
  cases p with
  | error f => cases htold
  | ok s =>
    have hleft := stepsLeft_interleave (c := c) hp schedule (.start d)
    have hturns := h i (List.getElem?_eq_some_iff.mp hp).1
    have hstart : stepsLeft ((Rendering.start d).stage i) = 3 := rfl
    have hzero : stepsLeft ((Rendering.interleave c plan schedule d).stage i) = 0 := by
      unfold Rendering.interleave
      omega
    unfold Rendering.told? at htold
    cases hr : (Rendering.interleave c plan schedule d).stage i with
    | finished result => simp [hr] at htold
    | waiting | housed | opened => rw [hr] at hzero; simp [stepsLeft] at hzero

end StubListing.Run
