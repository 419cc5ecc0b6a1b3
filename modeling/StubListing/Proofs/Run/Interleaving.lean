import StubListing.Proofs.Disk.Founding
import StubListing.Proofs.Run.Rendering
/-!
# Order and isolation

The order in which the steps of the stubs mix does not matter, and no class is the worse for the
others. When rendering starts the output root need not be there: it may be reached through a
directory that was pruned. Then the class that comes first makes what is missing of its path. The
steps are the same as in a tree where that was done before; only a root that cannot be made has its
classes fail for a reason that depends on who came first.
-/
namespace StubListing

namespace Stub.Job
open StubListing.Disk (Leads checkPath)

variable {j : Job} {d : Disk} {root : Location}

/-- The system takes the path of the stub's directory. -/
def Callable (j : Job) : Prop := checkPath j.housePath = .ok ()

instance (j : Job) : Decidable j.Callable := inferInstanceAs (Decidable (_ = _))

/-- Why a stub is not written that has no directory to go to. -/
def unhoused (j : Job) (e : SystemError) : Failure :=
  ⟨["Failed to create directory " ++ j.housePath.text], .system e⟩

theorem step_uncallable (hj : j.Proper) (h : ¬ j.Callable) :
    ∃ e, ∀ d, j.step d .waiting = (.finished (.error (j.unhoused e)), d) := by
  cases hcheck : checkPath j.housePath with
  | ok _ => exact absurd hcheck h
  | error e =>
    refine ⟨e, fun d => ?_⟩
    have hmoves : j.housePath.moves ≠ [] := by
      simp [housePath, Path.moves_join _ hj.isEntryName_ns]
    have hprovide := Disk.provide_unchecked (d := d) hmoves hcheck
    rw [step, hj.path_eq]
    unfold housePath at hprovide
    simp only [hprovide]
    rfl

/-- Where founding makes the root a directory, the first step is as in the tree with the root
founded. -/
theorem step_founded (hj : j.Proper) (h : j.Callable) (hlead : Leads (d.founded j.root) j.root root) :
    j.step d .waiting = j.step (d.founded j.root) .waiting := by
  rw [step, step, hj.path_eq]
  simp only [Files.provide_founded hj.isEntryName_ns h hlead]

/-- Where it does not, the first step is the last one. -/
theorem step_stuck (hj : j.Proper) (h : j.Callable)
    (hstuck : ∀ place, ¬ Leads (d.founded j.root) j.root place) :
    ∃ e, j.step d .waiting = (.finished (.error (j.unhoused e)), d.founded j.root) := by
  obtain ⟨e, he⟩ := Files.provide_stuck hj.isEntryName_ns h hstuck
  refine ⟨e, ?_⟩
  rw [step, hj.path_eq]
  simp only [he]
  rfl

theorem run_of_step {result : Except Failure Written} {d' : Disk}
    (h : j.step d .waiting = (.finished result, d')) : j.run d = (result, d') := by
  have hrun := j.steps_eq_run d
  simp only [h] at hrun
  obtain ⟨hstage, hdisk⟩ := Prod.mk.inj hrun
  cases hstage
  exact Prod.ext rfl hdisk.symm

end Stub.Job

namespace Run
open StubListing.Catalog StubListing.Stub
open StubListing.Disk (Leads Unlinked Inside checkPath)

variable {c : Config} {plan : List Planned} {d d' : Disk} {place : Location}
  {r r' : Rendering} {s : Selected} {p : Planned} {i : Nat}

/-! ## A step of a rendering -/

theorem advance_ok (hs : plan[i]? = some (.ok s)) :
    r.advance c plan i = ⟨((jobOf c s).step r.disk (r.stage i)).2,
      fun k => if k = i then ((jobOf c s).step r.disk (r.stage i)).1 else r.stage k⟩ := by
  rw [Rendering.advance, hs]

theorem advance_finished {result : Except Failure Written} (hs : plan[i]? = some (.ok s))
    (hstep : (jobOf c s).step r.disk (r.stage i) = (.finished result, d')) :
    r.advance c plan i = r.finish i (result, d') := by
  rw [advance_ok hs, hstep, Rendering.finish]

theorem advance_refused (hs : ∀ s, plan[i]? ≠ some (.ok s)) : r.advance c plan i = r := by
  unfold Rendering.advance
  split
  · exact absurd ‹_› (hs _)
  · rfl

/-- A class that is finished makes no further step. -/
theorem advance_idle {result : Except Failure Written} (hs : plan[i]? = some (.ok s))
    (hstage : r.stage i = .finished result) : r.advance c plan i = r := by
  have hsame : (fun k => if k = i then r.stage i else r.stage k) = r.stage := by
    funext k
    split
    · rw [‹k = i›]
    · rfl
  rw [advance_ok hs, hstage, Job.step]
  simp only [← hstage, hsame]

/-! ## A root that founding makes a directory -/

/-- The second rendering started with the root founded. The first has caught up with it, or else it is
at the same stages with the root not founded yet, and no class that needs the root has begun. -/
inductive Follows (c : Config) (plan : List Planned) (d : Disk) (r : Rendering) : Rendering → Prop
  | level (called : ∃ s, Except.ok s ∈ plan ∧ (jobOf c s).Callable) : Follows c plan d r r
  | behind (disk : r.disk = d)
      (waits : ∀ {i : Nat} {s : Selected}, plan[i]? = some (.ok s) →
        r.stage i = .waiting ∨ ¬ (jobOf c s).Callable ∧ ∃ f, r.stage i = .finished (.error f)) :
      Follows c plan d r ⟨d.founded c.outputRoot, r.stage⟩

theorem follows_start (c : Config) (plan : List Planned) (d : Disk) :
    Follows c plan d (.start d) (.start (d.founded c.outputRoot)) :=
  .behind rfl fun _ => Or.inl rfl

theorem Follows.outcomes_eq (h : Follows c plan d r r') :
    r'.outcomes c plan = r.outcomes c plan := by
  cases h <;> rfl

theorem Follows.advance (hp : Plannable c plan)
    (hlead : Leads (d.founded c.outputRoot) c.outputRoot place) (h : Follows c plan d r r') (i : Nat) :
    Follows c plan d (r.advance c plan i) (r'.advance c plan i) := by
  cases h with
  | level hcalled => exact .level hcalled
  | behind hdisk hwaits =>
    by_cases hs : ∃ s, plan[i]? = some (.ok s)
    · obtain ⟨s, hs⟩ := hs
      have hj := hp.proper (List.mem_of_getElem? hs)
      rcases hwaits hs with hw | ⟨hno, f, hf⟩
      · by_cases hcall : (jobOf c s).Callable
        · -- this is the step that founds the root
          have hstep := Job.step_founded (d := d) hj hcall hlead
          have hsame : r.advance c plan i =
              Rendering.advance c plan ⟨d.founded c.outputRoot, r.stage⟩ i := by
            rw [advance_ok hs, advance_ok hs, hdisk, hw, hstep]
            rfl
          rw [← hsame]
          exact .level ⟨s, List.mem_of_getElem? hs, hcall⟩
        · obtain ⟨e, he⟩ := Job.step_uncallable hj hcall
          rw [advance_finished hs (by rw [hw, he]), advance_finished hs (by rw [hw, he])]
          refine .behind hdisk fun {k t} ht => ?_
          by_cases hk : k = i
          · subst hk
            have hst : t = s := by simpa using ht.symm.trans hs
            subst hst
            exact Or.inr ⟨hcall, _, r.finish_stage_self ..⟩
          · rw [r.finish_stage_of_ne _ hk]
            exact hwaits ht
      · rw [advance_idle hs hf, advance_idle (r := ⟨d.founded c.outputRoot, r.stage⟩) hs hf]
        exact .behind hdisk hwaits
    · have hrefused : ∀ s, plan[i]? ≠ some (.ok s) := fun s h => hs ⟨s, h⟩
      rw [advance_refused hrefused, advance_refused hrefused]
      exact .behind hdisk hwaits

theorem Follows.interleave (hp : Plannable c plan)
    (hlead : Leads (d.founded c.outputRoot) c.outputRoot place) (h : Follows c plan d r r')
    (schedule : List Nat) :
    Follows c plan d (schedule.foldl (Rendering.advance c plan) r)
      (schedule.foldl (Rendering.advance c plan) r') := by
  induction schedule generalizing r r' with
  | nil => exact h
  | cons i rest ih => exact ih (h.advance hp hlead i)

/-- What comes of a plan where founding makes the root a directory. -/
structure Arrived (c : Config) (plan : List Planned) (d : Disk) (place : Location)
    (outcomes : List (Option Outcome)) (d' : Disk) : Prop where
  outcomes_eq : outcomes = plan.map fun p => some (outcomeIn c (d.founded c.outputRoot) place p)
  settled : (∃ s, Except.ok s ∈ plan ∧ (jobOf c s).Callable) →
    Settled c plan (d.founded c.outputRoot) place d'
  still : (¬ ∃ s, Except.ok s ∈ plan ∧ (jobOf c s).Callable) → d' = d

theorem Follows.arrived (h : Follows c plan d r r')
    (horder : Orderly c plan (d.founded c.outputRoot) place r') (hdone : none ∉ r.outcomes c plan) :
    Arrived c plan d place (r.outcomes c plan) r.disk := by
  have htold := h.outcomes_eq
  have hdone' := htold ▸ hdone
  refine ⟨htold ▸ horder.outcomes_eq hdone', fun hcalled => ?_, fun huncalled => ?_⟩
  · have hsettled := horder.settled hdone'
    cases h with
    | level => exact hsettled
    | behind hdisk hwaits =>
      obtain ⟨s, hs, hcall⟩ := hcalled
      obtain ⟨i, hi⟩ := List.getElem?_of_mem hs
      obtain ⟨result, hresult⟩ := stage_of_told (told_of_done hdone hi)
      rcases hwaits hi with hw | ⟨hno, -⟩
      · rw [hresult] at hw
        cases hw
      · exact absurd hcall hno
  · cases h with
    | level hcalled => exact absurd hcalled huncalled
    | behind hdisk => exact hdisk

theorem arrived_interleave (hp : Plannable c plan)
    (hlead : Leads (d.founded c.outputRoot) c.outputRoot place)
    (hlinks : ∀ l, Inside place l → Unlinked d l) (schedule : List Nat)
    (hdone : none ∉ (Rendering.interleave c plan schedule d).outcomes c plan) :
    Arrived c plan d place ((Rendering.interleave c plan schedule d).outcomes c plan)
      (Rendering.interleave c plan schedule d).disk :=
  ((follows_start c plan d).interleave hp hlead schedule).arrived
    ((orderly_start c plan (d.founded c.outputRoot) place).interleave hp hlead
      (fun l hl => (Disk.grows_founded d c.outputRoot).unlinked (hlinks l hl)) schedule) hdone

/-! ## A root that founding makes no directory -/

/-- What becomes of a planned class when the root cannot be had. -/
def denied (c : Config) (e : SystemError) : Planned → Outcome
  | .error f => .error f
  | .ok s => .error ⟨s.ns, s.type.name,
      "Failed to create directory " ++ (jobOf c s).housePath.text ++ ": " ++ e.message⟩

theorem outcome_unhoused (c : Config) (s : Selected) (e : SystemError) :
    (jobOf c s).outcome (.error ((jobOf c s).unhoused e)) = denied c e (.ok s) := by
  simp [Job.outcome, Job.unhoused, denied, Failure.message, Cause.message?, Text.joined, jobOf]

/-- What becomes of a planned class when it is the only one. -/
def alone (c : Config) (d : Disk) : Planned → Outcome
  | .error f => .error f
  | .ok s => (jobOf c s).outcome ((jobOf c s).run d).1

theorem renderAll_single (c : Config) (p : Planned) (d : Disk) :
    (renderAll c [p] d).1 = [alone c d p] := by
  cases p <;> rfl

/-- The state of a rendering with a root that cannot be had. -/
structure Barred (c : Config) (plan : List Planned) (d : Disk) (r : Rendering) : Prop where
  told : ∀ {i : Nat} {s : Selected}, plan[i]? = some (.ok s) → r.stage i = .waiting ∨
    ∃ e, r.stage i = .finished (.error ((jobOf c s).unhoused e)) ∧
      (d.founded c.outputRoot = d → denied c e (.ok s) = alone c d (.ok s))
  disk : r.disk = d ∧ (∀ {i : Nat} {s : Selected}, plan[i]? = some (.ok s) → (jobOf c s).Callable →
      r.stage i = .waiting) ∨
    r.disk = d.founded c.outputRoot ∧ ∃ s, Except.ok s ∈ plan ∧ (jobOf c s).Callable

theorem barred_start (c : Config) (plan : List Planned) (d : Disk) : Barred c plan d (.start d) :=
  ⟨fun _ => Or.inl rfl, Or.inl ⟨rfl, fun _ _ => rfl⟩⟩

theorem denied_eq_alone {e : SystemError}
    (h : (jobOf c s).step d .waiting = (.finished (.error ((jobOf c s).unhoused e)), d')) :
    denied c e (.ok s) = alone c d (.ok s) := by
  rw [alone, Job.run_of_step h, outcome_unhoused]

/-- A class that has no directory to go to is turned away at its first step. -/
theorem Barred.step (hp : Plannable c plan)
    (hstuck : ∀ place, ¬ Leads (d.founded c.outputRoot) c.outputRoot place) (h : Barred c plan d r)
    (hs : Except.ok s ∈ plan) :
    ∃ e, (jobOf c s).step r.disk .waiting = (.finished (.error ((jobOf c s).unhoused e)),
        if (jobOf c s).Callable then d.founded c.outputRoot else r.disk) ∧
      (d.founded c.outputRoot = d → denied c e (.ok s) = alone c d (.ok s)) := by
  have hj := hp.proper hs
  by_cases hcall : (jobOf c s).Callable
  · rw [if_pos hcall]
    rcases h.disk with ⟨hdisk, -⟩ | ⟨hdisk, -⟩
    · obtain ⟨e, he⟩ := Job.step_stuck hj hcall hstuck
      rw [hdisk]
      exact ⟨e, he, fun _ => denied_eq_alone he⟩
    · have hagain := Disk.founded_again d c.outputRoot
      obtain ⟨e, he⟩ := Job.step_stuck (d := d.founded c.outputRoot) hj hcall (by
        rw [show (jobOf c s).root = c.outputRoot from rfl, hagain]
        exact hstuck)
      rw [show (jobOf c s).root = c.outputRoot from rfl, hagain] at he
      rw [hdisk]
      refine ⟨e, he, fun hsame => ?_⟩
      rw [hsame] at he
      exact denied_eq_alone he
  · obtain ⟨e, he⟩ := Job.step_uncallable hj hcall
    rw [if_neg hcall]
    exact ⟨e, he _, fun _ => denied_eq_alone (he d)⟩

theorem Barred.advance (hp : Plannable c plan)
    (hstuck : ∀ place, ¬ Leads (d.founded c.outputRoot) c.outputRoot place) (h : Barred c plan d r)
    (i : Nat) : Barred c plan d (r.advance c plan i) := by
  by_cases hs : ∃ s, plan[i]? = some (.ok s)
  · obtain ⟨s, hs⟩ := hs
    have hmem := List.mem_of_getElem? hs
    rcases h.told hs with hw | ⟨e, he, -⟩
    · obtain ⟨e, hstep, halone⟩ := h.step hp hstuck hmem
      have hself : ∀ {t}, plan[i]? = some (.ok t) → t = s := fun ht => by simpa using ht.symm.trans hs
      rw [advance_finished hs (by rw [hw, hstep])]
      refine ⟨fun {k t} ht => ?_, ?_⟩
      · by_cases hk : k = i
        · subst hk
          obtain rfl := hself ht
          exact Or.inr ⟨e, r.finish_stage_self .., halone⟩
        · rw [r.finish_stage_of_ne _ hk]
          exact h.told ht
      · by_cases hcall : (jobOf c s).Callable
        · exact Or.inr ⟨if_pos hcall, s, hmem, hcall⟩
        · rw [r.finish_disk, if_neg hcall]
          refine h.disk.imp_left fun ⟨hdisk, hwaits⟩ => ⟨hdisk, fun {k t} ht htcall => ?_⟩
          have hk : k ≠ i := by
            rintro rfl
            exact hcall (hself ht ▸ htcall)
          rw [r.finish_stage_of_ne _ hk]
          exact hwaits ht htcall
    · rw [advance_idle hs he]
      exact h
  · rw [advance_refused fun s h => hs ⟨s, h⟩]
    exact h

theorem Barred.interleave (hp : Plannable c plan)
    (hstuck : ∀ place, ¬ Leads (d.founded c.outputRoot) c.outputRoot place) (h : Barred c plan d r)
    (schedule : List Nat) : Barred c plan d (schedule.foldl (Rendering.advance c plan) r) := by
  induction schedule generalizing r with
  | nil => exact h
  | cons i rest ih => exact ih (h.advance hp hstuck i)

/-- What comes of a plan where founding makes the root no directory. -/
structure Denied (c : Config) (plan : List Planned) (d : Disk) (outcomes : List (Option Outcome))
    (d' : Disk) : Prop where
  length_eq : outcomes.length = plan.length
  outcome : ∀ {i : Nat} {p : Planned}, plan[i]? = some p → ∃ e, outcomes[i]? = some (some (denied c e p)) ∧
    (d.founded c.outputRoot = d → denied c e p = alone c d p)
  founded : (∃ s, Except.ok s ∈ plan ∧ (jobOf c s).Callable) → d' = d.founded c.outputRoot
  still : (¬ ∃ s, Except.ok s ∈ plan ∧ (jobOf c s).Callable) → d' = d

theorem Barred.denied (h : Barred c plan d r) (hdone : none ∉ r.outcomes c plan) :
    Denied c plan d (r.outcomes c plan) r.disk := by
  have hended : ∀ {i : Nat} {s : Selected}, plan[i]? = some (.ok s) → r.stage i ≠ .waiting := by
    intro i s hs hw
    obtain ⟨result, hresult⟩ := stage_of_told (told_of_done hdone hs)
    rw [hresult] at hw
    cases hw
  refine ⟨List.length_mapIdx, fun {i p} hi => ?_, fun ⟨s, hs, hcall⟩ => ?_, fun huncalled => ?_⟩
  · rw [Rendering.outcomes, List.getElem?_mapIdx, hi]
    cases p with
    | error f => exact ⟨.notFound, rfl, fun _ => rfl⟩
    | ok s =>
      obtain ⟨e, he, halone⟩ := (h.told hi).resolve_left (hended hi)
      refine ⟨e, ?_, halone⟩
      simp only [Option.map_some, Rendering.told?, he, outcome_unhoused]
  · obtain ⟨i, hi⟩ := List.getElem?_of_mem hs
    rcases h.disk with ⟨-, hwaits⟩ | ⟨hdisk, -⟩
    · exact absurd (hwaits hi hcall) (hended hi)
    · exact hdisk
  · rcases h.disk with ⟨hdisk, -⟩ | ⟨-, hcalled⟩
    · exact hdisk
    · exact absurd hcalled huncalled

theorem denied_interleave (hp : Plannable c plan)
    (hstuck : ∀ place, ¬ Leads (d.founded c.outputRoot) c.outputRoot place) (schedule : List Nat)
    (hdone : none ∉ (Rendering.interleave c plan schedule d).outcomes c plan) :
    Denied c plan d ((Rendering.interleave c plan schedule d).outcomes c plan)
      (Rendering.interleave c plan schedule d).disk :=
  ((barred_start c plan d).interleave hp hstuck schedule).denied hdone

/-! ## Either kind of root -/

/-- What comes of a plan, told by what founding makes of the root. -/
inductive Ends (c : Config) (plan : List Planned) (d : Disk) (outcomes : List (Option Outcome))
    (d' : Disk) : Prop
  | arrived {place : Location} (lead : Leads (d.founded c.outputRoot) c.outputRoot place)
      (links : ∀ l, Inside place l → Unlinked d l) (parts : Arrived c plan d place outcomes d')
  | barred (stuck : ∀ place, ¬ Leads (d.founded c.outputRoot) c.outputRoot place)
      (parts : Denied c plan d outcomes d')

/-- The root has no links in it, once it is a directory. -/
def Linkless (c : Config) (d : Disk) : Prop :=
  ∀ place, Leads (d.founded c.outputRoot) c.outputRoot place → ∀ l, Inside place l → Unlinked d l

/-- Making what is missing of the root's path makes it a directory, or makes nothing at all. -/
def Foundable (c : Config) (d : Disk) : Prop :=
  d.founded c.outputRoot = d ∨ ∃ place, Leads (d.founded c.outputRoot) c.outputRoot place

theorem ends_interleave (hp : Plannable c plan) (hlinks : Linkless c d) (schedule : List Nat)
    (hdone : none ∉ (Rendering.interleave c plan schedule d).outcomes c plan) :
    Ends c plan d ((Rendering.interleave c plan schedule d).outcomes c plan)
      (Rendering.interleave c plan schedule d).disk := by
  by_cases hlead : ∃ place, Leads (d.founded c.outputRoot) c.outputRoot place
  · obtain ⟨place, hlead⟩ := hlead
    exact .arrived hlead (hlinks place hlead)
      (arrived_interleave hp hlead (hlinks place hlead) schedule hdone)
  · have hstuck := not_exists.mp hlead
    exact .barred hstuck (denied_interleave hp hstuck schedule hdone)

theorem ends_renderAll (hp : Plannable c plan) (hlinks : Linkless c d) :
    Ends c plan d ((renderAll c plan d).1.map some) (renderAll c plan d).2 :=
  renderAll_of_interleave fun schedule hdone => ends_interleave hp hlinks schedule hdone

section Ends

variable {plan₁ plan₂ : List Planned} {outcomes outcomes₁ outcomes₂ : List (Option Outcome)}
  {d₁ d₂ : Disk}

/-- The tree is the same in every order. -/
theorem Ends.get?_eq (h₁ : Ends c plan d outcomes₁ d₁) (h₂ : Ends c plan d outcomes₂ d₂) :
    d₁.home = d₂.home ∧ ∀ l, d₁.get? l = d₂.get? l := by
  by_cases hcalled : ∃ s, Except.ok s ∈ plan ∧ (jobOf c s).Callable
  · cases h₁ with
    | arrived lead₁ _ parts₁ =>
      cases h₂ with
      | arrived lead₂ _ parts₂ =>
        obtain rfl := lead₁.unique lead₂
        have hset₁ := parts₁.settled hcalled
        have hset₂ := parts₂.settled hcalled
        exact ⟨hset₁.keeps.home.trans hset₂.keeps.home.symm, hset₁.get?_eq hset₂⟩
      | barred stuck => exact absurd lead₁ (stuck _)
    | barred stuck parts₁ =>
      cases h₂ with
      | arrived lead₂ => exact absurd lead₂ (stuck _)
      | barred _ parts₂ =>
        rw [parts₁.founded hcalled, parts₂.founded hcalled]
        exact ⟨rfl, fun _ => rfl⟩
  · have hstill : ∀ {outcomes d'}, Ends c plan d outcomes d' → d' = d := by
      rintro _ _ (⟨_, _, parts⟩ | ⟨_, parts⟩)
      · exact parts.still hcalled
      · exact parts.still hcalled
    rw [hstill h₁, hstill h₂]
    exact ⟨rfl, fun _ => rfl⟩

/-- The file of a class does not depend on what else is planned. -/
theorem Ends.content_eq (h₁ : Ends c plan₁ d outcomes₁ d₁) (h₂ : Ends c plan₂ d outcomes₂ d₂)
    (hp₁ : Plannable c plan₁) (hp₂ : Plannable c plan₂) (hs₁ : Except.ok s ∈ plan₁)
    (hs₂ : Except.ok s ∈ plan₂) :
    d₁.content (jobOf c s).spotPath = d₂.content (jobOf c s).spotPath := by
  have hj := hp₁.proper hs₁
  by_cases hcall : (jobOf c s).Callable
  · have hcalled₁ : ∃ s, Except.ok s ∈ plan₁ ∧ (jobOf c s).Callable := ⟨s, hs₁, hcall⟩
    have hcalled₂ : ∃ s, Except.ok s ∈ plan₂ ∧ (jobOf c s).Callable := ⟨s, hs₂, hcall⟩
    cases h₁ with
    | arrived lead₁ links parts₁ =>
      cases h₂ with
      | arrived lead₂ _ parts₂ =>
        obtain rfl := lead₁.unique lead₂
        have hset₁ := parts₁.settled hcalled₁
        have hset₂ := parts₂.settled hcalled₂
        have hlinks := hset₂.unlinked fun l hl =>
          (Disk.grows_founded d c.outputRoot).unlinked (links l hl)
        exact (lead₁.keeps hset₂.keeps).content_congr (lead₁.keeps hset₁.keeps) hj.isEntryName_ns
          hj.isEntryName_fileName (hlinks _ (inside_house _ _)) (hlinks _ (inside_spot _ _))
          (hset₁.house_eq hset₂ hs₁ hs₂) (hset₁.spot_eq hset₂ hp₁ hp₂ hs₁ hs₂)
      | barred stuck => exact absurd lead₁ (stuck _)
    | barred stuck parts₁ =>
      cases h₂ with
      | arrived lead₂ => exact absurd lead₂ (stuck _)
      | barred _ parts₂ => rw [parts₁.founded hcalled₁, parts₂.founded hcalled₂]
  · -- no system call is ever made for a path that is not taken
    have hspot : ∃ e, checkPath (jobOf c s).spotPath = .error e := by
      cases hcheck : checkPath (jobOf c s).spotPath with
      | error e => exact ⟨e, rfl⟩
      | ok _ =>
        refine absurd (Disk.checkPath_of_isPrefix ?_ ?_ hcheck) hcall
        · exact Path.text_isPrefix_join _ hj.isEntryName_fileName
        · exact Path.text_join_ne_empty _ hj.isEntryName_ns
    obtain ⟨e, he⟩ := hspot
    rw [Disk.content_unchecked he, Disk.content_unchecked he]

/-- If the root is a directory or can be made one, each class has the outcome it has on its own. -/
theorem Ends.outcomes_eq (h : Ends c plan d outcomes d') (hp : Plannable c plan)
    (hlinks : Linkless c d) (hfound : Foundable c d) :
    outcomes = plan.map fun p => some (alone c d p) := by
  cases h with
  | @arrived place lead links parts =>
    rw [parts.outcomes_eq]
    refine List.map_congr_left fun p hm => congrArg some ?_
    -- the class as the only one of a plan ends in the same way
    have hsingle := ends_renderAll (hp.single hm) hlinks
    rw [renderAll_single] at hsingle
    cases hsingle with
    | arrived lead' _ parts' =>
      obtain rfl := lead.unique lead'
      have := parts'.outcomes_eq
      simp only [List.map_cons, List.map_nil, List.cons.injEq, Option.some.injEq, and_true] at this
      exact this.symm
    | barred stuck => exact absurd lead (stuck _)
  | barred stuck parts =>
    have hsame : d.founded c.outputRoot = d := hfound.resolve_right fun ⟨place, hlead⟩ => stuck place hlead
    apply List.ext_getElem?
    intro i
    rw [List.getElem?_map]
    cases hi : plan[i]? with
    | none =>
      have hlen := List.getElem?_eq_none_iff.mp hi
      rw [← parts.length_eq] at hlen
      exact List.getElem?_eq_none_iff.mpr hlen
    | some p =>
      obtain ⟨e, he, halone⟩ := parts.outcome hi
      rw [he, halone hsame]
      rfl

theorem Ends.denied_of (h : Ends c plan d outcomes d') (hfound : ¬ Foundable c d)
    (hi : plan[i]? = some p) : ∃ e, outcomes[i]? = some (some (denied c e p)) := by
  cases h with
  | arrived lead => exact absurd (Or.inr ⟨_, lead⟩) hfound
  | barred _ parts =>
    obtain ⟨e, he, -⟩ := parts.outcome hi
    exact ⟨e, he⟩

end Ends

/-! ## Every order -/

/-- The order in which the steps of the stubs mix does not matter: once all classes are finished, the
tree is that of one class after the other, and the file of each class is as if it were the only one.
So are the outcomes, unless founding the root makes some directories of its path and yet not the
root; then all classes that were not turned down fail for want of a directory, here, one after the
other and alone, and it is only the system's reason that may differ. -/
theorem interleave_eq_renderAll (hc : c.Valid) (selected : List Selected) (schedule : List Nat)
    (hlinks : Linkless c d)
    (hdone : none ∉
      (Rendering.interleave c (Run.plan c selected) schedule d).outcomes c (Run.plan c selected)) :
    let plan := Run.plan c selected
    let r := Rendering.interleave c plan schedule d
    (r.disk.home = (renderAll c plan d).2.home ∧
        ∀ l, r.disk.get? l = (renderAll c plan d).2.get? l) ∧
      (∀ s, Except.ok s ∈ plan → r.disk.content (jobOf c s).spotPath =
        (renderAll c [.ok s] d).2.content (jobOf c s).spotPath) ∧
      (Foundable c d → r.outcomes c plan = (renderAll c plan d).1.map some ∧
        ∀ (i : Nat) (p : Planned), plan[i]? = some p →
          (r.outcomes c plan)[i]? = some ((renderAll c [p] d).1[0]?)) ∧
      (¬ Foundable c d → ∀ (i : Nat) (p : Planned), plan[i]? = some p → ∃ e₁ e₂ e₃,
        (r.outcomes c plan)[i]? = some (some (denied c e₁ p)) ∧
          (renderAll c plan d).1[i]? = some (denied c e₂ p) ∧
          (renderAll c [p] d).1 = [denied c e₃ p]) := by
  intro plan r
  have hp : Plannable c plan := plannable_plan hc selected
  have hmixed : Ends c plan d (r.outcomes c plan) r.disk := ends_interleave hp hlinks schedule hdone
  have hrow := ends_renderAll hp hlinks
  have hsingle : ∀ {p}, p ∈ plan → Ends c [p] d ((renderAll c [p] d).1.map some) (renderAll c [p] d).2 :=
    fun hm => ends_renderAll (hp.single hm) hlinks
  refine ⟨hmixed.get?_eq hrow, fun s hs => ?_, fun hfound => ⟨?_, fun i p hi => ?_⟩,
    fun hfound i p hi => ?_⟩
  · exact hmixed.content_eq (hsingle hs) hp (hp.single hs) hs (List.mem_singleton.mpr rfl)
  · rw [hmixed.outcomes_eq hp hlinks hfound, hrow.outcomes_eq hp hlinks hfound]
  · rw [hmixed.outcomes_eq hp hlinks hfound, List.getElem?_map, hi, renderAll_single]
    rfl
  · obtain ⟨e₁, h₁⟩ := hmixed.denied_of hfound hi
    obtain ⟨e₂, h₂⟩ := hrow.denied_of hfound hi
    obtain ⟨e₃, h₃⟩ := (hsingle (List.mem_of_getElem? hi)).denied_of hfound (i := 0) rfl
    refine ⟨e₁, e₂, e₃, h₁, ?_, ?_⟩
    · simpa using h₂
    · rw [renderAll_single] at h₃ ⊢
      simpa using h₃

/-- Four classes, one squatted by a directory and one repeated, with their steps mixed, and a root
reached through a directory that the first step makes; and a root that a file is in the way of. -/
theorem interleave_eq_renderAll_of_four :
    let c := { Config.standard with outputRoot := ⟨"GenAPI/Old/.."⟩ }
    let barred := { Config.standard with outputRoot := ⟨"GenAPI/Old/../Game.txt/.."⟩ }
    let d : Disk := ⟨[(["GenAPI"], .directory), (["GenAPI", "Game.txt"], .file .empty),
      (["GenAPI", "Game"], .directory), (["GenAPI", "Game", "B.stub"], .directory)], []⟩
    let selected : List Selected := [⟨.emptyClass "Game" "A", "Game"⟩,
      ⟨.emptyClass "Game" "B", "Game"⟩, ⟨.emptyClass "Game" "A", "Game"⟩,
      ⟨.emptyClass "GameLogic" "A", "GameLogic"⟩]
    let schedule := [3, 0, 1, 2, 3, 0, 1, 2, 3, 0, 1, 2]
    let r := Rendering.interleave c (Run.plan c selected) schedule d
    let turned := Rendering.interleave barred (Run.plan barred selected) schedule d
    ((∀ place, ¬ Leads d c.outputRoot place) ∧
        r.outcomes c (Run.plan c selected) = (renderAll c (Run.plan c selected) d).1.map some ∧
        (∀ l, r.disk.get? l = (renderAll c (Run.plan c selected) d).2.get? l) ∧
        r.disk.get? ["GenAPI", "Old"] = some .directory ∧
        (r.disk.get? ["GenAPI", "Game", "A.stub"]).isSome = true) ∧
      (∃ e, (turned.outcomes barred (Run.plan barred selected))[3]? =
        some (some (denied barred e (.ok ⟨.emptyClass "GameLogic" "A", "GameLogic"⟩)))) ∧
      ∀ l, turned.disk.get? l = (renderAll barred (Run.plan barred selected) d).2.get? l := by
  intro c barred d selected schedule r turned
  have hlinks : ∀ l, Unlinked d l := Disk.unlinked_of_noLinks (by decide)
  have hturns : ∀ c, ∀ i < (Run.plan c selected).length, 3 ≤ schedule.count i := by
    intro c
    rw [Run.plan, length_planFrom]
    decide +kernel
  have hlead : Leads (d.founded c.outputRoot) c.outputRoot ["GenAPI"] :=
    ⟨by decide +kernel, Disk.reaches_iff.mp (by decide +kernel)⟩
  have hbarred : ¬ Foundable barred d := by
    rintro (hsame | ⟨place, hlead⟩)
    · exact absurd (congrArg (·.get? ["GenAPI", "Old"]) hsame) (by decide +kernel)
    · exact Disk.not_leads_of_footing (e := .notADirectory) (by decide +kernel) place hlead
  have hvalid : barred.Valid := ⟨by decide, by decide, by decide⟩
  have hplan : (Run.plan barred selected)[3]? =
      some (.ok ⟨.emptyClass "GameLogic" "A", "GameLogic"⟩) := by
    rw [plan_getElem? hvalid]
    exact congrArg some (planned_eq_ok_iff.mpr ⟨rfl, by decide, by decide, by decide⟩)
  have h := interleave_eq_renderAll (c := c) ⟨by decide, by decide, by decide⟩ selected schedule
    (fun _ _ l _ => hlinks l) (done_of_turns (hturns c) d)
  have h' := interleave_eq_renderAll hvalid selected schedule (fun _ _ l _ => hlinks l)
    (done_of_turns (hturns barred) d)
  obtain ⟨e, -, -, he, -⟩ := h'.2.2.2 hbarred 3 _ hplan
  exact ⟨⟨Disk.not_leads_of_footing (e := .notFound) (by decide +kernel),
    (h.2.2.1 (Or.inr ⟨_, hlead⟩)).1, h.1.2, by decide +kernel, by decide +kernel⟩, ⟨e, he⟩, h'.1.2⟩

/-- The root's path goes through a directory that is missing and then through a file. Whoever comes
first makes the directory, and is told of the file by another reason than whoever comes later. -/
theorem reason_by_order :
    let c := { Config.standard with outputRoot := ⟨"out/l/../../g/.."⟩ }
    let d : Disk := ⟨[(["out"], .directory), (["g"], .file .empty)], []⟩
    let plan := Run.plan c [⟨.emptyClass "Game" "A", "Game"⟩, ⟨.emptyClass "Game" "B", "Game"⟩]
    let told (name cause : String) : Outcome := .error ⟨"Game", name,
      "Failed to create directory out/l/../../g/../Game: " ++ cause⟩
    let fileExists := "File exists (os error 17)"
    let notDirectory := "Not a directory (os error 20)"
    c.Valid ∧ (∀ l, Unlinked d l) ∧
      (renderAll c plan d).1 = [told "A" fileExists, told "B" notDirectory] ∧
      (renderAll c [.ok ⟨.emptyClass "Game" "B", "Game"⟩] d).1 = [told "B" fileExists] ∧
      (Rendering.interleave c plan [1, 0] d).outcomes c plan =
        [some (told "A" notDirectory), some (told "B" fileExists)] := by
  refine ⟨⟨by decide, by decide, by decide⟩, Disk.unlinked_of_noLinks (by decide), ?_, ?_, ?_⟩
  all_goals decide +kernel

end Run

end StubListing
