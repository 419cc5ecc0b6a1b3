import StubListing.Files
/-!
# Inverting actions that returned

What is known of an action that came to an end: the actions it is made of came to an end too, and
what the elementary ones did to the tree. Every statement goes both ways, so the same lemmas take a
run apart and put one together.

An action that fails leaves a tree behind too. `Leaves` speaks of that tree, however the action ends,
and is put together in the same way; an action that only reads leaves the tree it was begun on.
-/
namespace StubListing

namespace Action

variable {α β : Type}

/-- How the action ends when it is begun at the workplace. -/
def ending (action : Action α) (w : Workplace) : Except Failure α × Workplace := action.run.run w

/-- The action, begun at the first workplace, gives the result and leaves the second. -/
def Returns (action : Action α) (w : Workplace) (a : α) (w' : Workplace) : Prop :=
  action.ending w = (.ok a, w')

/-- The action fails and leaves the second workplace. -/
def Fails (action : Action α) (w : Workplace) (f : Failure) (w' : Workplace) : Prop :=
  action.ending w = (.error f, w')

variable {w w' : Workplace} {a : α} {b : β} {f : Failure}

theorem returns_or_fails (action : Action α) (w : Workplace) :
    (∃ a w', action.Returns w a w') ∨ ∃ f w', action.Fails w f w' := by
  rcases h : action.ending w with ⟨_ | a, w'⟩
  · exact Or.inr ⟨_, w', h⟩
  · exact Or.inl ⟨a, w', h⟩

theorem returns_of_isOk {action : Action α} (h : (action.ending w).1.isOk = true) :
    ∃ a, action.Returns w a (action.ending w).2 := by
  rcases returns_or_fails action w with ⟨a, w', hret⟩ | ⟨f, w', hfail⟩
  · exact ⟨a, by rw [show action.ending w = _ from hret]; exact hret⟩
  · rw [show action.ending w = _ from hfail] at h
    cases h

/-! ## How actions are put together -/

theorem ending_bind (action : Action α) (next : α → Action β) (w : Workplace) :
    (action >>= next).ending w =
      match action.ending w with
      | (.ok a, w₁) => (next a).ending w₁
      | (.error f, w₁) => (.error f, w₁) := by
  unfold ending
  rw [ExceptT.run_bind, StateT.run_bind]
  rcases action.run.run w with ⟨_ | a, w₁⟩ <;> rfl

theorem ending_tryCatch (action : Action α) (handle : Failure → Action α) (w : Workplace) :
    (tryCatch action handle : Action α).ending w =
      match action.ending w with
      | (.ok a, w₁) => (.ok a, w₁)
      | (.error f, w₁) => (handle f).ending w₁ := by
  show (ExceptT.tryCatch action handle).run.run w = _
  unfold ending ExceptT.tryCatch
  rw [ExceptT.run_mk, StateT.run_bind]
  rcases h : action.run.run w with ⟨_ | a, w₁⟩
  all_goals
    have hraw : StateT.run action w = _ := h
    rw [hraw]
    rfl

theorem returns_pure {a' : α} : (pure a : Action α).Returns w a' w' ↔ a' = a ∧ w' = w := by
  have hrun : (pure a : Action α).ending w = (.ok a, w) := rfl
  rw [Returns, hrun]
  simp [eq_comm]

theorem returns_bind {action : Action α} {next : α → Action β} :
    (action >>= next).Returns w b w' ↔
      ∃ a w₁, action.Returns w a w₁ ∧ (next a).Returns w₁ b w' := by
  unfold Returns
  rw [ending_bind]
  rcases action.ending w with ⟨_ | a, w₁⟩
  · simp
  · simp only [Prod.mk.injEq, Except.ok.injEq]
    exact ⟨fun h => ⟨a, w₁, ⟨rfl, rfl⟩, h⟩, fun ⟨_, _, ⟨rfl, rfl⟩, h⟩ => h⟩

theorem fails_bind {action : Action α} {next : α → Action β} :
    (action >>= next).Fails w f w' ↔
      action.Fails w f w' ∨ ∃ a w₁, action.Returns w a w₁ ∧ (next a).Fails w₁ f w' := by
  unfold Returns Fails
  rw [ending_bind]
  rcases action.ending w with ⟨_ | a, w₁⟩
  · simp
  · simp only [Prod.mk.injEq, Except.ok.injEq, reduceCtorEq, false_and, false_or]
    exact ⟨fun h => ⟨a, w₁, ⟨rfl, rfl⟩, h⟩, fun ⟨_, _, ⟨rfl, rfl⟩, h⟩ => h⟩

theorem returns_tryCatch {action : Action α} {handle : Failure → Action α} :
    (tryCatch action handle : Action α).Returns w a w' ↔
      action.Returns w a w' ∨ ∃ f w₁, action.Fails w f w₁ ∧ (handle f).Returns w₁ a w' := by
  unfold Returns Fails
  rw [ending_tryCatch]
  rcases action.ending w with ⟨f | a, w₁⟩
  · simp only [Prod.mk.injEq, Except.error.injEq, reduceCtorEq, false_and, false_or]
    exact ⟨fun h => ⟨f, w₁, ⟨rfl, rfl⟩, h⟩, fun ⟨_, _, ⟨rfl, rfl⟩, h⟩ => h⟩
  · simp

theorem returns_fail : ¬ (fail f : Action α).Returns w a w' := by
  intro h
  cases h

theorem fails_pure : ¬ (pure a : Action α).Fails w f w' := by
  intro h
  cases h

theorem fails_fail {g : Failure} : (fail g : Action α).Fails w f w' ↔ f = g ∧ w' = w := by
  have hrun : (fail g : Action α).ending w = (.error g, w) := rfl
  rw [Fails, hrun]
  simp [eq_comm]

/-- An action does not both return and fail. -/
theorem Returns.not_fails {action : Action α} {w₁ : Workplace} (h : action.Returns w a w') :
    ¬ action.Fails w f w₁ := by
  intro hfails
  rw [Fails, show action.ending w = _ from h] at hfails
  cases hfails

/-! ## Elementary actions -/

theorem returns_disk {d : Disk} : disk.Returns w d w' ↔ d = w.disk ∧ w' = w := by
  have hrun : disk.ending w = (.ok w.disk, w) := rfl
  rw [Returns, hrun]
  simp [eq_comm]

theorem returns_setDisk {d : Disk} {u : Unit} :
    (setDisk d).Returns w u w' ↔ w' = { w with disk := d } := by
  have hrun : (setDisk d).ending w = (.ok (), { w with disk := d }) := rfl
  rw [Returns, hrun]
  simp [eq_comm]

theorem returns_note {level : Level} {text : String} {u : Unit} :
    (note level text).Returns w u w' ↔ w' = { w with log := w.log ++ [⟨level, text⟩] } := by
  have hrun : (note level text).ending w = (.ok (), { w with log := w.log ++ [⟨level, text⟩] }) :=
    rfl
  rw [Returns, hrun]
  simp [eq_comm]

theorem not_fails_note {level : Level} {text : String} : ¬ (note level text).Fails w f w' := by
  intro h
  cases h

theorem disk_of_note {level : Level} {text : String} {u : Unit}
    (h : (note level text).Returns w u w') : w'.disk = w.disk := by
  rw [returns_note.mp h]

theorem disk_of_noteAll {level : Level} {texts : List String} {u : Unit}
    (h : (noteAll level texts).Returns w u w') : w'.disk = w.disk := by
  induction texts generalizing w with
  | nil => rw [(returns_pure.mp h).2]
  | cons text rest ih =>
    obtain ⟨_, w₁, hnote, hrest⟩ := returns_bind.mp h
    rw [ih hrest, disk_of_note hnote]

theorem returns_during {context : String} {action : Action α} :
    (during context action).Returns w a w' ↔ action.Returns w a w' := by
  unfold during
  rw [returns_tryCatch]
  constructor
  · rintro (h | ⟨f, w₁, _, h⟩)
    · exact h
    · cases h
  · exact Or.inl

/-- A failure is told in its circumstance, and nothing else is changed by telling it so. -/
theorem fails_during {context : String} {action : Action α} :
    (during context action).Fails w f w' ↔ ∃ g, action.Fails w g w' ∧ f = g.inside context := by
  unfold during Fails
  rw [ending_tryCatch]
  rcases action.ending w with ⟨g | a, w₁⟩
  · show (fail (g.inside context) : Action α).Fails w₁ f w' ↔ _
    rw [fails_fail]
    simp only [Prod.mk.injEq, Except.error.injEq]
    exact ⟨fun ⟨hf, hw⟩ => ⟨g, ⟨rfl, hw.symm⟩, hf⟩, fun ⟨_, ⟨hg, hw⟩, hf⟩ => ⟨hg ▸ hf, hw.symm⟩⟩
  · simp

theorem returns_answer {result : Except SystemError α} :
    (answer result).Returns w a w' ↔ result = .ok a ∧ w' = w := by
  cases result with
  | ok x =>
    rw [answer, returns_pure]
    simp [eq_comm]
  | error e =>
    refine ⟨fun h => ?_, fun h => ?_⟩
    · cases h
    · cases h.1

theorem returns_change {call : Disk → Except SystemError Disk} {u : Unit} :
    (change call).Returns w u w' ↔ ∃ d, call w.disk = .ok d ∧ w' = { w with disk := d } := by
  unfold change
  constructor
  · intro h
    obtain ⟨d₁, w₁, hdisk, h⟩ := returns_bind.mp h
    obtain ⟨d₂, w₂, hans, hset⟩ := returns_bind.mp h
    obtain ⟨rfl, rfl⟩ := returns_disk.mp hdisk
    obtain ⟨hcall, rfl⟩ := returns_answer.mp hans
    exact ⟨d₂, hcall, returns_setDisk.mp hset⟩
  · rintro ⟨d, hcall, hw⟩
    refine returns_bind.mpr ⟨w.disk, w, returns_disk.mpr ⟨rfl, rfl⟩, ?_⟩
    exact returns_bind.mpr ⟨d, w, returns_answer.mpr ⟨hcall, rfl⟩, returns_setDisk.mpr hw⟩

theorem ending_carryOut (act : Disk → Except Failure α × Disk) (w : Workplace) :
    (Files.carryOut act).ending w = ((act w.disk).1, { w with disk := (act w.disk).2 }) := by
  have hdisk : disk.ending w = (.ok w.disk, w) := rfl
  unfold Files.carryOut
  rw [ending_bind]
  simp only [hdisk]
  rcases act w.disk with ⟨_ | a, d⟩ <;> rfl

theorem returns_carryOut {act : Disk → Except Failure α × Disk} :
    (Files.carryOut act).Returns w a w' ↔ ∃ d, act w.disk = (.ok a, d) ∧ w' = { w with disk := d } := by
  rw [Returns, ending_carryOut]
  rcases act w.disk with ⟨_ | a, d⟩
  · simp
  · simp only [Prod.mk.injEq, Except.ok.injEq]
    constructor
    · rintro ⟨rfl, rfl⟩
      exact ⟨d, ⟨rfl, rfl⟩, rfl⟩
    · rintro ⟨d', ⟨rfl, rfl⟩, rfl⟩
      exact ⟨rfl, rfl⟩

/-! ## Actions that come to an end -/

/-- The action, begun at the workplace, gives a result. -/
def Completes (action : Action α) (w : Workplace) : Prop := ∃ a w', action.Returns w a w'

theorem Returns.completes {action : Action α} (h : action.Returns w a w') : action.Completes w :=
  ⟨a, w', h⟩

theorem completes_bind {action : Action α} {next : α → Action β} (h : action.Completes w)
    (hnext : ∀ a w₁, action.Returns w a w₁ → (next a).Completes w₁) :
    (action >>= next).Completes w := by
  obtain ⟨a, w₁, hfirst⟩ := h
  obtain ⟨b, w₂, hsecond⟩ := hnext a w₁ hfirst
  exact ⟨b, w₂, returns_bind.mpr ⟨a, w₁, hfirst, hsecond⟩⟩

theorem completes_pure (a : α) (w : Workplace) : (pure a : Action α).Completes w :=
  (returns_pure.mpr ⟨rfl, rfl⟩).completes

/-- Looking at the tree comes first, and then what is done with it has to come to an end. -/
theorem completes_disk_bind {next : Disk → Action β} (h : (next w.disk).Completes w) :
    (disk >>= next).Completes w := by
  refine completes_bind (returns_disk.mpr ⟨rfl, rfl⟩).completes fun d w₁ hd => ?_
  obtain ⟨rfl, rfl⟩ := returns_disk.mp hd
  exact h

theorem completes_note (level : Level) (text : String) (w : Workplace) :
    (note level text).Completes w :=
  ⟨(), _, returns_note.mpr rfl⟩

theorem completes_noteAll (level : Level) (texts : List String) (w : Workplace) :
    (noteAll level texts).Completes w := by
  induction texts generalizing w with
  | nil => exact completes_pure () w
  | cons text rest ih => exact completes_bind (completes_note level text w) fun _ w₁ _ => ih w₁

/-! ## Trees that an action leaves behind -/

/-- The tree that the action leaves has the property, whether the action returns or fails. -/
def Leaves (P : Disk → Prop) (action : Action α) (w : Workplace) : Prop :=
  P (action.ending w).2.disk

variable {P : Disk → Prop}

theorem Leaves.of_returns {action : Action α} (h : action.Leaves P w)
    (hret : action.Returns w a w') : P w'.disk := by
  unfold Leaves at h
  rw [show action.ending w = _ from hret] at h
  exact h

theorem Leaves.of_fails {action : Action α} (h : action.Leaves P w) (hfail : action.Fails w f w') :
    P w'.disk := by
  unfold Leaves at h
  rw [show action.ending w = _ from hfail] at h
  exact h

theorem Leaves.mono {Q : Disk → Prop} {action : Action α} (h : action.Leaves P w)
    (hPQ : ∀ d, P d → Q d) : action.Leaves Q w := hPQ _ h

theorem leaves_pure (h : P w.disk) : (pure a : Action α).Leaves P w := h

theorem leaves_setDisk {d : Disk} (h : P d) : (setDisk d).Leaves P w := h

theorem leaves_fail (h : P w.disk) : (fail f : Action α).Leaves P w := h

theorem leaves_note {level : Level} {text : String} (h : P w.disk) :
    (note level text).Leaves P w := h

theorem leaves_bind {action : Action α} {next : α → Action β} (h : action.Leaves P w)
    (hnext : ∀ a w₁, action.Returns w a w₁ → P w₁.disk → (next a).Leaves P w₁) :
    (action >>= next).Leaves P w := by
  unfold Leaves
  rw [ending_bind]
  rcases hend : action.ending w with ⟨f | a, w₁⟩
  · exact h.of_fails hend
  · exact hnext a w₁ hend (h.of_returns hend)

/-- Looking at the tree leaves it as it is. -/
theorem leaves_disk_bind {next : Disk → Action β} (h : (next w.disk).Leaves P w) :
    (disk >>= next).Leaves P w := h

theorem leaves_tryCatch {action : Action α} {handle : Failure → Action α} (h : action.Leaves P w)
    (hhandle : ∀ f w₁, action.Fails w f w₁ → P w₁.disk → (handle f).Leaves P w₁) :
    (tryCatch action handle : Action α).Leaves P w := by
  unfold Leaves
  rw [ending_tryCatch]
  rcases hend : action.ending w with ⟨f | a, w₁⟩
  · exact hhandle f w₁ hend (h.of_fails hend)
  · exact h.of_returns hend

theorem leaves_during {context : String} {action : Action α} (h : action.Leaves P w) :
    (during context action).Leaves P w :=
  leaves_tryCatch h fun _ _ _ hafter => leaves_fail hafter

theorem leaves_answer {result : Except SystemError α} (h : P w.disk) :
    (answer result).Leaves P w := by
  cases result <;> exact h

theorem leaves_noteAll {level : Level} {texts : List String} (h : P w.disk) :
    (noteAll level texts).Leaves P w := by
  induction texts generalizing w with
  | nil => exact h
  | cons text rest ih =>
    apply leaves_bind (leaves_note h)
    intro _ w₁ _ hnoted
    exact ih hnoted

/-- A call that fails leaves the tree alone. -/
theorem leaves_change {call : Disk → Except SystemError Disk} (h : P w.disk)
    (hcall : ∀ d, call w.disk = .ok d → P d) : (change call).Leaves P w := by
  unfold Leaves change
  rw [ending_bind]
  show P (((answer (call w.disk)) >>= setDisk).ending w).2.disk
  rw [ending_bind]
  cases hc : call w.disk with
  | error e => exact h
  | ok d => exact hcall d hc

theorem leaves_carryOut {act : Disk → Except Failure α × Disk} (h : P (act w.disk).2) :
    (Files.carryOut act).Leaves P w := by
  unfold Leaves
  rw [ending_carryOut]
  exact h

/-- What every action of the list keeps, they keep together. -/
theorem leaves_countAll {actions : List (Action Unit)}
    (hkeep : ∀ action ∈ actions, ∀ w, P w.disk → action.Leaves P w) (h : P w.disk) :
    (countAll actions).Leaves P w := by
  induction actions generalizing w with
  | nil => exact h
  | cons action rest ih =>
    apply leaves_bind (hkeep action List.mem_cons_self w h)
    intro _ w₁ _ hafter
    apply leaves_bind (ih (fun next hm => hkeep next (List.mem_cons_of_mem _ hm)) hafter)
    intro n w₂ _ hcounted
    exact leaves_pure hcounted

/-- The action looks at the tree at most. -/
def ReadsOnly (action : Action α) : Prop := ∀ w, action.Leaves (· = w.disk) w

theorem ReadsOnly.leaves {action : Action α} (hread : action.ReadsOnly) (h : P w.disk) :
    action.Leaves P w := by
  unfold Leaves
  rw [hread w]
  exact h

theorem ReadsOnly.then_leaves {action : Action α} {next : α → Action β} (hread : action.ReadsOnly)
    (h : P w.disk)
    (hnext : ∀ a w₁, action.Returns w a w₁ → w₁.disk = w.disk → (next a).Leaves P w₁) :
    (action >>= next).Leaves P w := by
  unfold Leaves
  rw [ending_bind]
  rcases hend : action.ending w with ⟨f | a, w₁⟩
  · exact (hread.leaves h).of_fails hend
  · exact hnext a w₁ hend ((hread w).of_returns hend)

theorem readsOnly_pure (a : α) : (pure a : Action α).ReadsOnly := fun _ => rfl

theorem readsOnly_fail (f : Failure) : (fail f : Action α).ReadsOnly := fun _ => rfl

theorem readsOnly_disk : disk.ReadsOnly := fun _ => rfl

theorem readsOnly_note (level : Level) (text : String) : (note level text).ReadsOnly := fun _ => rfl

theorem readsOnly_noteAll (level : Level) (texts : List String) :
    (noteAll level texts).ReadsOnly := fun _ => leaves_noteAll rfl

theorem readsOnly_answer (result : Except SystemError α) : (answer result).ReadsOnly :=
  fun _ => leaves_answer rfl

theorem ReadsOnly.bind {action : Action α} {next : α → Action β} (h : action.ReadsOnly)
    (hnext : ∀ a, (next a).ReadsOnly) : (action >>= next).ReadsOnly := by
  intro w
  apply leaves_bind (h w)
  intro a w₁ _ hsame
  exact (hnext a).leaves hsame

theorem ReadsOnly.tryCatch {action : Action α} {handle : Failure → Action α}
    (h : action.ReadsOnly) (hhandle : ∀ f, (handle f).ReadsOnly) :
    (MonadExcept.tryCatch action handle : Action α).ReadsOnly := by
  intro w
  apply leaves_tryCatch (h w)
  intro f w₁ _ hsame
  exact (hhandle f).leaves hsame

theorem ReadsOnly.during {action : Action α} (h : action.ReadsOnly) (context : String) :
    (during context action).ReadsOnly := fun w => leaves_during (h w)

end Action

namespace Files
open StubListing.Action

variable {w w' : Workplace} {p : Path}

/-- Reading a text leaves everything as it is, also when there is none. -/
theorem ending_readText (p : Path) (w : Workplace) :
    (readText p).ending w = (match w.disk.text p with
      | .ok text => .ok text
      | .error e => .error ⟨["Failed to read file " ++ p.text], .system e⟩, w) := by
  unfold readText
  rw [ending_bind]
  show (during _ (answer (w.disk.text p))).ending w = _
  unfold during
  rw [ending_tryCatch]
  cases w.disk.text p <;> rfl

theorem returns_readText {text : String} :
    (readText p).Returns w text w' ↔ w.disk.text p = .ok text ∧ w' = w := by
  rw [Returns, ending_readText]
  cases w.disk.text p with
  | error e => simp
  | ok found => simp [eq_comm]

/-- A text is written to the file that was opened. -/
theorem returns_writeText {text : String} {u : Unit} :
    (writeText p text).Returns w u w' ↔
      ∃ place d, openFile w.disk p = (.ok place, d) ∧
        w' = { w with disk := d.write place text.toUTF8 } := by
  unfold writeText
  rw [returns_bind]
  constructor
  · rintro ⟨place, w₁, hopen, hrest⟩
    obtain ⟨d, w₂, hdisk, hset⟩ := returns_bind.mp hrest
    obtain ⟨rfl, rfl⟩ := returns_disk.mp hdisk
    obtain ⟨d, hact, rfl⟩ := returns_carryOut.mp hopen
    exact ⟨place, d, hact, returns_setDisk.mp hset⟩
  · rintro ⟨place, d, hact, rfl⟩
    refine ⟨place, _, returns_carryOut.mpr ⟨d, hact, rfl⟩, ?_⟩
    exact returns_bind.mpr ⟨d, _, returns_disk.mpr ⟨rfl, rfl⟩, returns_setDisk.mpr rfl⟩

end Files

end StubListing
