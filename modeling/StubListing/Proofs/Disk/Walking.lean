import StubListing.Proofs.Disk.Sound
/-!
# Walks that arrive

A walk that reaches a directory can be cut in two at any place, does not notice segments that
lead nowhere, and finds its way again in every tree that has kept the directories and links of
the first one.
-/
namespace StubListing.Disk
open StubListing.Path (isIdle)

/-! ## The ways a walk can go -/

/-- The steps from a place as far as they are made without following a link. -/
inductive Advances (d : Disk) : Location → List String → Progress → Prop
  | stop (place : Location) : Advances d place [] (.ended (.reached place))
  | idle {place : Location} {step : String} {rest : List String} {p : Progress}
      (hdir : d.get? place = some .directory) (hidle : isIdle step = true)
      (tail : Advances d place rest p) : Advances d place (step :: rest) p
  | up {place : Location} {rest : List String} {p : Progress}
      (hdir : d.get? place = some .directory) (tail : Advances d (above place) rest p) :
      Advances d place (".." :: rest) p
  | enter {place : Location} {step : String} {rest : List String} {p : Progress} {e : Entry}
      (hdir : d.get? place = some .directory) (hidle : isIdle step = false) (hup : step ≠ "..")
      (hlen : step.utf8ByteSize ≤ longestName) (hget : d.get? (place ++ [step]) = some e)
      (hlink : ∀ target, e ≠ .link target) (tail : Advances d (place ++ [step]) rest p) :
      Advances d place (step :: rest) p
  | link {place : Location} {step target : String} {rest : List String}
      (hdir : d.get? place = some .directory) (hidle : isIdle step = false) (hup : step ≠ "..")
      (hlen : step.utf8ByteSize ≤ longestName)
      (hget : d.get? (place ++ [step]) = some (.link target)) :
      Advances d place (step :: rest) (.link place target rest)
  | vacant {place : Location} {step : String} {rest : List String}
      (hdir : d.get? place = some .directory) (hidle : isIdle step = false) (hup : step ≠ "..")
      (hlen : step.utf8ByteSize ≤ longestName) (hget : d.get? (place ++ [step]) = none)
      (hrest : rest.all (· = "") = true) :
      Advances d place (step :: rest) (.ended (.vacant place step (!rest.isEmpty)))

theorem isIdle_iff {step : String} : isIdle step = true ↔ step = "" ∨ step = "." := by
  simp [isIdle]

theorem not_idle_iff {step : String} : isIdle step = false ↔ ¬ (step = "" ∨ step = ".") := by
  rw [← isIdle_iff, Bool.not_eq_true]

theorem advances_of_advance {d : Disk} {p : Progress} :
    ∀ {steps : List String} {place : Location}, d.advance place steps = .ok p →
      Advances d place steps p := by
  intro steps
  induction steps with
  | nil =>
    intro place h
    cases h
    exact .stop place
  | cons step rest ih =>
    intro place h
    unfold advance at h
    split at h
    · rename_i hdir
      split at h
      · rename_i hidle
        exact .idle hdir (isIdle_iff.mpr hidle) (ih h)
      · rename_i hidle
        split at h
        · rename_i hup
          subst hup
          exact .up hdir (ih h)
        · rename_i hup
          split at h
          · cases h
          · rename_i hlen
            have hidle := not_idle_iff.mpr hidle
            have hlen := Nat.not_lt.mp hlen
            split at h
            · rename_i hget
              cases h
              exact .link hdir hidle hup hlen hget
            · rename_i e hlink hget
              exact .enter hdir hidle hup hlen hget hlink (ih h)
            · rename_i hget
              split at h
              · rename_i hrest
                cases h
                exact .vacant hdir hidle hup hlen hget hrest
              · cases h
    · cases h

theorem Advances.advance_eq {d : Disk} {place : Location} {steps : List String} {p : Progress}
    (h : Advances d place steps p) : d.advance place steps = .ok p := by
  induction h with
  | stop => rfl
  | idle hdir hidle _ ih => rw [advance, hdir]; simp [isIdle_iff.mp hidle, ih]
  | up hdir _ ih => rw [advance, hdir]; simp [ih]
  | enter hdir hidle hup hlen hget hlink _ ih =>
    rename_i e _
    rw [advance, hdir]
    cases e with
    | link target => exact absurd rfl (hlink target)
    | directory | file content =>
      simp only [if_neg (not_idle_iff.mp hidle), if_neg hup, if_neg (Nat.not_lt.mpr hlen), hget]
      exact ih
  | link hdir hidle hup hlen hget =>
    rw [advance, hdir]
    simp only [if_neg (not_idle_iff.mp hidle), if_neg hup, if_neg (Nat.not_lt.mpr hlen), hget]
  | vacant hdir hidle hup hlen hget hrest =>
    rw [advance, hdir]
    simp only [if_neg (not_idle_iff.mp hidle), if_neg hup, if_neg (Nat.not_lt.mpr hlen), hget, hrest,
      if_true]

theorem advances_iff {d : Disk} {place : Location} {steps : List String} {p : Progress} :
    d.advance place steps = .ok p ↔ Advances d place steps p :=
  ⟨advances_of_advance, Advances.advance_eq⟩

/-- A walk with at most so many links on its way that ends at the place. -/
inductive Reaches (d : Disk) : Nat → Location → List String → Location → Prop
  | direct {n : Nat} {place goal : Location} {steps : List String}
      (h : Advances d place steps (.ended (.reached goal))) : Reaches d (n + 1) place steps goal
  | through {n : Nat} {place goal directory : Location} {steps rest : List String} {target : String}
      (h : Advances d place steps (.link directory target rest))
      (tail : Reaches d n (startOf directory target) (Path.segmentsOf target ++ rest) goal) :
      Reaches d (n + 1) place steps goal

theorem follow_succ (d : Disk) (n : Nat) (place : Location) (steps : List String) :
    d.follow (n + 1) place steps =
      match d.advance place steps with
      | .error e => .error e
      | .ok (.ended arrival) => .ok arrival
      | .ok (.link directory target rest) =>
        d.follow n (startOf directory target) (Path.segmentsOf target ++ rest) := by
  rw [follow]
  rcases d.advance place steps with e | ⟨arrival⟩ | _ <;> rfl

theorem reaches_iff {d : Disk} {n : Nat} {place goal : Location} {steps : List String} :
    d.follow n place steps = .ok (.reached goal) ↔ Reaches d n place steps goal := by
  constructor
  · intro h
    induction n generalizing place steps with
    | zero => cases h
    | succ n ih =>
      rw [follow_succ] at h
      cases ha : d.advance place steps with
      | error e => rw [ha] at h; cases h
      | ok progress =>
        rw [ha] at h
        cases progress with
        | ended arrival => cases h; exact .direct (advances_iff.mp ha)
        | link directory target rest => exact .through (advances_iff.mp ha) (ih h)
  · intro h
    induction h with
    | direct h => rw [follow_succ, h.advance_eq]
    | through h _ ih => rw [follow_succ, h.advance_eq]; exact ih

/-! ## Walks in two parts -/

theorem Advances.advance_append {d : Disk} {place goal : Location} {steps : List String}
    {p : Progress} (h : Advances d place steps p) (hp : p = .ended (.reached goal))
    (more : List String) : d.advance place (steps ++ more) = d.advance goal more := by
  induction h with
  | stop place => cases hp; rfl
  | idle hdir hidle _ ih =>
    rw [← ih hp, List.cons_append, advance, hdir]
    exact if_pos (isIdle_iff.mp hidle)
  | up hdir _ ih => simp [← ih hp, advance, hdir]
  | enter hdir hidle hup hlen hget hlink _ ih =>
    rename_i e _
    rw [← ih hp, List.cons_append, advance, hdir]
    cases e with
    | link target => exact absurd rfl (hlink target)
    | directory | file content =>
      simp only [if_neg (not_idle_iff.mp hidle), if_neg hup, if_neg (Nat.not_lt.mpr hlen), hget]
  | link => cases hp
  | vacant => cases hp

theorem Advances.append_link {d : Disk} {place directory : Location} {target : String}
    {steps rest : List String} {p : Progress} (h : Advances d place steps p)
    (hp : p = .link directory target rest) (more : List String) :
    Advances d place (steps ++ more) (.link directory target (rest ++ more)) := by
  induction h with
  | stop => cases hp
  | idle hdir hidle _ ih => exact .idle hdir hidle (ih hp)
  | up hdir _ ih => exact .up hdir (ih hp)
  | enter hdir hidle hup hlen hget hlink _ ih => exact .enter hdir hidle hup hlen hget hlink (ih hp)
  | link hdir hidle hup hlen hget =>
    cases hp
    exact .link hdir hidle hup hlen hget
  | vacant => cases hp

/-- Whatever steps come after those that reach a place are made from there. -/
theorem Reaches.follow_append {d : Disk} {n : Nat} {place goal : Location} {steps : List String}
    (h : Reaches d n place steps goal) :
    ∃ m, ∀ more, d.follow n place (steps ++ more) = d.follow (m + 1) goal more := by
  induction h with
  | direct h =>
    rename_i n _ _ _
    exact ⟨n, fun more => by rw [follow_succ, follow_succ, h.advance_append rfl more]⟩
  | through h _ ih =>
    obtain ⟨m, hm⟩ := ih
    refine ⟨m, fun more => ?_⟩
    rw [follow_succ, (h.append_link rfl more).advance_eq, ← hm more, List.append_assoc]

/-! ## Steps that lead nowhere -/

/-- The steps that lead somewhere. -/
def live (steps : List String) : List String := steps.filter fun s => !isIdle s

theorem live_append (s t : List String) : live (s ++ t) = live s ++ live t := List.filter_append ..

theorem live_cons_idle {step : String} (h : isIdle step = true) (rest : List String) :
    live (step :: rest) = live rest := by simp [live, h]

theorem live_cons {step : String} (h : isIdle step = false) (rest : List String) :
    live (step :: rest) = step :: live rest := by simp [live, h]

/-- What has been made of the steps, with the live ones left to make. -/
def thinned : Progress → Progress
  | .link directory target rest => .link directory target (live rest)
  | p => p

/-- The steps end in a directory or at a link. -/
def Lands (d : Disk) : Progress → Prop
  | .ended (.reached goal) => d.get? goal = some .directory
  | .ended (.vacant _ _ _) => False
  | .link _ _ _ => True

/-- The steps end where something is or at a link. -/
def Arrives : Progress → Prop
  | .ended (.vacant _ _ _) => False
  | _ => True

theorem Advances.directory_of_lands {d : Disk} {place : Location} {steps : List String}
    {p : Progress} (h : Advances d place steps p) (hp : Lands d p) :
    d.get? place = some .directory := by
  cases h with
  | stop => exact hp
  | idle hdir => exact hdir
  | up hdir => exact hdir
  | enter hdir => exact hdir
  | link hdir => exact hdir
  | vacant hdir => exact hdir

theorem Advances.live {d : Disk} {place : Location} {steps : List String} {p : Progress}
    (h : Advances d place steps p) (hp : Lands d p) :
    Advances d place (live steps) (thinned p) := by
  induction h with
  | stop place => exact .stop place
  | idle hdir hidle _ ih => rw [live_cons_idle hidle]; exact ih hp
  | up hdir _ ih => exact .up hdir (ih hp)
  | enter hdir hidle hup hlen hget hlink _ ih =>
    rw [live_cons hidle]
    exact .enter hdir hidle hup hlen hget hlink (ih hp)
  | link hdir hidle hup hlen hget =>
    rw [live_cons hidle]
    exact .link hdir hidle hup hlen hget
  | vacant => exact False.elim hp

/-- Where the live steps lead to a directory or a link, so do all steps. -/
theorem advances_of_live {d : Disk} {q : Progress} (hq : Lands d q) :
    ∀ {steps : List String} {place : Location}, Advances d place (live steps) q →
      ∃ p, thinned p = q ∧ Advances d place steps p := by
  intro steps
  induction steps with
  | nil =>
    intro place h
    cases h
    exact ⟨_, rfl, .stop place⟩
  | cons step rest ih =>
    intro place h
    by_cases hidle : isIdle step = true
    · rw [live_cons_idle hidle] at h
      obtain ⟨p, hp, hadv⟩ := ih h
      exact ⟨p, hp, .idle (h.directory_of_lands hq) hidle hadv⟩
    · rw [live_cons (Bool.eq_false_iff.mpr hidle)] at h
      cases h with
      | idle _ hi => exact absurd hi hidle
      | up hdir tail =>
        obtain ⟨p, hp, hadv⟩ := ih tail
        exact ⟨p, hp, .up hdir hadv⟩
      | enter hdir hi hup hlen hget hlink tail =>
        obtain ⟨p, hp, hadv⟩ := ih tail
        exact ⟨p, hp, .enter hdir hi hup hlen hget hlink hadv⟩
      | link hdir hi hup hlen hget => exact ⟨_, rfl, .link hdir hi hup hlen hget⟩
      | vacant => exact False.elim hq

/-- Two lists of steps with the same live ones lead to the same directory. -/
theorem Reaches.congr {d : Disk} {n : Nat} {place goal : Location} {steps steps' : List String}
    (h : Reaches d n place steps goal) (hgoal : d.get? goal = some .directory)
    (hlive : live steps = live steps') : Reaches d n place steps' goal := by
  induction h generalizing steps' with
  | direct h =>
    have hl := h.live hgoal
    rw [hlive] at hl
    obtain ⟨p, hp, hadv⟩ := advances_of_live (q := .ended (.reached _)) hgoal hl
    cases p with
    | ended arrival => cases hp; exact .direct hadv
    | link => cases hp
  | through h _ ih =>
    have hl := h.live trivial
    rw [hlive] at hl
    obtain ⟨p, hp, hadv⟩ := advances_of_live (q := .link _ _ _) trivial hl
    cases p with
    | ended arrival => cases hp
    | link directory target rest' =>
      simp only [thinned, Progress.link.injEq] at hp
      obtain ⟨rfl, rfl, hrest⟩ := hp
      refine .through hadv (ih hgoal ?_)
      rw [live_append, live_append, hrest]

/-! ## Walks in other trees -/

/-- Directories and links of the first tree are still there in the second. -/
structure Keeps (d d' : Disk) : Prop where
  home : d'.home = d.home
  directory : ∀ {l : Location}, d.get? l = some .directory → d'.get? l = some .directory
  link : ∀ {l : Location} {t : String}, d.get? l = some (.link t) → d'.get? l = some (.link t)

theorem Keeps.refl (d : Disk) : Keeps d d := ⟨rfl, id, id⟩

theorem Keeps.trans {d d' d'' : Disk} (h : Keeps d d') (h' : Keeps d' d'') : Keeps d d'' :=
  ⟨h'.home.trans h.home, fun hl => h'.directory (h.directory hl), fun hl => h'.link (h.link hl)⟩

theorem Advances.keeps {d d' : Disk} (hk : Keeps d d') {place : Location} {steps : List String}
    {p : Progress} (h : Advances d place steps p) (hp : Lands d p) :
    Advances d' place steps p := by
  induction h with
  | stop place => exact .stop place
  | idle hdir hidle _ ih => exact .idle (hk.directory hdir) hidle (ih hp)
  | up hdir _ ih => exact .up (hk.directory hdir) (ih hp)
  | enter hdir hidle hup hlen hget hlink tail ih =>
    have hentered := hk.directory (tail.directory_of_lands hp)
    exact .enter (hk.directory hdir) hidle hup hlen hentered (by simp) (ih hp)
  | link hdir hidle hup hlen hget => exact .link (hk.directory hdir) hidle hup hlen (hk.link hget)
  | vacant => exact False.elim hp

theorem Reaches.keeps {d d' : Disk} (hk : Keeps d d') {n : Nat} {place goal : Location}
    {steps : List String} (h : Reaches d n place steps goal)
    (hgoal : d.get? goal = some .directory) : Reaches d' n place steps goal := by
  induction h with
  | direct h => exact .direct (h.keeps hk hgoal)
  | through h _ ih => exact .through (h.keeps hk trivial) (ih hgoal)

/-- Everything that is in the second tree is in the first. -/
structure Within (d₀ d : Disk) : Prop where
  home : d.home = d₀.home
  entry : ∀ {l : Location} {e : Entry}, d.get? l = some e → d₀.get? l = some e

theorem Within.refl (d : Disk) : Within d d := ⟨rfl, id⟩

theorem Within.trans {d d' d'' : Disk} (h : Within d d') (h' : Within d' d'') : Within d d'' :=
  ⟨h'.home.trans h.home, h.entry ∘ h'.entry⟩

theorem Advances.within {d₀ d : Disk} (hw : Within d₀ d) {place : Location} {steps : List String}
    {p : Progress} (h : Advances d place steps p) (hp : Arrives p) : Advances d₀ place steps p := by
  induction h with
  | stop place => exact .stop place
  | idle hdir hidle _ ih => exact .idle (hw.entry hdir) hidle (ih hp)
  | up hdir _ ih => exact .up (hw.entry hdir) (ih hp)
  | enter hdir hidle hup hlen hget hlink _ ih =>
    exact .enter (hw.entry hdir) hidle hup hlen (hw.entry hget) hlink (ih hp)
  | link hdir hidle hup hlen hget =>
    exact .link (hw.entry hdir) hidle hup hlen (hw.entry hget)
  | vacant => exact False.elim hp

theorem Reaches.within {d₀ d : Disk} (hw : Within d₀ d) {n : Nat} {place goal : Location}
    {steps : List String} (h : Reaches d n place steps goal) : Reaches d₀ n place steps goal := by
  induction h with
  | direct h => exact .direct (h.within hw trivial)
  | through h _ ih => exact .through (h.within hw trivial) ih

end StubListing.Disk
