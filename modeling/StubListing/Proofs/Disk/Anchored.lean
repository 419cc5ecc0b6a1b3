import StubListing.Proofs.Disk.Leads
/-!
# Paths that do not run through what they lead to

A path may lead to a directory by way of something that lies below that directory; then changes
below can cut the way off. A path is anchored when that cannot happen: it leads to its directory in
every tree that differs below the directory only.
-/
namespace StubListing.Disk
open StubListing.Path (IsEntryName)

variable {d d' d'' : Disk} {p root : Path} {place : Location}

/-- The trees have the same outside the directory, and the directory itself. -/
structure AgreesOutside (place : Location) (d d' : Disk) : Prop where
  home : d'.home = d.home
  outside : ∀ {l : Location}, ¬ Inside place l → d'.get? l = d.get? l

theorem AgreesOutside.refl (place : Location) (d : Disk) : AgreesOutside place d d :=
  ⟨rfl, fun _ => rfl⟩

theorem AgreesOutside.trans (h : AgreesOutside place d d') (h' : AgreesOutside place d' d'') :
    AgreesOutside place d d'' :=
  ⟨h'.home.trans h.home, fun hl => (h'.outside hl).trans (h.outside hl)⟩

/-- The path leads to the directory, whatever becomes of what is below it. -/
def Anchored (d : Disk) (p : Path) (place : Location) : Prop :=
  ∀ d', AgreesOutside place d d' → Leads d' p place

theorem Anchored.leads (h : Anchored d p place) : Leads d p place := h d (AgreesOutside.refl place d)

theorem Anchored.agrees (h : Anchored d p place) (hd : AgreesOutside place d d') :
    Anchored d' p place := fun _ hd' => h _ (hd.trans hd')

/-- Nothing is below an empty directory for a path to run through. -/
theorem anchored_of_empty (h : Leads d p place) (hempty : ∀ l, Inside place l → d.get? l = none) :
    Anchored d p place := by
  intro d' hd'
  have hsame : ∀ {l : Location} {e : Entry}, d.get? l = some e → d'.get? l = some e := by
    intro l e hl
    rw [hd'.outside, hl]
    intro hin
    rw [hempty l hin] at hl
    cases hl
  exact h.keeps ⟨hd'.home, hsame, hsame⟩

/-! ## Paths that go straight down -/

/-- The place that the path names if no link is on the way. -/
def spelled (d : Disk) (p : Path) : Location := startOf d.home p.text ++ p.moves

/-- The path goes straight down: it has no step up and comes by no link. -/
structure Direct (d : Disk) (p : Path) : Prop where
  noUp : ".." ∉ p.moves
  unlinked : ∀ l, l <+: d.spelled p → Unlinked d l

/-- Steps that go straight down end where they say, and do so in every tree that has the same
places on the way. -/
theorem advances_straight {steps : List String} {q : Progress} (h : Advances d place steps q)
    (hq : Arrives q) (hup : ".." ∉ live steps)
    (hlink : ∀ l, l <+: place ++ live steps → Unlinked d l)
    (hsame : ∀ l, l <+: place ++ live steps → d'.get? l = d.get? l) :
    q = .ended (.reached (place ++ live steps)) ∧ Advances d' place steps q := by
  have hhere : place <+: place ++ live steps := List.prefix_append _ _
  induction h with
  | stop place =>
    refine ⟨?_, .stop place⟩
    rw [show live [] = [] from rfl, List.append_nil]
  | idle hdir hidle _ ih =>
    rw [live_cons_idle hidle] at hup hlink hsame hhere ⊢
    obtain ⟨hend, hadv⟩ := ih hq hup hlink hsame hhere
    exact ⟨hend, .idle ((hsame _ hhere).trans hdir) hidle hadv⟩
  | up =>
    refine absurd ?_ hup
    rw [live_cons (by decide)]
    exact List.mem_cons_self
  | enter hdir hidle hstep hlen hget hno tail ih =>
    rename_i place step rest _ e
    rw [live_cons hidle] at hup hlink hsame hhere ⊢
    have hmove : place ++ step :: live rest = place ++ [step] ++ live rest := by simp
    rw [hmove] at hlink hsame ⊢
    obtain ⟨hend, hadv⟩ := ih hq (fun hm => hup (List.mem_cons_of_mem _ hm)) hlink hsame
      (List.prefix_append _ _)
    refine ⟨hend, .enter ?_ hidle hstep hlen ?_ hno hadv⟩
    · rw [hsame _ (hmove ▸ hhere), hdir]
    · rw [hsame _ (List.prefix_append _ _), hget]
  | link hdir hidle hstep hlen hget =>
    rename_i place step target rest
    rw [live_cons hidle] at hlink
    have hon : place ++ [step] <+: place ++ step :: live rest := ⟨live rest, by simp⟩
    exact absurd hget (hlink _ hon target)
  | vacant => exact False.elim hq

/-- A path that goes straight down to a directory is anchored in it. -/
theorem Direct.anchored (h : Direct d p) {goal : Location} (hgoal : Leads d p goal) :
    goal = d.spelled p ∧ Anchored d p goal := by
  have hstraight : ∀ {d' : Disk}, (∀ l, l <+: d.spelled p → d'.get? l = d.get? l) →
      goal = d.spelled p ∧ Reaches d' (linkLimit + 1) (startOf d.home p.text) p.segments goal := by
    intro d' hsame
    cases hgoal.walk with
    | direct hadv =>
      obtain ⟨hend, hadv'⟩ := advances_straight hadv trivial h.noUp h.unlinked hsame
      refine ⟨?_, .direct hadv'⟩
      simp only [Progress.ended.injEq, Arrival.reached.injEq] at hend
      exact hend
    | through hadv _ =>
      obtain ⟨hend, _⟩ := advances_straight hadv trivial h.noUp h.unlinked hsame
      cases hend
  obtain ⟨hplace, -⟩ := hstraight fun _ _ => rfl
  refine ⟨hplace, fun d' hd' => ?_⟩
  have hsame : ∀ l, l <+: goal → d'.get? l = d.get? l := fun l hl =>
    hd'.outside (not_inside_of_isPrefix hl)
  refine ⟨(hsame goal List.prefix_rfl).trans hgoal.directory, ?_⟩
  rw [hd'.home]
  exact (hstraight (hplace ▸ hsame)).2

/-- The directory that a direct path leads to. -/
theorem Direct.anchored_of_isDirectory (h : Direct d p) (hdir : d.isDirectory p = true) :
    Anchored d p (d.spelled p) := by
  obtain ⟨_, goal, hgoal⟩ := leads_of_isDirectory hdir
  obtain ⟨rfl, hanchored⟩ := h.anchored hgoal
  exact hanchored

end StubListing.Disk
