import StubListing.Proofs.Action
import StubListing.Proofs.Disk.Sparing
import StubListing.Proofs.Stub.Writing
/-!
# Trees that only gain

Making directories and writing files takes nothing away: directories and links stay, and where a file
was a file is, though perhaps with another content. In such a tree a path comes out where it did
before, so what was written to a path is read from it, whatever the tree looks like and wherever the
path leads.
-/
namespace StubListing

namespace Disk

variable {d d' d'' : Disk} {p : Path} {place l goal : Location} {name : String}
  {among : Location → Prop}

/-- Directories and links of the first tree are still there in the second, and at the places told of,
where a file was a file is. -/
structure Lasts (among : Location → Prop) (d d' : Disk) : Prop extends Keeps d d' where
  file : ∀ {l : Location} {content : ByteArray}, among l → d.get? l = some (.file content) →
    ∃ content', d'.get? l = some (.file content')

/-- Nothing is taken away anywhere. -/
abbrev LastsAll (d d' : Disk) : Prop := Lasts (fun _ => True) d d'

theorem Lasts.refl (among : Location → Prop) (d : Disk) : Lasts among d d :=
  ⟨Keeps.refl d, fun _ hl => ⟨_, hl⟩⟩

theorem Lasts.trans (h : Lasts among d d') (h' : Lasts among d' d'') : Lasts among d d'' := by
  refine ⟨h.toKeeps.trans h'.toKeeps, fun ha hl => ?_⟩
  obtain ⟨content, hthere⟩ := h.file ha hl
  exact h'.file ha hthere

theorem Lasts.mono {fewer : Location → Prop} (h : Lasts among d d')
    (hfewer : ∀ l, fewer l → among l) : Lasts fewer d d' :=
  ⟨h.toKeeps, fun hl => h.file (hfewer _ hl)⟩

/-! ## Calls that take nothing away -/

theorem lasts_put_free (hne : place ≠ []) (hfree : d.get? place = none) (e : Entry) :
    Lasts among d (d.put place e) := by
  have hget : ∀ {l : Location} {x : Entry}, d.get? l = some x →
      (d.put place e).get? l = some x := by
    intro l x hl
    rw [get?_put _ _ _ _ hne, if_neg, hl]
    rintro rfl
    rw [hl] at hfree
    cases hfree
  exact ⟨⟨rfl, hget, hget⟩, fun _ hl => ⟨_, hget hl⟩⟩

theorem lasts_put_file {old : ByteArray} (hold : d.get? place = some (.file old))
    (content : ByteArray) : Lasts among d (d.put place (.file content)) := by
  have hne : place ≠ [] := by
    rintro rfl
    cases hold
  have hget : ∀ {l : Location} {x : Entry}, d.get? l = some x → (∀ old, x ≠ .file old) →
      (d.put place (.file content)).get? l = some x := by
    intro l x hl hx
    rw [get?_put _ _ _ _ hne, if_neg, hl]
    rintro rfl
    rw [hl] at hold
    exact hx old (Option.some.inj hold)
  refine ⟨⟨rfl, fun hl => hget hl (by simp), fun hl => hget hl (by simp)⟩, fun {l _} _ hl => ?_⟩
  rw [get?_put _ _ _ _ hne]
  split
  · exact ⟨content, rfl⟩
  · exact ⟨_, hl⟩

/-- Taking away one file that is not told of. -/
theorem lasts_drop_file {old : ByteArray} (hold : d.get? place = some (.file old))
    (hother : ¬ among place) : Lasts among d (d.drop place) := by
  have hne : place ≠ [] := by
    rintro rfl
    cases hold
  have hget : ∀ {l : Location} {x : Entry}, d.get? l = some x → l ≠ place →
      (d.drop place).get? l = some x := by
    intro l x hl hne'
    rw [get?_drop d place l hne, if_neg hne', hl]
  have hnot : ∀ {l : Location} {x : Entry}, d.get? l = some x → (∀ old, x ≠ .file old) →
      l ≠ place := by
    rintro l x hl hx rfl
    rw [hl] at hold
    exact hx old (Option.some.inj hold)
  refine ⟨⟨rfl, fun hl => hget hl (hnot hl (by simp)), fun hl => hget hl (hnot hl (by simp))⟩,
    fun {l _} ha hl => ⟨_, hget hl ?_⟩⟩
  rintro rfl
  exact hother ha

theorem lasts_makeDirectory (h : d.makeDirectory p = .ok d') : Lasts among d d' := by
  obtain ⟨directory, name, -, hfree, rfl⟩ := place_ok h
  exact lasts_put_free (by simp) hfree .directory

theorem lasts_makeChain {paths : List Path} {result : Except SystemError Unit}
    (h : makeChain paths d = (result, d')) : Lasts among d d' :=
  makeChain_keeps (P := Lasts among d) (fun _ _ _ _ he hm => he.trans (lasts_makeDirectory hm))
    (Lasts.refl among d) h

theorem lasts_provide (d : Disk) (p : Path) : Lasts among d (Files.provide d p).2 := by
  unfold Files.provide
  split
  · exact Lasts.refl among d
  · rcases hm : d.makeDirectories p with ⟨_ | _, d'⟩ <;> exact lasts_makeChain hm

theorem lasts_create (h : d.create p = .ok (place, d')) : Lasts among d d' := by
  obtain ⟨rfl, ⟨directory, name, rfl, hfree, -⟩ | ⟨-, old, hold⟩⟩ := create_cases h
  · exact lasts_put_free (by simp) hfree _
  · exact lasts_put_file hold _

theorem lasts_openFile {result : Except Failure Location}
    (h : Files.openFile d p = (result, d')) : Lasts among d d' := by
  obtain ⟨housed, hprovided, hopened⟩ := openFile_cases h
  have hhoused : Lasts among d housed := by
    rcases hprovided with rfl | ⟨q, rfl⟩
    · exact Lasts.refl among _
    · exact lasts_provide d q
  rcases hopened with ⟨f, -, rfl⟩ | ⟨found, -, hcreate⟩
  · exact hhoused
  · exact hhoused.trans (lasts_create hcreate)

theorem lasts_write (d : Disk) (place : Location) (content : ByteArray) :
    Lasts among d (d.write place content) := by
  unfold Disk.write
  split
  · rename_i old hold
    exact lasts_put_file hold _
  · exact Lasts.refl among d

/-! ## Walks in trees that last -/

/-- What a walk can step into is still there to be stepped into. -/
theorem Lasts.enterable (hk : LastsAll d d') {e : Entry} (hget : d.get? l = some e)
    (hlink : ∀ target, e ≠ .link target) :
    ∃ e', d'.get? l = some e' ∧ ∀ target, e' ≠ .link target := by
  cases e with
  | link target => exact absurd rfl (hlink target)
  | directory => exact ⟨_, hk.directory hget, by simp⟩
  | file content =>
    obtain ⟨content', hthere⟩ := hk.file trivial hget
    exact ⟨_, hthere, by simp⟩

/-- A walk that arrives somewhere arrives there again. -/
theorem Advances.lasts (hk : LastsAll d d') {steps : List String} {q : Progress}
    (h : Advances d place steps q) (hq : Arrives q) : Advances d' place steps q := by
  induction h with
  | stop place => exact .stop place
  | idle hdir hidle _ ih => exact .idle (hk.directory hdir) hidle (ih hq)
  | up hdir _ ih => exact .up (hk.directory hdir) (ih hq)
  | enter hdir hidle hup hlen hget hlink _ ih =>
    obtain ⟨e', hthere, hlink'⟩ := hk.enterable hget hlink
    exact .enter (hk.directory hdir) hidle hup hlen hthere hlink' (ih hq)
  | link hdir hidle hup hlen hget => exact .link (hk.directory hdir) hidle hup hlen (hk.link hget)
  | vacant => exact False.elim hq

theorem Reaches.lasts (hk : LastsAll d d') {n : Nat} {steps : List String}
    (h : Reaches d n place steps goal) : Reaches d' n place steps goal := by
  induction h with
  | direct h => exact .direct (h.lasts hk trivial)
  | through h _ ih => exact .through (h.lasts hk trivial) ih

theorem Lasts.find (hk : LastsAll d d') (h : d.find p = .ok l) : d'.find p = .ok l := by
  obtain ⟨hcheck, hwalk⟩ := find_eq_ok.mp h
  refine find_eq_ok.mpr ⟨hcheck, ?_⟩
  rw [hk.home]
  exact hwalk.lasts hk

/-- A walk that misses its last name arrives there once a file has that name. -/
theorem Advances.filled (hk : LastsAll d d') {steps : List String} {q : Progress}
    {directory : Location} {content : ByteArray} (h : Advances d place steps q)
    (hq : q = .ended (.vacant directory name false))
    (hfile : d'.get? (directory ++ [name]) = some (.file content)) :
    Advances d' place steps (.ended (.reached (directory ++ [name]))) := by
  induction h with
  | stop => cases hq
  | idle hdir hidle _ ih => exact .idle (hk.directory hdir) hidle (ih hq)
  | up hdir _ ih => exact .up (hk.directory hdir) (ih hq)
  | enter hdir hidle hup hlen hget hlink _ ih =>
    obtain ⟨e', hthere, hlink'⟩ := hk.enterable hget hlink
    exact .enter (hk.directory hdir) hidle hup hlen hthere hlink' (ih hq)
  | link => cases hq
  | vacant hdir hidle hup hlen _ _ =>
    rename_i rest _ _
    cases rest with
    | nil =>
      cases hq
      exact .enter (hk.directory hdir) hidle hup hlen hfile (by simp) (.stop _)
    | cons step rest => cases hq

theorem follow_filled (hk : LastsAll d d') {n : Nat} {steps : List String} {directory : Location}
    {content : ByteArray} (h : d.follow n place steps = .ok (.vacant directory name false))
    (hfile : d'.get? (directory ++ [name]) = some (.file content)) :
    Reaches d' n place steps (directory ++ [name]) := by
  induction n generalizing place steps with
  | zero => cases h
  | succ n ih =>
    rw [follow_succ] at h
    cases ha : d.advance place steps with
    | error e => rw [ha] at h; cases h
    | ok progress =>
      rw [ha] at h
      cases progress with
      | ended arrival =>
        cases h
        exact .direct ((advances_iff.mp ha).filled hk rfl hfile)
      | link => exact .through ((advances_iff.mp ha).lasts hk trivial) (ih h)

/-- The path of a file that was opened comes out at the file. -/
theorem find_of_create (h : d.create p = .ok (place, d')) :
    d'.find p = .ok place ∧ d'.get? place = some (.file .empty) := by
  have hlasts : LastsAll d d' := lasts_create h
  obtain ⟨rfl, hcases⟩ := create_cases h
  have hne : place ≠ [] := by
    rintro rfl
    rcases hcases with ⟨directory, name, heq, -⟩ | ⟨-, old, hold⟩
    · simp at heq
    · cases hold
  have hthere : (d.put place (.file .empty)).get? place = some (.file .empty) := by
    rw [get?_put _ _ _ _ hne, if_pos rfl]
  refine ⟨?_, hthere⟩
  rcases hcases with ⟨directory, name, rfl, -, hresolve⟩ | ⟨hfind, -⟩
  · unfold resolve at hresolve
    cases hcheck : checkPath p with
    | error e => rw [hcheck] at hresolve; cases hresolve
    | ok _ =>
      rw [hcheck] at hresolve
      refine find_eq_ok.mpr ⟨hcheck, ?_⟩
      exact follow_filled hlasts hresolve hthere
  · exact hlasts.find hfind

end Disk

namespace Files
open StubListing.Action

/-- What was written to a path is read from it. -/
theorem text_of_writeText {w w' : Workplace} {p : Path} {text : String} {u : Unit}
    (h : (writeText p text).Returns w u w') : w'.disk.text p = .ok text := by
  obtain ⟨place, d₁, hact, rfl⟩ := returns_writeText.mp h
  obtain ⟨housed, -, ⟨f, hfailed, -⟩ | ⟨found, hfound, hcreate⟩⟩ := Disk.openFile_cases hact
  · cases hfailed
  · cases hfound
    obtain ⟨hfind, hthere⟩ := Disk.find_of_create hcreate
    have hlasts : Disk.LastsAll d₁ (d₁.write place text.toUTF8) := Disk.lasts_write _ _ _
    apply Disk.text_of_content
    refine Disk.content_eq_ok.mpr ⟨place, hlasts.find hfind, ?_⟩
    have hne : place ≠ [] := by
      rintro rfl
      cases hthere
    show (d₁.write place text.toUTF8).get? place = _
    rw [Disk.write_empty hthere, Disk.get?_put _ _ _ _ hne, if_pos rfl]

theorem lasts_writeText {among : Location → Prop} {w w' : Workplace} {p : Path} {text : String}
    {u : Unit} (h : (writeText p text).Returns w u w') : Disk.Lasts among w.disk w'.disk := by
  obtain ⟨place, d, hact, rfl⟩ := returns_writeText.mp h
  exact (Disk.lasts_openFile hact).trans (Disk.lasts_write _ _ _)

end Files

end StubListing
