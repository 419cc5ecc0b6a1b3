import StubListing.Proofs.Disk.Making
import StubListing.Proofs.Disk.Removing
/-!
# Files that calls leave alone

A removal takes a file only if the path comes out at it; a link is removed itself, not what it leads
to. Opening a file for writing follows links, so it may empty a file far away, but no call makes a
link here: where a path comes out is settled by the links that were there before.
-/
namespace StubListing.Disk
open StubListing.Path (IsEntryName)

variable {d₀ d d' : Disk} {p q : Path} {place l : Location} {name : String} {content : ByteArray}

/-! ## Removing -/

theorem removeFile_ok (h : d.removeFile p = .ok d') :
    ∃ directory name, d.locate p = .ok (some (directory, name)) ∧
      d' = d.drop (directory ++ [name]) := by
  unfold removeFile at h
  cases hl : d.locate p with
  | error e => rw [hl] at h; cases h
  | ok spot =>
    rw [hl] at h
    cases spot with
    | none => cases h
    | some found =>
      obtain ⟨directory, name⟩ := found
      refine ⟨directory, name, rfl, ?_⟩
      simp only [bind, Except.bind] at h
      split at h
      · cases h
      · cases h
      · split at h <;> cases h
        rfl

theorem removeDirectory_ok (h : d.removeDirectory p = .ok d') :
    ∃ directory name, d.get? (directory ++ [name]) = some .directory ∧
      d' = d.drop (directory ++ [name]) := by
  unfold removeDirectory at h
  cases hl : d.locate p with
  | error e => rw [hl] at h; cases h
  | ok spot =>
    rw [hl] at h
    cases spot with
    | none => cases h
    | some found =>
      obtain ⟨directory, name⟩ := found
      simp only [bind, Except.bind] at h
      split at h
      · cases h
      · rename_i hdir
        split at h <;> cases h
        exact ⟨directory, name, hdir, rfl⟩
      · cases h

/-- A file or link is removed from the directory that the path above leads to. -/
theorem removeFile_join (hn : IsEntryName name) (h : d.removeFile (q.join name) = .ok d') :
    ∃ place, Leads d q place ∧ d' = d.drop (place ++ [name]) := by
  obtain ⟨directory, last, hlocate, rfl⟩ := removeFile_ok h
  obtain ⟨-, -, -, front, hmoves, hleads⟩ := locate_eq_some hlocate
  obtain ⟨rfl, hlast⟩ := List.append_inj' ((Path.moves_join q hn).symm.trans hmoves) rfl
  cases hlast
  exact ⟨directory, hleads q rfl (Path.isAbsolute_join q hn).symm, rfl⟩

/-- The second tree is what is left of the first, and the file is still in it. -/
structure Remains (d₀ : Disk) (l : Location) (content : ByteArray) (d : Disk) : Prop where
  within : Within d₀ d
  there : d.get? l = some (.file content)

theorem remains_self (h : d.get? l = some (.file content)) : Remains d l content d :=
  ⟨Within.refl d, h⟩

theorem Within.find (h : Within d₀ d) (hfind : d.find p = .ok l) : d₀.find p = .ok l := by
  obtain ⟨hcheck, hwalk⟩ := find_eq_ok.mp hfind
  refine find_eq_ok.mpr ⟨hcheck, ?_⟩
  rw [← h.home]
  exact hwalk.within h

theorem Within.drop (h : Within d₀ d) (hne : place ≠ []) : Within d₀ (d.drop place) := by
  refine ⟨h.home, fun {k e} hk => ?_⟩
  rw [get?_drop d place k hne] at hk
  split at hk
  · cases hk
  · exact h.entry hk

theorem Remains.drop (h : Remains d₀ l content d) (hne : place ≠ []) (hother : place ≠ l) :
    Remains d₀ l content (d.drop place) := by
  refine ⟨h.within.drop hne, ?_⟩
  rw [get?_drop d place l hne, if_neg (Ne.symm hother)]
  exact h.there

/-- A file is removed by its name in the directory that it lies in, and the path comes out at it. -/
theorem Remains.removeFile (h : Remains d₀ l content d) (hn : IsEntryName name)
    (hno : ∀ place, Leads d q place → l = place ++ [name] → d.find (q.join name) ≠ .ok l)
    (hcall : d.removeFile (q.join name) = .ok d') : Remains d₀ l content d' := by
  obtain ⟨place, hq, rfl⟩ := removeFile_join hn hcall
  obtain ⟨hcheck, hlen, -, -⟩ := (hq.removeFile_child hn).mp hcall
  apply h.drop (by simp)
  intro heq
  refine hno place hq heq.symm ?_
  rw [hq.find_child hn (unlinked_of_file (heq ▸ h.there)), hcheck, heq, h.there]
  simp [Except.bind, Nat.not_lt.mpr hlen]

theorem Remains.removeDirectory (h : Remains d₀ l content d) (hcall : d.removeDirectory p = .ok d') :
    Remains d₀ l content d' := by
  obtain ⟨directory, name, hdir, rfl⟩ := removeDirectory_ok hcall
  apply h.drop (by simp)
  rintro rfl
  rw [h.there] at hdir
  cases hdir

/-! ## Where a path may come out -/

/-- The second tree has no links but those of the first. -/
structure LinksWithin (d₀ d : Disk) : Prop where
  home : d.home = d₀.home
  link : ∀ {l : Location} {target : String}, d.get? l = some (.link target) →
    d₀.get? l = some (.link target)

/-- The path may come out at the location by way of links of the tree, whatever directories are
made and whatever is removed. -/
def MayFind (d : Disk) (p : Path) (l : Location) : Prop := ∃ d', LinksWithin d d' ∧ d'.find p = .ok l

theorem Within.linksWithin (h : Within d₀ d) : LinksWithin d₀ d := ⟨h.home, fun hl => h.entry hl⟩

/-- Steps without a step up, where no link is on the way, end where they say. -/
theorem Reaches.eq_spelled (hunlinked : ∀ k, Unlinked d k) (hup : ".." ∉ p.moves)
    (h : Reaches d (linkLimit + 1) (startOf d.home p.text) p.segments l) : l = d.spelled p := by
  cases h with
  | direct hadv =>
    obtain ⟨hend, -⟩ := advances_straight hadv trivial hup (fun k _ => hunlinked k) fun _ _ => rfl
    cases hend
    rfl
  | through hadv _ =>
    obtain ⟨hend, -⟩ := advances_straight hadv trivial hup (fun k _ => hunlinked k) fun _ _ => rfl
    cases hend

theorem Leads.eq_spelled (hlinks : d.noLinks = true) (hup : ".." ∉ p.moves) (h : Leads d p place) :
    place = d.spelled p :=
  h.walk.eq_spelled (unlinked_of_noLinks hlinks) hup

theorem mayFind_spelled (hlinks : d₀.noLinks = true) (hup : ".." ∉ p.moves)
    (h : MayFind d₀ p l) : l = d₀.spelled p := by
  obtain ⟨d, hwithin, hfind⟩ := h
  have hunlinked : ∀ k, Unlinked d k := fun k target ht =>
    unlinked_of_noLinks hlinks k target (hwithin.link ht)
  rw [spelled, ← hwithin.home]
  exact (find_eq_ok.mp hfind).2.eq_spelled hunlinked hup

theorem spelled_join (d : Disk) (p : Path) (hn : IsEntryName name) :
    d.spelled (p.join name) = d.spelled p ++ [name] := by
  rw [spelled, spelled, Path.moves_join p hn, startOf_congr (Path.isAbsolute_join p hn),
    List.append_assoc]

theorem noUp_join (hup : ".." ∉ p.moves) (hn : IsEntryName name) :
    ".." ∉ (p.join name).moves := by
  rw [Path.moves_join p hn, List.mem_append, List.mem_singleton, not_or]
  exact ⟨hup, fun he => hn.notUp he.symm⟩

theorem mayFind_join (hlinks : d.noLinks = true) (hup : ".." ∉ p.moves) (hn : IsEntryName name)
    (h : MayFind d (p.join name) l) : l = d.spelled p ++ [name] := by
  rw [← spelled_join d p hn]
  exact mayFind_spelled hlinks (noUp_join hup hn) h

/-! ## Writing -/

/-- The second tree has no new links, and the file of the first is still in it. -/
structure Intact (d₀ : Disk) (l : Location) (content : ByteArray) (d : Disk) : Prop where
  links : LinksWithin d₀ d
  there : d.get? l = some (.file content)

theorem Remains.intact (h : Remains d₀ l content d) : Intact d₀ l content d :=
  ⟨h.within.linksWithin, h.there⟩

theorem Intact.put (h : Intact d₀ l content d) (hne : place ≠ []) (hother : place ≠ l) {e : Entry}
    (he : ∀ target, e ≠ .link target) : Intact d₀ l content (d.put place e) := by
  have hget := fun k => get?_put d place k e hne
  refine ⟨⟨h.links.home, fun {k target} hk => ?_⟩, ?_⟩
  · rw [hget] at hk
    split at hk
    · cases hk
      exact absurd rfl (he target)
    · exact h.links.link hk
  · rw [hget, if_neg (Ne.symm hother)]
    exact h.there

/-- A new entry stands where nothing was. -/
theorem Intact.put_free (h : Intact d₀ l content d) (hne : place ≠ [])
    (hfree : d.get? place = none) {e : Entry} (he : ∀ target, e ≠ .link target) :
    Intact d₀ l content (d.put place e) ∧ place ≠ l := by
  have hother : place ≠ l := by
    rintro rfl
    rw [h.there] at hfree
    cases hfree
  exact ⟨h.put hne hother he, hother⟩

theorem Intact.makeDirectory (h : Intact d₀ l content d) (hcall : d.makeDirectory p = .ok d') :
    Intact d₀ l content d' := by
  obtain ⟨directory, name, -, hfree, rfl⟩ := place_ok hcall
  exact (h.put_free (by simp) hfree (by simp)).1

theorem Intact.makeChain {paths : List Path} (h : Intact d₀ l content d)
    {result : Except SystemError Unit} (hcall : makeChain paths d = (result, d')) :
    Intact d₀ l content d' :=
  makeChain_keeps (fun _ _ _ _ he hm => he.makeDirectory hm) h hcall

theorem Intact.provide (h : Intact d₀ l content d) (p : Path) :
    Intact d₀ l content (Files.provide d p).2 := by
  unfold Files.provide
  split
  · exact h
  · rcases hm : d.makeDirectories p with ⟨_ | _, d'⟩ <;> exact h.makeChain hm

/-- A walk finds a last name missing where nothing is. -/
theorem Advances.free_of_vacant {steps : List String} {progress : Progress}
    (h : Advances d place steps progress) {directory : Location} {slash : Bool}
    (hp : progress = .ended (.vacant directory name slash)) :
    d.get? (directory ++ [name]) = none := by
  induction h with
  | stop => cases hp
  | idle _ _ _ ih => exact ih hp
  | up _ _ ih => exact ih hp
  | enter _ _ _ _ _ _ _ ih => exact ih hp
  | link => cases hp
  | vacant _ _ _ _ hget _ =>
    cases hp
    exact hget

theorem free_of_follow {n : Nat} {steps : List String} {directory : Location} {slash : Bool}
    (h : d.follow n place steps = .ok (.vacant directory name slash)) :
    d.get? (directory ++ [name]) = none := by
  induction n generalizing place steps with
  | zero => cases h
  | succ n ih =>
    rw [follow_succ] at h
    cases ha : d.advance place steps with
    | error e => rw [ha] at h; cases h
    | ok progress =>
      rw [ha] at h
      cases progress with
      | ended arrival =>
        cases h
        exact (advances_iff.mp ha).free_of_vacant rfl
      | link => exact ih h

/-- A file that is opened is empty then, and it was made where nothing was or was there before. -/
theorem create_cases (h : d.create p = .ok (place, d')) :
    d' = d.put place (.file .empty) ∧
      ((∃ directory name, place = directory ++ [name] ∧ d.get? place = none ∧
          d.resolve p = .ok (.vacant directory name false)) ∨
        (d.find p = .ok place ∧ ∃ old, d.get? place = some (.file old))) := by
  unfold Disk.create at h
  split at h
  · split at h <;> cases h
  · cases hr : d.resolve p with
    | error e => rw [hr] at h; cases h
    | ok found =>
      rw [hr] at h
      simp only [bind, Except.bind] at h
      split at h
      · cases h
      · rename_i directory name
        cases h
        refine ⟨rfl, Or.inl ⟨directory, name, rfl, ?_, rfl⟩⟩
        unfold resolve at hr
        cases hc : checkPath p with
        | error e => rw [hc] at hr; cases hr
        | ok _ =>
          rw [hc] at hr
          exact free_of_follow hr
      · rename_i goal
        split at h
        · rename_i old hold
          cases h
          refine ⟨rfl, Or.inr ⟨?_, old, hold⟩⟩
          unfold find
          rw [hr]
          rfl
        · cases h

/-- Opening a file leaves another alone if the path may not come out at that. -/
theorem Intact.create (h : Intact d₀ l content d) (hno : ¬ MayFind d₀ p l)
    (hcall : d.create p = .ok (place, d')) : Intact d₀ l content d' ∧ place ≠ l := by
  obtain ⟨rfl, ⟨directory, name, rfl, hfree, -⟩ | ⟨hfind, old, hold⟩⟩ := create_cases hcall
  · exact h.put_free (by simp) hfree (by simp)
  · have hother : place ≠ l := by
      rintro rfl
      exact hno ⟨d, h.links, hfind⟩
    refine ⟨h.put ?_ hother (by simp), hother⟩
    rintro rfl
    cases hold

/-- A file is opened, if it is, after a directory has been provided at most. -/
theorem openFile_cases {result : Except Failure Location} (h : Files.openFile d p = (result, d')) :
    ∃ housed, (housed = d ∨ ∃ q, housed = (Files.provide d q).2) ∧
      ((∃ f, result = .error f ∧ d' = housed) ∨
        ∃ place, result = .ok place ∧ housed.create p = .ok (place, d')) := by
  unfold Files.openFile at h
  split at h
  · rename_i f housed hfirst
    cases h
    refine ⟨d', ?_, Or.inl ⟨f, rfl, rfl⟩⟩
    split at hfirst
    · rename_i q _
      exact Or.inr ⟨q, by rw [hfirst]⟩
    · cases hfirst
  · rename_i housed hfirst
    refine ⟨housed, ?_, ?_⟩
    · split at hfirst
      · rename_i q _
        exact Or.inr ⟨q, by rw [hfirst]⟩
      · cases hfirst
        exact Or.inl rfl
    · split at h
      · rename_i place after hcreate
        cases h
        exact Or.inr ⟨place, rfl, hcreate⟩
      · cases h
        exact Or.inl ⟨_, rfl, rfl⟩

theorem Intact.openFile (h : Intact d₀ l content d) (hno : ¬ MayFind d₀ p l)
    {result : Except Failure Location} (hcall : Files.openFile d p = (result, d')) :
    Intact d₀ l content d' ∧ ∀ place, result = .ok place → place ≠ l := by
  obtain ⟨housed, hprovided, hopened⟩ := openFile_cases hcall
  have hhoused : Intact d₀ l content housed := by
    rcases hprovided with rfl | ⟨q, rfl⟩
    · exact h
    · exact h.provide q
  rcases hopened with ⟨f, rfl, rfl⟩ | ⟨found, rfl, hcreate⟩
  · exact ⟨hhoused, fun _ he => by cases he⟩
  · obtain ⟨hafter, hother⟩ := hhoused.create hno hcreate
    refine ⟨hafter, fun place he => ?_⟩
    cases he
    exact hother

theorem Intact.write (h : Intact d₀ l content d) (hother : place ≠ l) (written : ByteArray) :
    Intact d₀ l content (d.write place written) := by
  unfold Disk.write
  split
  · rename_i old hold
    refine h.put ?_ hother (by simp)
    rintro rfl
    cases hold
  · exact h

end StubListing.Disk
