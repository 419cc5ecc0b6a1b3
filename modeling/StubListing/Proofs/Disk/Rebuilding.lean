import StubListing.Proofs.Disk.Lasting
/-!
# Trees that are cut down and built up again

Removing files, links to files and empty directories, and making directories and files anew, does not
send a path to another directory than before: the links that are still there are those from before, and
a link that leads to a file was on the way to no directory. So where a path leads to a directory both
before and after, it is the same directory.
-/
namespace StubListing.Disk
open StubListing.Path (IsEntryName isIdle)

variable {d d' base : Disk} {root p : Path} {place goal l : Location} {name : String}

/-! ## The way to a directory -/

/-- Steps in two parts are made one part after the other, unless a link is met in the first. -/
theorem Advances.split {front more : List String} {q : Progress}
    (h : Advances d place (front ++ more) q) (hq : Arrives q) :
    (∃ mid, Advances d place front (.ended (.reached mid)) ∧ Advances d mid more q) ∨
      ∃ directory target rest, Advances d place front (.link directory target rest) ∧
        q = .link directory target (rest ++ more) := by
  induction front generalizing place with
  | nil => exact Or.inl ⟨place, .stop place, h⟩
  | cons step front ih =>
    cases h with
    | idle hdir hidle tail =>
      rcases ih tail with ⟨mid, hfront, hmore⟩ | ⟨directory, target, rest, hfront, rfl⟩
      · exact Or.inl ⟨mid, .idle hdir hidle hfront, hmore⟩
      · exact Or.inr ⟨directory, target, rest, .idle hdir hidle hfront, rfl⟩
    | up hdir tail =>
      rcases ih tail with ⟨mid, hfront, hmore⟩ | ⟨directory, target, rest, hfront, rfl⟩
      · exact Or.inl ⟨mid, .up hdir hfront, hmore⟩
      · exact Or.inr ⟨directory, target, rest, .up hdir hfront, rfl⟩
    | enter hdir hidle hup hlen hget hlink tail =>
      rcases ih tail with ⟨mid, hfront, hmore⟩ | ⟨directory, target, rest, hfront, rfl⟩
      · exact Or.inl ⟨mid, .enter hdir hidle hup hlen hget hlink hfront, hmore⟩
      · exact Or.inr ⟨directory, target, rest, .enter hdir hidle hup hlen hget hlink hfront, rfl⟩
    | link hdir hidle hup hlen hget =>
      exact Or.inr ⟨_, _, front, .link hdir hidle hup hlen hget, rfl⟩
    | vacant => exact False.elim hq

/-- Steps are made from a directory. -/
theorem Advances.directory_of_step {step : String} {rest : List String} {q : Progress}
    (h : Advances d place (step :: rest) q) : d.get? place = some .directory := by
  cases h with
  | idle hdir => exact hdir
  | up hdir => exact hdir
  | enter hdir => exact hdir
  | link hdir => exact hdir
  | vacant hdir => exact hdir

/-- Before its last step, a walk that arrives is in a directory. -/
theorem Reaches.split {n : Nat} {front : List String} {step : String}
    (h : Reaches d n place (front ++ [step]) goal) :
    ∃ mid, Reaches d n place front mid ∧ d.get? mid = some .directory := by
  generalize hsteps : front ++ [step] = steps at h
  induction h generalizing front with
  | direct h =>
    rw [← hsteps] at h
    rcases h.split trivial with ⟨mid, hfront, hmore⟩ | ⟨directory, target, rest, -, hlink⟩
    · exact ⟨mid, .direct hfront, hmore.directory_of_step⟩
    · cases hlink
  | through h _ ih =>
    rw [← hsteps] at h
    rcases h.split trivial with ⟨mid, hfront, hmore⟩ | ⟨directory, target, rest, hfront, hlink⟩
    · -- the link is the last step itself
      cases hmore with
      | idle _ _ tail => cases tail
      | up _ tail => cases tail
      | enter _ _ _ _ _ _ tail => cases tail
      | link hdir => exact ⟨_, .direct hfront, hdir⟩
    · cases hlink
      obtain ⟨mid, hmid, hdir⟩ := ih (List.append_assoc _ _ [step])
      exact ⟨mid, .through hfront hmid, hdir⟩

/-- A walk to something in a directory goes by way of the directory. -/
theorem leads_of_reaches_join (hn : IsEntryName name)
    (h : Reaches d (linkLimit + 1) (startOf d.home (root.join name).text) (root.join name).segments goal) :
    ∃ place, Leads d root place := by
  obtain ⟨front, hjoin, hfront⟩ := Path.segments_join_moves root hn
  rw [hjoin, startOf_congr (Path.isAbsolute_join root hn)] at h
  obtain ⟨mid, hmid, hdir⟩ := h.split
  exact ⟨mid, hdir, hmid.congr hdir hfront⟩

theorem leads_of_find_join (hn : IsEntryName name) (h : d.find (root.join name) = .ok goal) :
    ∃ place, Leads d root place :=
  leads_of_reaches_join hn (find_eq_ok.mp h).2

/-- A path leads to one directory. -/
theorem Leads.unique {place' : Location} (h : Leads d p place) (h' : Leads d p place') :
    place = place' := by
  have hfound := reaches_iff.mpr h.walk
  rw [reaches_iff.mpr h'.walk] at hfound
  cases hfound
  rfl

/-- What is in a directory, and no link, is led to by its name only. -/
theorem Leads.child_eq {place' : Location} (h : Leads d root place) (hn : IsEntryName name)
    (hu : Unlinked d (place ++ [name])) (h' : Leads d (root.join name) place') :
    place' = place ++ [name] := by
  obtain ⟨m, hm⟩ := h.walk_child hn
  have hwalk : d.walk (startOf d.home (root.join name).text) (root.join name).segments =
      .ok (.reached place') := reaches_iff.mpr h'.walk
  rw [hm, follow_name h.directory hn hu, arrival] at hwalk
  split at hwalk
  · cases hwalk
  · split at hwalk <;> cases hwalk
    rfl

theorem Leads.find_child_eq (h : Leads d root place) (hn : IsEntryName name)
    (hu : Unlinked d (place ++ [name])) (hfind : d.find (root.join name) = .ok goal) :
    goal = place ++ [name] := by
  rw [h.find_child hn hu] at hfind
  cases hcheck : checkPath (root.join name) with
  | error e =>
    rw [hcheck] at hfind
    cases hfind
  | ok _ =>
    rw [hcheck] at hfind
    simp only [Except.bind] at hfind
    split at hfind
    · cases hfind
    · split at hfind <;> cases hfind
      rfl

theorem Leads.within (hw : Within base d) (h : Leads d p place) : Leads base p place := by
  refine ⟨hw.entry h.directory, ?_⟩
  rw [← hw.home]
  exact h.walk.within hw

/-! ## Links that lead to files -/

theorem Reaches.mono {n m : Nat} {steps : List String} (h : Reaches d n place steps goal)
    (hle : n ≤ m) : Reaches d m place steps goal := by
  induction h generalizing m with
  | direct h =>
    obtain ⟨m, rfl⟩ := Nat.exists_eq_succ_of_ne_zero (by omega : m ≠ 0)
    exact .direct h
  | through h _ ih =>
    obtain ⟨m, rfl⟩ := Nat.exists_eq_succ_of_ne_zero (by omega : m ≠ 0)
    exact .through h (ih (Nat.le_of_succ_le_succ hle))

/-- No walk goes on from a file. -/
theorem follow_file {n : Nat} {steps : List String} {content : ByteArray}
    (hfile : d.get? place = some (.file content))
    (h : d.follow (n + 1) place steps = .ok (.reached goal)) : goal = place := by
  rw [follow_succ] at h
  cases steps with
  | nil =>
    cases h
    rfl
  | cons step rest =>
    cases ha : d.advance place (step :: rest) with
    | error e =>
      rw [ha] at h
      cases h
    | ok q =>
      rw [(advances_iff.mp ha).directory_of_step] at hfile
      cases hfile

/-- The last step to the location ends in a file, be it the file there or one that a link leads to. -/
def Spent (d : Disk) (l : Location) : Prop :=
  ∃ directory name n goal content, l = directory ++ [name] ∧ Reaches d n directory [name] goal ∧
    d.get? goal = some (.file content)

/-- A link that leads to a file is on the way to no directory. -/
theorem Spent.not_reaches {target : String} {rest : List String} {directory : Location} {n : Nat}
    (h : Spent d (directory ++ [name])) (hstep : Advances d directory [name] (.link directory target []))
    (hgoal : d.get? goal = some .directory) :
    ¬ Reaches d n (startOf directory target) (Path.segmentsOf target ++ rest) goal := by
  intro hreach
  obtain ⟨directory', name', m, found, content, heq, hfound, hfile⟩ := h
  obtain ⟨rfl, hname⟩ := List.append_inj' heq rfl
  obtain rfl := List.singleton_inj.mp hname
  cases hfound with
  | direct hadv =>
    have hsame := hadv.advance_eq
    rw [hstep.advance_eq] at hsame
    cases hsame
  | @through m _ _ _ _ _ _ hadv htail =>
    have hsame := hadv.advance_eq
    rw [hstep.advance_eq] at hsame
    cases hsame
    rw [List.append_nil] at htail
    obtain ⟨k, hk⟩ := (htail.mono (Nat.le_max_right n m)).follow_append
    have hwalk := reaches_iff.mpr (hreach.mono (Nat.le_max_left n m))
    rw [hk rest] at hwalk
    rw [follow_file hfile hwalk, hfile] at hgoal
    cases hgoal

/-- What is found at the end of a path makes the last step to it one that ends there. -/
theorem Leads.spent (h : Leads d root place) (hn : IsEntryName name) {content : ByteArray}
    (hfind : d.find (root.join name) = .ok goal) (hfile : d.get? goal = some (.file content)) :
    Spent d (place ++ [name]) := by
  obtain ⟨m, hm⟩ := h.walk_child hn
  have hwalk : d.walk (startOf d.home (root.join name).text) (root.join name).segments =
      .ok (.reached goal) := reaches_iff.mpr (find_eq_ok.mp hfind).2
  rw [hm] at hwalk
  exact ⟨place, name, m + 1, goal, content, rfl, reaches_iff.mp hwalk, hfile⟩

theorem Spent.within (hw : Within base d) (h : Spent d l) : Spent base l := by
  obtain ⟨directory, name, n, goal, content, heq, hreach, hfile⟩ := h
  exact ⟨directory, name, n, goal, content, heq, hreach.within hw, hw.entry hfile⟩

/-! ## The same directory again -/

/-- The second tree has no links but those of the first, and has lost none of them but such as led to
files. -/
structure Rebuilt (base d : Disk) : Prop extends LinksWithin base d where
  kept : ∀ {l : Location} {target : String}, base.get? l = some (.link target) →
    d.get? l = some (.link target) ∨ Spent base l

/-- The same steps in both trees come to the same end, if not to a link that is no longer there. -/
theorem Rebuilt.advances_eq (hr : Rebuilt base d) {steps : List String} {q q' : Progress}
    (h : Advances base place steps q) (hq : Arrives q) (h' : Advances d place steps q')
    (hq' : Arrives q') :
    q = q' ∨ ∃ directory name target rest, q = .link directory target rest ∧
      Advances base directory [name] (.link directory target []) ∧ Spent base (directory ++ [name]) := by
  induction h with
  | stop place =>
    cases h'
    exact Or.inl rfl
  | idle hdir hidle _ ih =>
    cases h' with
    | idle _ _ tail => exact ih hq tail
    | up => exact absurd hidle (by decide)
    | enter _ hidle' => simp [hidle] at hidle'
    | link _ hidle' => simp [hidle] at hidle'
    | vacant => exact False.elim hq'
  | up hdir _ ih =>
    cases h' with
    | idle _ hidle => exact absurd hidle (by decide)
    | up _ tail => exact ih hq tail
    | enter _ _ hup => exact absurd rfl hup
    | link _ _ hup => exact absurd rfl hup
    | vacant => exact False.elim hq'
  | enter hdir hidle hup hlen hget hlink _ ih =>
    cases h' with
    | idle _ hidle' => simp [hidle] at hidle'
    | up => exact absurd rfl hup
    | enter _ _ _ _ _ _ tail => exact ih hq tail
    | link _ _ _ _ hget' =>
      rw [hr.link hget'] at hget
      cases hget
      exact absurd rfl (hlink _)
    | vacant => exact False.elim hq'
  | @link place step target rest hdir hidle hup hlen hget =>
    cases h' with
    | idle _ hidle' => simp [hidle] at hidle'
    | up => exact absurd rfl hup
    | enter _ _ _ _ hget' hlink' _ =>
      rcases hr.kept hget with hstill | hspent
      · rw [hstill] at hget'
        cases hget'
        exact absurd rfl (hlink' _)
      · exact Or.inr ⟨place, step, target, rest, rfl, .link hdir hidle hup hlen hget, hspent⟩
    | link _ _ _ _ hget' =>
      rw [hr.link hget'] at hget
      cases hget
      exact Or.inl rfl
    | vacant => exact False.elim hq'
  | vacant => exact False.elim hq

theorem Rebuilt.reaches_eq (hr : Rebuilt base d) {n m : Nat} {steps : List String} {goal' : Location}
    (h : Reaches base n place steps goal) (hgoal : base.get? goal = some .directory)
    (h' : Reaches d m place steps goal') : goal = goal' := by
  induction h generalizing m with
  | direct hadv =>
    cases h' with
    | direct hadv' =>
      rcases hr.advances_eq hadv trivial hadv' trivial with heq | ⟨_, _, _, _, heq, -⟩
      · cases heq
        rfl
      · cases heq
    | through hadv' _ =>
      rcases hr.advances_eq hadv trivial hadv' trivial with heq | ⟨_, _, _, _, heq, -⟩ <;> cases heq
  | through hadv tail ih =>
    cases h' with
    | direct hadv' =>
      rcases hr.advances_eq hadv trivial hadv' trivial with heq | ⟨_, _, _, _, heq, hstep, hspent⟩
      · cases heq
      · cases heq
        exact absurd tail (hspent.not_reaches hstep hgoal)
    | through hadv' tail' =>
      rcases hr.advances_eq hadv trivial hadv' trivial with heq | ⟨_, _, _, _, heq, hstep, hspent⟩
      · cases heq
        exact ih hgoal tail'
      · cases heq
        exact absurd tail (hspent.not_reaches hstep hgoal)

/-- Where a path leads to a directory in both trees, it is the same one. -/
theorem Rebuilt.leads_eq {place' : Location} (hr : Rebuilt base d) (h : Leads base p place)
    (h' : Leads d p place') : place = place' := by
  have hwalk := h'.walk
  rw [hr.home] at hwalk
  exact hr.reaches_eq h.walk h.directory hwalk

/-! ## Cutting down and building up -/

theorem Rebuilt.refl (d : Disk) : Rebuilt d d := ⟨(Within.refl d).linksWithin, fun hl => Or.inl hl⟩

/-- What is taken away may be anything but a link on the way to a directory. -/
theorem Rebuilt.drop (h : Rebuilt base d) (hne : place ≠ [])
    (hplace : ∀ target, d.get? place = some (.link target) → Spent base place) :
    Rebuilt base (d.drop place) := by
  have hget := fun k => get?_drop d place k hne
  refine ⟨⟨h.home, fun {k target} hk => ?_⟩, fun {k target} hk => ?_⟩
  · rw [hget] at hk
    split at hk
    · cases hk
    · exact h.link hk
  · rcases h.kept hk with hstill | hspent
    · by_cases heq : k = place
      · exact Or.inr (heq ▸ hplace target (heq ▸ hstill))
      · exact Or.inl (by rw [hget, if_neg heq, hstill])
    · exact Or.inr hspent

theorem Rebuilt.put (h : Rebuilt base d) (hne : place ≠ []) (hplace : Unlinked d place) {e : Entry}
    (he : ∀ target, e ≠ .link target) : Rebuilt base (d.put place e) := by
  have hget := fun k => get?_put d place k e hne
  refine ⟨⟨h.home, fun {k target} hk => ?_⟩, fun {k target} hk => ?_⟩
  · rw [hget] at hk
    split at hk
    · cases hk
      exact absurd rfl (he target)
    · exact h.link hk
  · rcases h.kept hk with hstill | hspent
    · refine Or.inl ?_
      rw [hget, if_neg, hstill]
      rintro rfl
      exact hplace target hstill
    · exact Or.inr hspent

theorem Rebuilt.makeDirectory (h : Rebuilt base d) (hcall : d.makeDirectory p = .ok d') :
    Rebuilt base d' := by
  obtain ⟨directory, name, -, hfree, rfl⟩ := place_ok hcall
  exact h.put (by simp) (unlinked_of_none hfree) (by simp)

theorem Rebuilt.provide (h : Rebuilt base d) (p : Path) : Rebuilt base (Files.provide d p).2 := by
  unfold Files.provide
  split
  · exact h
  · rcases hm : d.makeDirectories p with ⟨_ | _, d'⟩ <;>
      exact makeChain_keeps (fun _ _ _ _ he hmake => he.makeDirectory hmake) h hm

theorem Rebuilt.create (h : Rebuilt base d) (hcall : d.create p = .ok (place, d')) :
    Rebuilt base d' := by
  obtain ⟨rfl, ⟨directory, name, rfl, hfree, -⟩ | ⟨-, old, hold⟩⟩ := create_cases hcall
  · exact h.put (by simp) (unlinked_of_none hfree) (by simp)
  · refine h.put ?_ (unlinked_of_file hold) (by simp)
    rintro rfl
    cases hold

theorem Rebuilt.openFile (h : Rebuilt base d) {result : Except Failure Location}
    (hcall : Files.openFile d p = (result, d')) : Rebuilt base d' := by
  obtain ⟨housed, hprovided, hopened⟩ := openFile_cases hcall
  have hhoused : Rebuilt base housed := by
    rcases hprovided with rfl | ⟨q, rfl⟩
    · exact h
    · exact h.provide q
  rcases hopened with ⟨f, -, rfl⟩ | ⟨found, -, hcreate⟩
  · exact hhoused
  · exact hhoused.create hcreate

theorem Rebuilt.write (h : Rebuilt base d) (place : Location) (content : ByteArray) :
    Rebuilt base (d.write place content) := by
  unfold Disk.write
  split
  · rename_i old hold
    refine h.put ?_ (unlinked_of_file hold) (by simp)
    rintro rfl
    cases hold
  · exact h

/-! ## What becomes of one location -/

/-- At the location there is what was there before, or a directory where nothing was. -/
def Furnished (l : Location) (d d' : Disk) : Prop :=
  d'.get? l = d.get? l ∨ d.get? l = none ∧ d'.get? l = some .directory

theorem Furnished.trans {d'' : Disk} (h : Furnished l d d') (h' : Furnished l d' d'') :
    Furnished l d d'' := by
  rcases h with h | ⟨hfree, hdir⟩
  · rwa [Furnished, h] at h'
  · rcases h' with h' | ⟨hfree', -⟩
    · exact Or.inr ⟨hfree, h'.trans hdir⟩
    · rw [hdir] at hfree'
      cases hfree'

theorem Furnished.file {content : ByteArray} (h : Furnished l d d')
    (hfile : d.get? l = some (.file content)) : d'.get? l = some (.file content) := by
  rcases h with h | ⟨hfree, -⟩
  · rw [h, hfile]
  · rw [hfile] at hfree
    cases hfree

/-- What is there and no directory was there. -/
theorem Furnished.entry {e : Entry} (h : Furnished l d d') (he : d'.get? l = some e)
    (hne : e ≠ .directory) : d.get? l = some e := by
  rcases h with h | ⟨-, hdir⟩
  · rw [← h, he]
  · rw [he] at hdir
    exact absurd (Option.some.inj hdir) hne

theorem furnished_put (hne : place ≠ []) (hother : l ≠ place) (e : Entry) :
    Furnished l d (d.put place e) :=
  Or.inl (by rw [get?_put _ _ _ _ hne, if_neg hother])

theorem furnished_makeDirectory (hcall : d.makeDirectory p = .ok d') : Furnished l d d' := by
  obtain ⟨directory, name, -, hfree, rfl⟩ := place_ok hcall
  by_cases heq : l = directory ++ [name]
  · exact Or.inr ⟨heq ▸ hfree, by rw [get?_put _ _ _ _ (by simp), if_pos heq]⟩
  · exact furnished_put (by simp) heq _

theorem furnished_provide (d : Disk) (p : Path) : Furnished l d (Files.provide d p).2 := by
  unfold Files.provide
  split
  · exact Or.inl rfl
  · rcases hm : d.makeDirectories p with ⟨_ | _, d'⟩ <;>
      exact makeChain_keeps (P := Furnished l d)
        (fun _ _ _ _ he hmake => he.trans (furnished_makeDirectory hmake)) (Or.inl rfl) hm

theorem furnished_write (hother : l ≠ place) (content : ByteArray) :
    Furnished l d (d.write place content) := by
  unfold Disk.write
  split
  · rename_i old hold
    refine furnished_put ?_ hother _
    rintro rfl
    cases hold
  · exact Or.inl rfl

/-- Opening a file changes no more at another location than that a directory may be made there. -/
theorem openFile_furnishes {result : Except Failure Location}
    (hcall : Files.openFile d p = (result, d')) :
    (Furnished l d d' ∧ ∀ opened, result = .ok opened → l ≠ opened) ∨
      result = .ok l ∧ d'.find p = .ok l := by
  obtain ⟨housed, hprovided, hopened⟩ := openFile_cases hcall
  have hhoused : Furnished l d housed := by
    rcases hprovided with rfl | ⟨q, rfl⟩
    · exact Or.inl rfl
    · exact furnished_provide d q
  rcases hopened with ⟨f, rfl, rfl⟩ | ⟨found, rfl, hcreate⟩
  · exact Or.inl ⟨hhoused, fun _ he => by cases he⟩
  · obtain ⟨hfind, hthere⟩ := find_of_create hcreate
    by_cases heq : l = found
    · exact Or.inr ⟨by rw [heq], by rw [heq, hfind]⟩
    · have hne : found ≠ [] := by
        rintro rfl
        cases hthere
      obtain ⟨rfl, -⟩ := create_cases hcreate
      refine Or.inl ⟨hhoused.trans (furnished_put hne heq _), fun _ he => ?_⟩
      cases he
      exact heq

end StubListing.Disk
