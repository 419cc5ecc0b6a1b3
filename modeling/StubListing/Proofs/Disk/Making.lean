import StubListing.Files
import StubListing.Proofs.Disk.Anchored
/-!
# Directories made with those above them

Making a directory and what is missing above it only adds directories. If the path did not lead to
a directory before and the making succeeds, the path leads to a directory that is new and empty,
however many links were on the way.
-/
namespace StubListing.Disk
open StubListing.Path (IsEntryName isIdle)

variable {d d' d'' : Disk} {p q root : Path} {place directory : Location} {name : String}

/-! ## Growing trees -/

/-- The second tree is the first with more directories. -/
structure Grows (d d' : Disk) : Prop where
  home : d'.home = d.home
  sound : d.Sound → d'.Sound
  old : ∀ {l : Location} {e : Entry}, d.get? l = some e → d'.get? l = some e
  new : ∀ {l : Location} {e : Entry}, d'.get? l = some e → d.get? l = some e ∨ e = .directory

theorem Grows.refl (d : Disk) : Grows d d := ⟨rfl, id, id, Or.inl⟩

theorem Grows.trans (h : Grows d d') (h' : Grows d' d'') : Grows d d'' := by
  refine ⟨h'.home.trans h.home, h'.sound ∘ h.sound, fun hl => h'.old (h.old hl), fun hl => ?_⟩
  rcases h'.new hl with hl | he
  · exact h.new hl
  · exact Or.inr he

theorem Grows.keeps (h : Grows d d') : Keeps d d' := ⟨h.home, h.old, h.old⟩

theorem Grows.get?_none (h : Grows d d') {l : Location} (hl : d'.get? l = none) : d.get? l = none := by
  cases hg : d.get? l with
  | none => rfl
  | some e =>
    rw [h.old hg] at hl
    cases hl

theorem grows_put (hdir : d.get? directory = some .directory) (hname : IsStorable name)
    (hfree : d.get? (directory ++ [name]) = none) :
    Grows d (d.put (directory ++ [name]) .directory) := by
  have hne : directory ++ [name] ≠ [] := by simp
  refine ⟨rfl, fun hd => hd.put hdir hname (fun _ => rfl), fun {l e} hl => ?_, fun {l e} hl => ?_⟩
  · rw [get?_put _ _ _ _ hne, if_neg]
    · exact hl
    · rintro rfl
      rw [hfree] at hl
      cases hl
  · rw [get?_put _ _ _ _ hne] at hl
    split at hl
    · cases hl
      exact Or.inr rfl
    · exact Or.inl hl

/-! ## Where a last name is looked for -/

theorem Advances.last_idle {steps : List String} {progress : Progress}
    (h : Advances d place steps progress) (hlast : steps.getLast? = some ".") :
    (∀ goal, progress = .ended (.reached goal) → d.get? goal = some .directory) ∧
      ∀ directory target rest, progress = .link directory target rest → rest.getLast? = some "." := by
  have hmore : ∀ {step : String} {rest : List String}, (step :: rest).getLast? = some "." →
      rest = [] ∧ step = "." ∨ rest.getLast? = some "." := by
    intro step rest hl
    cases rest with
    | nil => exact Or.inl ⟨rfl, by simpa using hl⟩
    | cons next more => exact Or.inr (by simpa [List.getLast?_cons_cons] using hl)
  induction h with
  | stop => simp at hlast
  | idle hdir _ tail ih =>
    rcases hmore hlast with ⟨rfl, -⟩ | hrest
    · cases tail
      refine ⟨fun goal hg => ?_, fun _ _ _ hg => (by cases hg)⟩
      cases hg
      exact hdir
    · exact ih hrest
  | up _ _ ih =>
    rcases hmore hlast with ⟨-, hup⟩ | hrest
    · exact absurd hup (by decide)
    · exact ih hrest
  | enter _ hidle _ _ _ _ _ ih =>
    rcases hmore hlast with ⟨-, rfl⟩ | hrest
    · exact absurd hidle (by decide)
    · exact ih hrest
  | link _ hidle =>
    rcases hmore hlast with ⟨-, rfl⟩ | hrest
    · exact absurd hidle (by decide)
    · refine ⟨fun _ hg => (by cases hg), fun _ _ _ hg => ?_⟩
      cases hg
      exact hrest
  | vacant => exact ⟨fun _ hg => (by cases hg), fun _ _ _ hg => (by cases hg)⟩

/-- A walk that ends with a dot ends in a directory. -/
theorem Reaches.directory_of_last {n : Nat} {steps : List String} {goal : Location}
    (h : Reaches d n place steps goal) (hlast : steps.getLast? = some ".") :
    d.get? goal = some .directory := by
  induction h with
  | direct h => exact (h.last_idle hlast).1 _ rfl
  | through h _ ih =>
    have hrest := (h.last_idle hlast).2 _ _ _ rfl
    refine ih ?_
    rw [List.getLast?_append, hrest]
    rfl

/-- What the parts of a path are when there is a place for its last name. -/
theorem locate_cases (h : d.locate p = .ok (some (directory, name))) :
    checkPath p = .ok () ∧ name.utf8ByteSize ≤ longestName ∧ name ≠ "." ∧ name ≠ ".." ∧
      (p.segments.filter (· ≠ "")).getLast? = some name ∧
      d.walk (startOf d.home p.text) ((p.segments.filter (· ≠ "")).dropLast ++ ["."]) =
        .ok (.reached directory) := by
  unfold locate at h
  cases hc : checkPath p with
  | error e => rw [hc] at h; cases h
  | ok _ =>
    rw [hc] at h
    simp only [bind, Except.bind] at h
    cases hlast : (p.segments.filter (· ≠ "")).getLast? with
    | none => rw [hlast] at h; cases h
    | some last =>
      rw [hlast] at h
      simp only at h
      cases hw : d.walk (startOf d.home p.text)
          ((p.segments.filter (· ≠ "")).dropLast ++ ["."]) with
      | error e => rw [hw] at h; cases h
      | ok found =>
        rw [hw] at h
        cases found with
        | vacant => cases h
        | reached goal =>
          simp only at h
          split at h
          · cases h
          · rename_i hdots
            split at h
            · cases h
            · rename_i hlen
              simp only [Except.ok.injEq, Option.some.injEq, Prod.mk.injEq] at h
              obtain ⟨rfl, rfl⟩ := h
              rw [not_or] at hdots
              exact ⟨rfl, Nat.not_lt.mp hlen, hdots.1, hdots.2, rfl, rfl⟩

/-- A place that was found for a last name lies in the directory that the path above leads to. -/
theorem locate_eq_some (h : d.locate p = .ok (some (directory, name))) :
    checkPath p = .ok () ∧ name.utf8ByteSize ≤ longestName ∧ IsEntryName name ∧
      ∃ front, p.moves = front ++ [name] ∧
        ∀ q : Path, q.moves = front → q.isAbsolute = p.isAbsolute → Leads d q directory := by
  obtain ⟨hcheck, hlen, hdot, hdots, hlast, hw⟩ := locate_cases h
  obtain ⟨hseg, hne⟩ := List.mem_filter.mp (List.mem_of_getLast? hlast)
  have hidle : isIdle name = false := not_idle_iff.mpr (by
    rintro (rfl | rfl)
    · simp at hne
    · exact hdot rfl)
  refine ⟨hcheck, hlen, ⟨Path.noSlash_of_mem_segments hseg, hidle, hdots⟩,
    live (p.segments.filter (· ≠ "")).dropLast, ?_, fun q hq ha => ?_⟩
  · show live p.segments = _
    rw [← filter_ne_empty_live, ← List.dropLast_append_getLast? name hlast, live_append,
      live_cons hidle]
    simp [live]
  · have hreach := reaches_iff.mp hw
    have hdir := hreach.directory_of_last (by simp)
    refine ⟨hdir, ?_⟩
    rw [startOf_congr ha]
    refine hreach.congr hdir ?_
    rw [live_append, live_cons_idle (by decide), show live [] = [] from rfl, List.append_nil]
    exact hq.symm

/-- What is new after a successful call is one directory, and the path leads to it. -/
theorem makeDirectory_new (h : d.makeDirectory p = .ok d') :
    Grows d d' ∧ ∃ place, place ≠ [] ∧ d.get? place = none ∧ d' = d.put place .directory ∧
      Leads d' p place := by
  obtain ⟨directory, name, hlocate, hfree, rfl⟩ := place_ok h
  obtain ⟨hcheck, hlen, hname, front, hmoves, hleads⟩ := locate_eq_some hlocate
  obtain ⟨q, _, habove⟩ := Path.parent?_of_moves hmoves
  have hroot := hleads q habove.moves_eq habove.absolute_eq
  have hstorable : IsStorable name := ⟨hname, hlen, noNull_of_moves hcheck (by simp [hmoves])⟩
  have hgrows := grows_put hroot.directory hstorable hfree
  have hthere : (d.put (directory ++ [name]) .directory).get? (directory ++ [name]) =
      some .directory := by rw [get?_put _ _ _ _ (by simp), if_pos rfl]
  refine ⟨hgrows, directory ++ [name], by simp, hfree, rfl, ?_⟩
  refine ((hroot.keeps hgrows.keeps).child hname hlen hthere).congr ?_ ?_
  · rw [Path.moves_join q hname, habove.moves_eq, hmoves]
  · rw [Path.isAbsolute_join q hname, habove.absolute_eq]

/-- In a sound tree the new directory is empty. -/
theorem makeDirectory_ok (hd : d.Sound) (h : d.makeDirectory p = .ok d') :
    Grows d d' ∧ ∃ place, d.get? place = none ∧ (∀ l, Inside place l → d'.get? l = none) ∧
      Leads d' p place := by
  obtain ⟨hgrows, place, hplace, hfree, rfl, hleads⟩ := makeDirectory_new h
  refine ⟨hgrows, place, hfree, fun l hl => ?_, hleads⟩
  have hne : l ≠ place := by
    rintro rfl
    exact not_inside_self _ hl
  rw [get?_put _ _ _ _ hplace, if_neg hne]
  exact hd.nothing_below (by rw [hfree]; simp) hl

/-! ## The chain of directories -/

/-- What making each directory of the chain keeps, making the chain keeps, however it ends. -/
theorem makeChain_keeps {P : Disk → Prop} {paths : List Path}
    (hstep : ∀ p ∈ paths, ∀ {e e' : Disk}, P e → e.makeDirectory p = .ok e' → P e')
    (hd : P d) {result : Except SystemError Unit} (h : makeChain paths d = (result, d')) : P d' := by
  induction paths generalizing d d' result with
  | nil => cases h; exact hd
  | cons p above ih =>
    have hmake : ∀ {e e' : Disk}, P e → e.makeDirectory p = .ok e' → P e' :=
      hstep p List.mem_cons_self
    have hchain : ∀ {e : Disk} {result : Except SystemError Unit},
        makeChain above d = (result, e) → P e :=
      ih (fun q hq => hstep q (List.mem_cons_of_mem _ hq)) hd
    rw [makeChain] at h
    split at h
    · cases h; exact hd
    · split at h
      · rename_i hm
        cases h
        exact hmake hd hm
      · split at h
        · rename_i habove
          cases h
          exact hchain habove
        · rename_i habove
          have hafter := hchain habove
          split at h
          · rename_i hm
            cases h
            exact hmake hafter hm
          · split at h <;> cases h <;> exact hafter
          · cases h; exact hafter
      · split at h <;> cases h <;> exact hd
      · cases h; exact hd

theorem grows_makeChain {paths : List Path} {result : Except SystemError Unit}
    (h : makeChain paths d = (result, d')) : Grows d d' :=
  makeChain_keeps (fun _ _ _ _ he hm => he.trans (makeDirectory_new hm).1) (Grows.refl d) h

/-- No directory is made for a path without moves. -/
theorem makeDirectory_idle (hp : p.moves = []) : d.makeDirectory p ≠ .ok d' := by
  intro h
  obtain ⟨directory, name, hlocate, -⟩ := place_ok h
  obtain ⟨-, -, -, front, hmoves, -⟩ := locate_eq_some hlocate
  rw [hp] at hmoves
  simp at hmoves

/-- For a path without moves nothing is made above it either. -/
theorem makeDirectories_of_no_moves (hp : p.moves = []) : (d.makeDirectories p).2 = d := by
  have hself : (d.secure p).2 = d :=
    (secure_cases rfl).resolve_left (makeDirectory_idle hp)
  by_cases hidle : p.components = [] ∨ p.parent? = none
  · rw [makeDirectories_idle hidle]
  · obtain ⟨hcomp, habove⟩ := not_or.mp hidle
    obtain ⟨q, hq⟩ := Option.ne_none_iff_exists'.mp habove
    refine makeDirectories_of_still hcomp hq ?_ hself
    obtain ⟨rfl, -⟩ := Path.parent?_of_no_moves hp hq
    rw [makeDirectories_idle (Or.inl (by decide))]

/-! ## Paths of ordinary names -/

/-- The path has neither single nor double dots. -/
def Ordinary (p : Path) : Prop := ∀ s ∈ p.segments, s ≠ "." ∧ s ≠ ".."

instance (p : Path) : Decidable (Ordinary p) :=
  inferInstanceAs (Decidable (∀ s ∈ p.segments, s ≠ "." ∧ s ≠ ".."))

theorem Ordinary.moves_eq (h : Ordinary p) : p.segments.filter (· ≠ "") = p.moves := by
  refine List.filter_congr fun s hs => ?_
  have hdot := (h s hs).1
  by_cases he : s = ""
  · subst he
    decide
  · simp [isIdle, he, hdot]

theorem Ordinary.eq_empty_of_no_moves (h : Ordinary p) (hmoves : p.moves = []) :
    ∀ s ∈ p.segments, s = "" := by
  intro s hs
  have hfilter := h.moves_eq
  rw [hmoves, List.filter_eq_nil_iff] at hfilter
  simpa using hfilter s hs

/-- A path that is spelt by slashes alone starts at the top. -/
theorem Ordinary.startOf_of_no_moves (h : Ordinary p) (hne : p.text ≠ "") (hmoves : p.moves = [])
    {home : Location} : startOf home p.text = [] := by
  have hempty := h.eq_empty_of_no_moves hmoves
  have habs : p.isAbsolute = true := by
    cases hs : p.segments with
    | nil => exact absurd hs (Path.segmentsOf_ne_nil _)
    | cons first rest =>
      have hfirst : first = "" := hempty first (by simp [hs])
      subst hfirst
      cases rest with
      | nil =>
        refine absurd ?_ hne
        rw [← Path.joined_segmentsOf p.text, show Path.segmentsOf p.text = [""] from hs]
        rfl
      | cons next more => exact (Path.isAbsolute_iff p).mpr ⟨next, more, hs⟩
  unfold startOf
  rw [if_pos (by simpa [Path.isAbsolute] using habs)]

theorem Ordinary.isEntryName (h : Ordinary p) (hm : name ∈ p.moves) : IsEntryName name := by
  obtain ⟨hseg, hidle⟩ := List.mem_filter.mp hm
  exact ⟨Path.noSlash_of_mem_segments hseg, by simpa using hidle, (h name hseg).2⟩

theorem Ordinary.above (h : Ordinary p) {front : List String} (hq : Path.IsAbove q p front) :
    Ordinary q := by
  intro s hs
  rcases hq.segments_sub s hs with rfl | hs
  · decide
  · exact h s hs

/-- Where the path above is a directory, the call for one more does not miss it. -/
theorem makeDirectory_ne_notFound (hp : Ordinary p) {front : List String}
    (hmoves : p.moves = front ++ [name]) (hq : Path.IsAbove q p front) (hdir : Leads d q directory) :
    d.makeDirectory p ≠ .error .notFound := by
  have hname : IsEntryName name := hp.isEntryName (by simp [hmoves])
  have hfront : live front = q.moves := by
    have hidle : ∀ s ∈ p.moves, isIdle s = false := fun s hs => (hp.isEntryName hs).notIdle
    rw [hq.moves_eq, live, List.filter_eq_self]
    intro s hs
    simp [hidle s (by simp [hmoves, hs])]
  have hlocate := hdir.locate_of_steps hname (hp.moves_eq.trans hmoves) hfront hq.absolute_eq.symm
  have htext : p.text ≠ "" := by
    intro he
    have hsegs : p.segments = [""] := by rw [Path.segments, he]; rfl
    rw [Path.moves, hsegs] at hmoves
    simp [isIdle] at hmoves
  unfold makeDirectory Disk.place
  rw [hlocate]
  cases hc : checkPath p with
  | error e =>
    rcases checkPath_error hc htext with rfl | rfl <;> simp [Except.bind, bind]
  | ok _ =>
    simp only [Except.bind, bind]
    by_cases hlen : longestName < name.utf8ByteSize
    · simp [hlen]
    · by_cases hg : (d.get? (directory ++ [name])).isSome = true <;> simp [hlen, hg]

/-- A name in an empty directory leads nowhere. -/
theorem not_leads_below (hq : Leads d q directory) (hname : IsEntryName name)
    (hfree : d.get? (directory ++ [name]) = none) (hmoves : p.moves = q.moves ++ [name])
    (ha : p.isAbsolute = q.isAbsolute) : ¬ Leads d p place := by
  intro hp
  have hjoin : Leads d (q.join name) place :=
    hp.congr (by rw [Path.moves_join q hname, hmoves]) (by rw [Path.isAbsolute_join q hname, ha])
  obtain ⟨m, hm⟩ := hq.walk_child hname
  have hwalk := reaches_iff.mpr hjoin.walk
  rw [← Disk.walk, hm, follow_name hq.directory hname (unlinked_of_none hfree), arrival, hfree] at hwalk
  split at hwalk <;> cases hwalk

/-- The ways to succeed for a path that is not yet a directory: it is made at once, or else missed, and
those above it are made first. -/
theorem makeDirectories_cases (hcomp : p.components ≠ []) (hq : p.parent? = some q)
    (hdir : d.isDirectory p = false) (h : d.makeDirectories p = (.ok (), d')) :
    d.makeDirectory p = .ok d' ∨
      d.makeDirectory p = .error .notFound ∧ ∃ dm, d.makeDirectories q = (.ok (), dm) ∧
        (dm.makeDirectory p = .ok d' ∨
          dm.makeDirectory p = .error .alreadyThere ∧ dm.isDirectory p = true) := by
  have hsecure : ∀ {e : Disk}, e.secure p = (.ok (), d') → e.makeDirectory p = .ok d' ∨
      e.makeDirectory p = .error .alreadyThere ∧ e.isDirectory p = true := by
    intro e he
    cases hm : e.makeDirectory p with
    | ok made =>
      rw [secure_of_ok hm] at he
      cases he
      exact Or.inl rfl
    | error err =>
      rw [secure_of_error hm] at he
      split at he
      · rename_i hthere
        exact Or.inr ⟨by rw [hthere.1], hthere.2⟩
      · cases he
  by_cases hmiss : d.makeDirectory p = .error .notFound
  · rw [makeDirectories_of_notFound hcomp hq hmiss] at h
    cases hchain : d.makeDirectories q with
    | mk result dm =>
      rw [hchain] at h
      cases result with
      | error e => cases h
      | ok _ => exact Or.inr ⟨hmiss, dm, rfl, hsecure h⟩
  · rw [makeDirectories_of_ne hcomp hq hmiss] at h
    refine Or.inl ((hsecure h).resolve_right fun ⟨_, hthere⟩ => ?_)
    rw [hdir] at hthere
    cases hthere

/-- If the path did not lead to a directory, it now leads to a new and empty one. -/
theorem makeDirectories_leads (p : Path) : ∀ {d d' : Disk}, Ordinary p → p.moves ≠ [] → d.Sound →
    d.isDirectory p = false → d.makeDirectories p = (.ok (), d') →
      ∃ place, d.get? place = none ∧ (∀ l, Inside place l → d'.get? l = none) ∧ Leads d' p place := by
  induction p using Path.by_parent with
  | step p ih =>
    intro d d' hp hmoves hd hdir h
    obtain ⟨front, name, hlast⟩ : ∃ front name, p.moves = front ++ [name] :=
      ⟨_, _, (List.dropLast_append_getLast hmoves).symm⟩
    obtain ⟨q, hq, habove⟩ := Path.parent?_of_moves hlast
    rcases makeDirectories_cases (Path.components_ne_nil hmoves) hq hdir h with
      hm | ⟨hmissing, dm, hchain, hm | ⟨hm, hpdir⟩⟩
    · exact (makeDirectory_ok hd hm).2
    · have hgrows := grows_makeChain hchain
      obtain ⟨-, place, hnone, hempty, hleads⟩ := makeDirectory_ok (hgrows.sound hd) hm
      exact ⟨place, hgrows.get?_none hnone, hempty, hleads⟩
    · -- nothing can stand in the directory above, which was missing and has just been made
      exfalso
      by_cases hfront : q.moves = []
      · have hsame := makeDirectories_of_no_moves (d := d) hfront
        rw [hchain] at hsame
        subst hsame
        rw [hm] at hmissing
        cases hmissing
      · have hqdir : d.isDirectory q = false := by
          rw [Bool.eq_false_iff]
          intro hqdir
          obtain ⟨-, _, hleads⟩ := leads_of_isDirectory hqdir
          exact makeDirectory_ne_notFound hp hlast habove hleads hmissing
        obtain ⟨place, -, hempty, hleads⟩ := ih q hq (hp.above habove) hfront hd hqdir hchain
        obtain ⟨-, goal, hgoal⟩ := leads_of_isDirectory hpdir
        exact not_leads_below hleads (hp.isEntryName (by simp [hlast])) (hempty _ (inside_child place name))
          (by rw [habove.moves_eq, hlast]) habove.absolute_eq.symm hgoal

/-- Providing a directory where there is none gives a new and empty one that the path is anchored
in. -/
theorem provide_new (hp : Ordinary p) (hmoves : p.moves ≠ []) (hd : d.Sound)
    (hdir : d.isDirectory p = false) (h : Files.provide d p = (.ok (), d')) :
    Grows d d' ∧ ∃ place, d.get? place = none ∧ (∀ l, Inside place l → d'.get? l = none) ∧
      Anchored d' p place := by
  rw [Files.provide, hdir, if_neg (by decide)] at h
  split at h
  · rename_i hmake
    cases h
    obtain ⟨place, hnone, hempty, hleads⟩ := makeDirectories_leads p hp hmoves hd hdir hmake
    exact ⟨grows_makeChain hmake, place, hnone, hempty, anchored_of_empty hleads hempty⟩
  · cases h

/-- For a path that the system does not take nothing is made. -/
theorem provide_unchecked {e : SystemError} (hmoves : p.moves ≠ []) (hcheck : checkPath p = .error e) :
    Files.provide d p = (.error ⟨["Failed to create directory " ++ p.text], .system e⟩, d) := by
  have hdir : d.isDirectory p = false := by
    rw [Bool.eq_false_iff]
    intro hdir
    rw [(leads_of_isDirectory hdir).1] at hcheck
    cases hcheck
  have hmake : d.makeDirectory p = .error e := by
    unfold makeDirectory Disk.place locate
    rw [hcheck]
    rfl
  have htext : p.text ≠ "" := by
    intro hempty
    apply hmoves
    rw [Path.moves, Path.segments, hempty]
    rfl
  obtain ⟨q, hq, -⟩ := Path.parent?_of_moves (List.dropLast_append_getLast hmoves).symm
  have hne : e ≠ .notFound ∧ e ≠ .alreadyThere := by
    rcases checkPath_error hcheck htext with rfl | rfl <;> decide
  have hchain : d.makeDirectories p = (.error e, d) := by
    rw [makeDirectories_of_ne (Path.components_ne_nil hmoves) hq (by simp [hmake, hne.1]),
      secure_of_error hmake, if_neg fun h => hne.2 h.1]
  rw [Files.provide, hdir, if_neg (by decide), hchain]

/-- A path that the system does not take is no directory afterwards either. -/
theorem checkPath_of_provide (hmoves : p.moves ≠ []) (h : Files.provide d p = (.ok (), d')) :
    checkPath p = .ok () := by
  cases hcheck : checkPath p with
  | ok _ => rfl
  | error e =>
    rw [provide_unchecked hmoves hcheck] at h
    cases h

/-- The top of the tree needs no making, however it is spelt. -/
theorem provide_top (hp : Ordinary p) (hmoves : p.moves = []) :
    Files.provide d p = (.ok (), d) := by
  have hempty := hp.eq_empty_of_no_moves hmoves
  obtain ⟨first, rest, hs⟩ := List.exists_cons_of_ne_nil (Path.segmentsOf_ne_nil p.text)
  have hs : p.segments = first :: rest := hs
  have hfirst : first = "" := hempty first (by simp [hs])
  have hrest : rest.reverse.dropWhile isIdle = [] := by
    apply List.dropWhile_eq_nil_iff.mpr
    intro s hm
    rw [hempty s (by rw [hs]; simpa using Or.inr (by simpa using hm))]
    rfl
  have hparent : p.parent? = none := by
    unfold Path.parent?
    rw [hs, Path.trimmed, hrest, hfirst]
    rfl
  rw [Files.provide, makeDirectories_idle (Or.inr hparent)]
  split <;> rfl

/-- A path without moves leads to the top of the tree. -/
theorem leads_top (hp : Ordinary p) (hne : p.text ≠ "") (hmoves : p.moves = []) : Leads d p [] := by
  refine ⟨get?_top d, ?_⟩
  rw [hp.startOf_of_no_moves hne hmoves]
  have hstart : Reaches d (linkLimit + 1) [] [] [] := .direct (.stop [])
  exact hstart.congr (get?_top d) hmoves.symm

end StubListing.Disk
