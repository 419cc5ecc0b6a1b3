import StubListing.Proofs.Disk.Rebuilding
/-!
# Roots that are missing

A directory in a root is made where the walk to the root ends. If the walk misses something, the
directories of the root's path are made first, as far as that goes. Making them once more changes
nothing, whether it went well or not. So what becomes of a directory in the root is the same whether
the root was founded before or is founded on the way; where founding the root does not help, no
directory in it can be had.
-/
namespace StubListing

namespace Disk
open StubListing.Path (IsEntryName)

variable {d d' : Disk} {root p q : Path} {place : Location} {name : String} {e : SystemError}

/-! ## Walking to a directory -/

/-- What comes of walking to the path as one walks to a directory. -/
def footing (d : Disk) (root : Path) : Except SystemError Location :=
  match d.walk (startOf d.home root.text) (root.segments.filter (· ≠ "") ++ ["."]) with
  | .error e => .error e
  | .ok (.vacant _ _ _) => .error .notFound
  | .ok (.reached place) => .ok place

theorem footing_eq_ok : d.footing root = .ok place ↔ Leads d root place := by
  have hlive : live (root.segments.filter (· ≠ "") ++ ["."]) = live root.segments := by
    rw [live_append, filter_ne_empty_live]
    simp [live, Path.isIdle]
  unfold footing
  constructor
  · intro h
    split at h
    · cases h
    · cases h
    · rename_i goal hwalk
      cases h
      have hreach := reaches_iff.mp hwalk
      have hdir := hreach.directory_of_last (by simp)
      exact ⟨hdir, hreach.congr hdir hlive⟩
  · intro h
    rw [walk, reaches_iff.mpr (h.walk.congr h.directory hlive.symm)]

theorem not_leads_of_footing (h : d.footing root = .error e) (place : Location) : ¬ Leads d root place := by
  intro hlead
  rw [footing_eq_ok.mpr hlead] at h
  cases h

/-- No directory is made in a root that the walk does not end at. -/
theorem makeDirectory_join_error (hn : IsEntryName name) (hcheck : checkPath (root.join name) = .ok ())
    (h : d.footing root = .error e) : d.makeDirectory (root.join name) = .error e := by
  obtain ⟨front, hjoin, hroot⟩ := Path.segments_join root hn
  have hsteps : (root.join name).segments.filter (· ≠ "") =
      root.segments.filter (· ≠ "") ++ [name] := by
    rw [hjoin]
    rcases hroot with hroot | hroot <;> simp [hroot, hn.ne_empty]
  unfold footing at h
  unfold makeDirectory Disk.place locate
  rw [hsteps, hcheck, startOf_congr (Path.isAbsolute_join root hn)]
  simp only [List.getLast?_concat, List.dropLast_concat, bind, Except.bind]
  split at h
  · rename_i hwalk
    cases h
    rw [hwalk]
  · rename_i hwalk
    cases h
    rw [hwalk]
  · cases h

/-- A path that leads to a directory leads to one above that too. -/
theorem Leads.parent (h : Leads d p place) (hq : p.parent? = some q) :
    q.text.toList <+: p.text.toList ∧ ∃ place', Leads d q place' := by
  rcases List.eq_nil_or_concat p.moves with hmoves | ⟨front, name, hmoves⟩
  · obtain ⟨rfl, habs⟩ := Path.parent?_of_no_moves hmoves hq
    exact ⟨List.nil_prefix, place, h.congr (by rw [hmoves]; rfl) (by rw [habs]; rfl)⟩
  · rw [List.concat_eq_append] at hmoves
    obtain ⟨q', hq', habove⟩ := Path.parent?_of_moves hmoves
    obtain rfl := Option.some.inj (hq.symm.trans hq')
    have hlive : live p.segments = live (front ++ [name]) := by
      have hidle : ∀ s ∈ p.moves, Path.isIdle s = false := fun s hs => by
        simpa using (List.mem_filter.mp hs).2
      rw [show live p.segments = p.moves from rfl, hmoves, live, List.filter_eq_self.mpr]
      exact fun s hs => by simp [hidle s (hmoves ▸ hs)]
    obtain ⟨mid, hmid, hdir⟩ := (h.walk.congr h.directory hlive).split
    refine ⟨habove.text_initial, mid, hdir, ?_⟩
    rw [startOf_congr habove.absolute_eq]
    refine hmid.congr hdir ?_
    have hfront : live (front ++ [name]) = front ++ [name] := by
      rw [← hlive]
      exact hmoves
    have hq : live q.segments = front := habove.moves_eq
    rw [hq]
    refine List.filter_eq_self.mpr fun s hs => ?_
    have hm : s ∈ live (front ++ [name]) := by
      rw [hfront]
      exact List.mem_append_left _ hs
    exact (List.mem_filter.mp hm).2

/-- Where a directory is there can be made none. -/
theorem Leads.makeDirectory (h : Leads d p place) (hcheck : checkPath p = .ok ()) :
    d.makeDirectory p = .error .alreadyThere := by
  unfold Disk.makeDirectory Disk.place locate
  rw [hcheck]
  simp only [bind, Except.bind]
  cases hlast : (p.segments.filter (· ≠ "")).getLast? with
  | none => rfl
  | some name =>
    have hsteps : p.segments.filter (· ≠ "") = (p.segments.filter (· ≠ "")).dropLast ++ [name] :=
      (List.dropLast_append_getLast? name hlast).symm
    generalize (p.segments.filter (· ≠ "")).dropLast = front at hsteps ⊢
    have hreach : Reaches d (linkLimit + 1) (startOf d.home p.text) (front ++ [name]) place := by
      rw [← hsteps]
      exact h.walk.congr h.directory (filter_ne_empty_live _).symm
    obtain ⟨mid, hmid, hdir⟩ := hreach.split
    have hdot : live front = live (front ++ ["."]) := by
      rw [live_append]
      simp [live, Path.isIdle]
    have hwalk : d.walk (startOf d.home p.text) (front ++ ["."]) = .ok (.reached mid) :=
      reaches_iff.mpr (hmid.congr hdir hdot)
    rw [hwalk]
    simp only
    by_cases hdots : name = "." ∨ name = ".."
    · rw [if_pos hdots]
    · rw [if_neg hdots]
      obtain ⟨m, hm⟩ := hmid.follow_append
      have hstep := reaches_iff.mpr hreach
      have hne : name ≠ "" := by simpa using (List.mem_filter.mp (List.mem_of_getLast? hlast)).2
      have hidle : ¬ (name = "" ∨ name = ".") := fun hor => hor.elim hne fun he => hdots (Or.inl he)
      rw [hm, follow_succ, advance, hdir] at hstep
      simp only [if_neg hidle, if_neg fun he => hdots (Or.inr he)] at hstep
      by_cases hlen : longestName < name.utf8ByteSize
      · simp [hlen] at hstep
      · simp only [if_neg hlen] at hstep ⊢
        cases hget : d.get? (mid ++ [name]) with
        | none => simp [hget] at hstep
        | some e => rfl

/-! ## Making what is above first -/

/-- What is checked of a path, and needs no check of one that is empty. -/
def Admissible (p : Path) : Prop := checkPath p = .ok () ∨ p.text = ""

theorem Admissible.parent (h : checkPath p = .ok ()) (hpre : q.text.toList <+: p.text.toList) :
    Admissible q := by
  by_cases hempty : q.text = ""
  · exact Or.inr hempty
  · exact Or.inl (checkPath_of_isPrefix hpre hempty h)

theorem Admissible.checked (h : Admissible p) (hcomp : p.components ≠ []) : checkPath p = .ok () := by
  refine h.resolve_right fun hempty => hcomp ?_
  obtain rfl : p = ⟨""⟩ := congrArg Path.mk hempty
  rfl

theorem checkPath_of_makeDirectory (h : d.makeDirectory p = .ok d') : checkPath p = .ok () := by
  obtain ⟨_, _, hlocate, -⟩ := place_ok h
  exact (locate_cases hlocate).1

/-- Where a directory can be made, there is one above it. -/
theorem leads_parent_of_makeDirectory (h : d.makeDirectory p = .ok d') (hq : p.parent? = some q) :
    q.text.toList <+: p.text.toList ∧ ∃ place, Leads d q place := by
  obtain ⟨directory, name, hlocate, -⟩ := place_ok h
  obtain ⟨-, -, -, front, hmoves, hleads⟩ := locate_eq_some hlocate
  obtain ⟨q', hq', habove⟩ := Path.parent?_of_moves hmoves
  obtain rfl := Option.some.inj (hq.symm.trans hq')
  exact ⟨habove.text_initial, directory, hleads q habove.moves_eq habove.absolute_eq⟩

/-- If the path leads to a directory after the call for it, the call succeeds. -/
theorem secure_of_leads {r : Except SystemError Unit} (hcheck : checkPath p = .ok ())
    (h : d.secure p = (r, d')) (hlead : Leads d' p place) : r = .ok () := by
  cases hm : d.makeDirectory p with
  | ok made =>
    rw [secure_of_ok hm] at h
    cases h
    rfl
  | error e =>
    rw [secure_of_error hm] at h
    cases h
    rw [hlead.makeDirectory hcheck] at hm
    cases hm
    rw [if_pos ⟨rfl, hlead.isDirectory hcheck⟩]

/-- If the path leads to a directory afterwards, making those above it too succeeds. -/
theorem makeDirectories_of_leads (p : Path) : ∀ {d d' : Disk} {r : Except SystemError Unit}
    {place : Location}, Admissible p → d.makeDirectories p = (r, d') → Leads d' p place → r = .ok () := by
  induction p using Path.by_parent with
  | step p ih =>
    intro d d' r place hadmit h hlead
    by_cases hidle : p.components = [] ∨ p.parent? = none
    · rw [makeDirectories_idle hidle] at h
      cases h
      rfl
    · obtain ⟨hcomp, habove⟩ := not_or.mp hidle
      obtain ⟨q, hq⟩ := Option.ne_none_iff_exists'.mp habove
      have hcheck := hadmit.checked hcomp
      by_cases hmiss : d.makeDirectory p = .error .notFound
      · rw [makeDirectories_of_notFound hcomp hq hmiss] at h
        cases habove : d.makeDirectories q with
        | mk result dm =>
          rw [habove] at h
          cases result with
          | ok _ => exact secure_of_leads hcheck h hlead
          | error e =>
            cases h
            obtain ⟨hpre, place', hlead'⟩ := hlead.parent hq
            cases ih q hq (.parent hcheck hpre) habove hlead'
      · rw [makeDirectories_of_ne hcomp hq hmiss] at h
        exact secure_of_leads hcheck h hlead

/-- A directory that was just made is not made again. -/
theorem makeDirectories_of_made (hcomp : p.components ≠ []) (hq : p.parent? = some q)
    (h : d.makeDirectory p = .ok d') : (d'.makeDirectories p).2 = d' := by
  obtain ⟨-, place, -, -, -, hlead⟩ := makeDirectory_new h
  have hthere := hlead.makeDirectory (checkPath_of_makeDirectory h)
  rw [makeDirectories_of_ne hcomp hq (by simp [hthere]), secure_of_error hthere]

/-- Once made as far as they can be, the directories of a path are not made again. -/
theorem makeDirectories_again (p : Path) : ∀ {d d' : Disk} {r : Except SystemError Unit},
    d.makeDirectories p = (r, d') → (d'.makeDirectories p).2 = d' := by
  induction p using Path.by_parent with
  | step p ih =>
    intro d d' r h
    by_cases hidle : p.components = [] ∨ p.parent? = none
    · rw [makeDirectories_idle hidle]
    · obtain ⟨hcomp, habove⟩ := not_or.mp hidle
      obtain ⟨q, hq⟩ := Option.ne_none_iff_exists'.mp habove
      by_cases hmiss : d.makeDirectory p = .error .notFound
      · have hcall := h
        rw [makeDirectories_of_notFound hcomp hq hmiss] at hcall
        cases hchain : d.makeDirectories q with
        | mk result dm =>
          rw [hchain] at hcall
          have hagain := ih q hq hchain
          cases result with
          | error e =>
            cases hcall
            refine makeDirectories_of_still hcomp hq hagain ?_
            cases hm : d'.makeDirectory p with
            | error e => rw [secure_of_error hm]
            | ok made =>
              -- there would be a directory above, and the making of it would not have failed
              obtain ⟨hpre, place, hlead⟩ := leads_parent_of_makeDirectory hm hq
              cases makeDirectories_of_leads q (.parent (checkPath_of_makeDirectory hm) hpre) hchain hlead
          | ok _ =>
            rcases secure_cases hcall with hm | rfl
            · exact makeDirectories_of_made hcomp hq hm
            · have hself : d'.secure p = (r, d') := hcall
              exact makeDirectories_of_still hcomp hq hagain (by rw [hself])
      · have hcall := h
        rw [makeDirectories_of_ne hcomp hq hmiss] at hcall
        rcases secure_cases hcall with hm | rfl
        · exact makeDirectories_of_made hcomp hq hm
        · rw [h]

/-! ## Founding a root -/

/-- The tree with the missing directories of the root's path, as far as they can be made. -/
def founded (d : Disk) (root : Path) : Disk :=
  match d.footing root with
  | .error .notFound => (d.makeDirectories root.base).2
  | _ => d

theorem founded_of_notFound (h : d.footing root = .error .notFound) :
    d.founded root = (d.makeDirectories root.base).2 := by
  rw [founded, h]

theorem founded_of_ne (h : d.footing root ≠ .error .notFound) : d.founded root = d := by
  unfold founded
  split
  · exact absurd ‹_› h
  · rfl

theorem grows_founded (d : Disk) (root : Path) : Grows d (d.founded root) := by
  by_cases h : d.footing root = .error .notFound
  · rw [founded_of_notFound h]
    exact grows_makeChain rfl
  · rw [founded_of_ne h]
    exact Grows.refl d

/-- Once founded, a root needs no founding. -/
theorem founded_again (d : Disk) (root : Path) : (d.founded root).founded root = d.founded root := by
  by_cases h : (d.founded root).footing root = .error .notFound
  · rw [founded_of_notFound h]
    by_cases hd : d.footing root = .error .notFound
    · rw [founded_of_notFound hd]
      exact makeDirectories_again _ rfl
    · rw [founded_of_ne hd] at h
      exact absurd h hd
  · exact founded_of_ne h

theorem leads_base_iff (hn : IsEntryName name) : Leads d root.base place ↔ Leads d root place := by
  have habove := Path.base_isAbove root hn
  have habs : root.base.isAbsolute = root.isAbsolute :=
    habove.absolute_eq.trans (Path.isAbsolute_join root hn)
  exact ⟨fun h => h.congr habove.moves_eq.symm habs.symm, fun h => h.congr habove.moves_eq habs⟩

theorem Grows.unlinked {l : Location} (h : Grows d d') (hu : Unlinked d l) : Unlinked d' l := by
  intro target ht
  rcases h.new ht with hold | hdir
  · exact hu target hold
  · cases hdir

end Disk

/-! ## Directories in a root -/

namespace Files
open StubListing.Path (IsEntryName)
open StubListing.Disk (Leads checkPath)

variable {d : Disk} {root : Path} {place : Location} {name : String}

theorem isDirectory_join_of_nowhere (hn : IsEntryName name) (h : ∀ place, ¬ Leads d root place) :
    d.isDirectory (root.join name) = false := by
  rw [Bool.eq_false_iff]
  intro hdir
  obtain ⟨-, _, hlead⟩ := Disk.leads_of_isDirectory hdir
  obtain ⟨place, hroot⟩ := Disk.leads_of_reaches_join hn hlead.walk
  exact h place hroot

/-- In a root that is no directory the call for a directory fails. -/
theorem secure_join_of_nowhere (hn : IsEntryName name) (hcheck : checkPath (root.join name) = .ok ())
    (h : ∀ place, ¬ Leads d root place) : ∃ e, d.secure (root.join name) = (.error e, d) := by
  cases hfooting : d.footing root with
  | ok place => exact absurd (Disk.footing_eq_ok.mp hfooting) (h place)
  | error e =>
    refine ⟨e, ?_⟩
    rw [Disk.secure_of_error (Disk.makeDirectory_join_error hn hcheck hfooting),
      isDirectory_join_of_nowhere hn h]
    simp

/-- For a directory in a missing root, the root's own path is made first. -/
theorem makeDirectories_join (hn : IsEntryName name) (hcheck : checkPath (root.join name) = .ok ())
    (h : d.footing root = .error .notFound) :
    d.makeDirectories (root.join name) = match d.makeDirectories root.base with
      | (.error e, d) => (.error e, d)
      | (.ok (), d) => d.secure (root.join name) := by
  have hcomp : (root.join name).components ≠ [] :=
    Path.components_ne_nil (by simp [Path.moves_join root hn])
  exact Disk.makeDirectories_of_notFound hcomp (Path.parent?_join root hn)
    (Disk.makeDirectory_join_error hn hcheck h)

/-- In a root that is a directory a single call is enough. -/
theorem provide_join_of_leads (hn : IsEntryName name) (hcheck : checkPath (root.join name) = .ok ())
    (h : Leads d root place) :
    provide d (root.join name) = match d.secure (root.join name) with
      | (.ok (), d) => (.ok (), d)
      | (.error e, d) => (.error ⟨["Failed to create directory " ++ (root.join name).text], .system e⟩, d) := by
  have hmake : d.makeDirectories (root.join name) = d.secure (root.join name) :=
    h.makeDirectories_child hn
  rw [provide, hmake]
  by_cases hdir : d.isDirectory (root.join name) = true
  · obtain ⟨-, _, hlead⟩ := Disk.leads_of_isDirectory hdir
    rw [if_pos hdir, Disk.secure_of_error (hlead.makeDirectory hcheck), if_pos ⟨rfl, hdir⟩]
  · exact if_neg hdir

/-- Where founding the root makes it a directory, it does not matter whether that is done before. -/
theorem provide_founded (hn : IsEntryName name) (hcheck : checkPath (root.join name) = .ok ())
    (hlead : Leads (d.founded root) root place) :
    provide d (root.join name) = provide (d.founded root) (root.join name) := by
  by_cases hmiss : d.footing root = .error .notFound
  · have hbase := (Disk.leads_base_iff hn).mpr hlead
    have hadmit : Disk.Admissible root.base := .parent hcheck (Path.base_isAbove root hn).text_initial
    rw [Disk.founded_of_notFound hmiss] at *
    cases hmake : d.makeDirectories root.base with
    | mk result made =>
      rw [hmake] at hbase hlead
      obtain rfl := Disk.makeDirectories_of_leads _ hadmit hmake hbase
      rw [provide, isDirectory_join_of_nowhere hn (Disk.not_leads_of_footing hmiss),
        makeDirectories_join hn hcheck hmiss, hmake, provide_join_of_leads hn hcheck hlead]
      rfl
  · rw [Disk.founded_of_ne hmiss]

/-- Where founding the root does not make it a directory, no directory in it can be had, and the
attempt leaves the root founded. -/
theorem provide_stuck (hn : IsEntryName name) (hcheck : checkPath (root.join name) = .ok ())
    (hstuck : ∀ place, ¬ Leads (d.founded root) root place) :
    ∃ e, provide d (root.join name) =
      (.error ⟨["Failed to create directory " ++ (root.join name).text], .system e⟩, d.founded root) := by
  have hnow : ∀ place, ¬ Leads d root place := fun place h =>
    hstuck place (h.keeps (Disk.grows_founded d root).keeps)
  rw [provide, isDirectory_join_of_nowhere hn hnow]
  by_cases hmiss : d.footing root = .error .notFound
  · rw [makeDirectories_join hn hcheck hmiss]
    rw [Disk.founded_of_notFound hmiss] at *
    cases hmake : d.makeDirectories root.base with
    | mk result made =>
      cases result with
      | error e => exact ⟨e, rfl⟩
      | ok _ =>
        rw [hmake] at hstuck
        obtain ⟨e, he⟩ := secure_join_of_nowhere hn hcheck hstuck
        exact ⟨e, by simp only [he]; rfl⟩
  · rw [Disk.founded_of_ne hmiss] at *
    have hmake : d.makeDirectories (root.join name) = d.secure (root.join name) := by
      refine Disk.makeDirectories_of_ne ?_ (Path.parent?_join root hn) fun hm => ?_
      · exact Path.components_ne_nil (by simp [Path.moves_join root hn])
      · cases hfooting : d.footing root with
        | ok place => exact hnow place (Disk.footing_eq_ok.mp hfooting)
        | error e =>
          rw [Disk.makeDirectory_join_error hn hcheck hfooting] at hm
          cases hm
          exact hmiss hfooting
    obtain ⟨e, he⟩ := secure_join_of_nowhere hn hcheck hnow
    exact ⟨e, by rw [hmake, he]; rfl⟩

end Files

end StubListing
