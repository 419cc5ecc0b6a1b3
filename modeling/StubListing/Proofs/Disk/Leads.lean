import StubListing.Proofs.Disk.Walking
import StubListing.Proofs.Path.Parent
/-!
# Calls on what is directly in a directory

Once it is known to which directory a path leads, each call on the path of something directly in
it depends only on the text of that path and on what is at one place of the tree.
-/
namespace StubListing.Disk
open StubListing.Path (IsEntryName)

/-- The path leads to the directory at the place, its text not yet checked. -/
structure Leads (d : Disk) (p : Path) (place : Location) : Prop where
  directory : d.get? place = some .directory
  walk : Reaches d (linkLimit + 1) (startOf d.home p.text) p.segments place

variable {d d' : Disk} {root p : Path} {place : Location} {name : String}

theorem Leads.keeps (h : Leads d p place) (hk : Keeps d d') : Leads d' p place := by
  refine ⟨hk.directory h.directory, ?_⟩
  rw [hk.home]
  exact h.walk.keeps hk h.directory

theorem startOf_congr {home : Location} {p q : Path} (h : q.isAbsolute = p.isAbsolute) :
    startOf home q.text = startOf home p.text := by
  have hp : ∀ r : Path, r.isAbsolute = true ↔ r.text.toList.head? = some '/' := fun r => beq_iff_eq
  unfold startOf
  by_cases ha : p.isAbsolute = true
  · rw [if_pos ((hp p).mp ha), if_pos ((hp q).mp (h.trans ha))]
  · rw [if_neg fun e => ha ((hp p).mpr e), if_neg fun e => ha (h ▸ (hp q).mpr e)]

/-- Paths that start in the same place and make the same moves lead to the same directory. -/
theorem Leads.congr {q : Path} (h : Leads d p place) (hm : q.moves = p.moves)
    (ha : q.isAbsolute = p.isAbsolute) : Leads d q place := by
  refine ⟨h.directory, ?_⟩
  rw [startOf_congr ha]
  exact h.walk.congr h.directory hm.symm

/-- What comes behind the moves of the path is walked from its directory. -/
theorem Leads.walk_more (h : Leads d root place) (ha : p.isAbsolute = root.isAbsolute)
    {front more : List String} (hp : p.segments = front ++ more) (hf : live front = root.moves) :
    ∃ m, d.walk (startOf d.home p.text) p.segments = d.follow (m + 1) place more := by
  have hreach : Reaches d (linkLimit + 1) (startOf d.home root.text) front place :=
    h.walk.congr h.directory hf.symm
  obtain ⟨m, hm⟩ := hreach.follow_append
  exact ⟨m, by rw [startOf_congr ha, hp, Disk.walk, hm]⟩

theorem Leads.walk_child (h : Leads d root place) (hn : IsEntryName name) :
    ∃ m, d.walk (startOf d.home (root.join name).text) (root.join name).segments =
      d.follow (m + 1) place [name] := by
  obtain ⟨front, hjoin, hfront⟩ := Path.segments_join_moves root hn
  exact h.walk_more (Path.isAbsolute_join root hn) hjoin hfront

/-! ## Looking up -/

/-- No link is at the place. -/
def Unlinked (d : Disk) (place : Location) : Prop := ∀ target, d.get? place ≠ some (.link target)

theorem unlinked_of_directory (h : d.get? place = some .directory) : Unlinked d place := by
  intro target ht
  rw [h] at ht
  cases ht

theorem unlinked_of_none (h : d.get? place = none) : Unlinked d place := by
  intro target ht
  rw [h] at ht
  cases ht

theorem unlinked_of_file {content : ByteArray} (h : d.get? place = some (.file content)) :
    Unlinked d place := by
  intro target ht
  rw [h] at ht
  cases ht

/-- The tree holds no links. -/
def noLinks (d : Disk) : Bool :=
  d.entries.all fun x => match x.2 with
    | .link _ => false
    | _ => true

theorem unlinked_of_noLinks (h : d.noLinks = true) (place : Location) : Unlinked d place := by
  intro target ht
  unfold get? at ht
  split at ht
  · cases ht
  · obtain ⟨front, back, hsplit, -⟩ := List.lookup_eq_some_iff.mp ht
    have hmem : (place, Entry.link target) ∈ d.entries := by
      rw [hsplit]
      simp
    have := List.all_eq_true.mp h _ hmem
    simp at this

/-- Where a last name leads. -/
def arrival (d : Disk) (directory : Location) (name : String) : Except SystemError Arrival :=
  if longestName < name.utf8ByteSize then .error .nameTooLong
  else match d.get? (directory ++ [name]) with
    | none => .ok (.vacant directory name false)
    | some _ => .ok (.reached (directory ++ [name]))

theorem follow_name {m : Nat} (hdir : d.get? place = some .directory) (hn : IsEntryName name)
    (hu : Unlinked d (place ++ [name])) : d.follow (m + 1) place [name] = arrival d place name := by
  have hstep : ¬ (name = "" ∨ name = ".") := not_idle_iff.mp hn.notIdle
  rw [follow_succ, advance, hdir, arrival]
  simp only [if_neg hstep, if_neg hn.notUp]
  by_cases hlen : longestName < name.utf8ByteSize
  · simp only [if_pos hlen]
  · simp only [if_neg hlen]
    cases hg : d.get? (place ++ [name]) with
    | none => rfl
    | some e =>
      cases e with
      | link target => exact absurd hg (hu target)
      | directory => rfl
      | file content => rfl

theorem Leads.resolve_child (h : Leads d root place) (hn : IsEntryName name)
    (hu : Unlinked d (place ++ [name])) :
    d.resolve (root.join name) = (checkPath (root.join name)).bind fun _ => arrival d place name := by
  obtain ⟨m, hm⟩ := h.walk_child hn
  rw [resolve, hm, follow_name h.directory hn hu]
  rfl

theorem Leads.find_child (h : Leads d root place) (hn : IsEntryName name)
    (hu : Unlinked d (place ++ [name])) :
    d.find (root.join name) = (checkPath (root.join name)).bind fun _ =>
      if longestName < name.utf8ByteSize then .error .nameTooLong
      else if (d.get? (place ++ [name])).isSome then .ok (place ++ [name]) else .error .notFound := by
  rw [find, h.resolve_child hn hu, arrival]
  cases checkPath (root.join name) with
  | error e => rfl
  | ok _ =>
    by_cases hlen : longestName < name.utf8ByteSize
    · simp [Except.bind, bind, hlen]
    · cases hg : d.get? (place ++ [name]) <;> simp [Except.bind, bind, hlen]

/-- Two names down, something is found only if the first of them is that of a directory. -/
theorem Leads.find_grandchild (h : Leads d root place) {directory : String}
    (hd : IsEntryName directory) (hn : IsEntryName name) (hu : Unlinked d (place ++ [directory]))
    (hv : Unlinked d (place ++ [directory] ++ [name])) :
    d.find ((root.join directory).join name) =
      (checkPath ((root.join directory).join name)).bind fun _ =>
        if longestName < directory.utf8ByteSize then .error .nameTooLong
        else match d.get? (place ++ [directory]) with
          | none => .error .notFound
          | some .directory =>
            if longestName < name.utf8ByteSize then .error .nameTooLong
            else if (d.get? (place ++ [directory] ++ [name])).isSome then
              .ok (place ++ [directory] ++ [name])
            else .error .notFound
          | some _ => .error .notADirectory := by
  obtain ⟨front, _, hjoin, hfront⟩ := Path.segments_join_join root hd hn
  have habs : ((root.join directory).join name).isAbsolute = root.isAbsolute := by
    rw [Path.isAbsolute_join _ hn, Path.isAbsolute_join _ hd]
  have hsegments : ((root.join directory).join name).segments = front ++ [directory, name] := by
    rw [hjoin, List.append_assoc]
    rfl
  have hidle : ¬ (directory = "" ∨ directory = ".") := not_idle_iff.mp hd.notIdle
  obtain ⟨m, hm⟩ := h.walk_more habs hsegments hfront
  rw [find, resolve, hm, follow_succ, advance, h.directory]
  cases checkPath ((root.join directory).join name) with
  | error e => rfl
  | ok _ =>
    simp only [if_neg hidle, if_neg hd.notUp, bind, Except.bind]
    by_cases hlen : longestName < directory.utf8ByteSize
    · simp only [if_pos hlen]
    · simp only [if_neg hlen]
      cases hg : d.get? (place ++ [directory]) with
      | none => simp [hn.ne_empty]
      | some e =>
        cases e with
        | link target => exact absurd hg (hu target)
        | file content => simp [advance, hg]
        | directory =>
          have hlast := follow_name (m := m) hg hn hv
          rw [follow_succ] at hlast
          simp only [hlast, arrival]
          by_cases hshort : longestName < name.utf8ByteSize
          · simp only [if_pos hshort]
          · simp only [if_neg hshort]
            cases d.get? (place ++ [directory] ++ [name]) <;> rfl

/-- A directory in the directory is led to by its joined name. -/
theorem Leads.child (h : Leads d root place) (hn : IsEntryName name)
    (hlen : name.utf8ByteSize ≤ longestName) (hdir : d.get? (place ++ [name]) = some .directory) :
    Leads d (root.join name) (place ++ [name]) := by
  refine ⟨hdir, ?_⟩
  obtain ⟨m, hm⟩ := h.walk_child hn
  rw [← reaches_iff, ← Disk.walk, hm, follow_name h.directory hn (unlinked_of_directory hdir), arrival,
    if_neg (Nat.not_lt.mpr hlen), hdir]

theorem find_eq_ok : d.find p = .ok place ↔
    checkPath p = .ok () ∧ Reaches d (linkLimit + 1) (startOf d.home p.text) p.segments place := by
  unfold find resolve walk
  rw [← reaches_iff]
  cases checkPath p with
  | error e => simp [bind, Except.bind]
  | ok _ =>
    cases hf : d.follow (linkLimit + 1) (startOf d.home p.text) p.segments with
    | error e => simp [bind, Except.bind]
    | ok found => cases found <;> simp [bind, Except.bind]

theorem Leads.find_eq (h : Leads d p place) (hc : checkPath p = .ok ()) : d.find p = .ok place :=
  find_eq_ok.mpr ⟨hc, h.walk⟩

theorem Leads.isDirectory (h : Leads d p place) (hc : checkPath p = .ok ()) :
    d.isDirectory p = true := by
  simp [Disk.isDirectory, h.find_eq hc, h.directory]

/-- A path that is found to be a directory leads there. -/
theorem leads_of_isDirectory (h : d.isDirectory p = true) :
    checkPath p = .ok () ∧ ∃ place, Leads d p place := by
  unfold Disk.isDirectory at h
  cases hf : d.find p with
  | error e => rw [hf] at h; cases h
  | ok place =>
    rw [hf] at h
    obtain ⟨hc, hwalk⟩ := find_eq_ok.mp hf
    exact ⟨hc, place, by simpa using h, hwalk⟩

/-! ## Naming an entry -/

theorem filter_ne_empty_live (steps : List String) :
    live (steps.filter (· ≠ "")) = live steps := by
  induction steps with
  | nil => rfl
  | cons s rest ih =>
    by_cases hs : s = ""
    · subst hs
      rw [live_cons_idle rfl, List.filter_cons_of_neg (by simp), ih]
    · rw [List.filter_cons_of_pos (by simpa using hs)]
      simp only [live, List.filter_cons] at ih ⊢
      rw [ih]

theorem Leads.locate_of_steps (h : Leads d root place) (hn : IsEntryName name) {front : List String}
    (hsteps : p.segments.filter (· ≠ "") = front ++ [name]) (hfront : live front = root.moves)
    (ha : p.isAbsolute = root.isAbsolute) :
    d.locate p = (checkPath p).bind fun _ =>
      if longestName < name.utf8ByteSize then .error .nameTooLong else .ok (some (place, name)) := by
  have hlive : live (front ++ ["."]) = root.moves := by
    rw [live_append, hfront]
    simp [live, Path.isIdle]
  have hwalk : d.walk (startOf d.home p.text) (front ++ ["."]) = .ok (.reached place) := by
    rw [startOf_congr ha, Disk.walk, reaches_iff]
    exact h.walk.congr h.directory hlive.symm
  have hdots : ¬ (name = "." ∨ name = "..") := fun e => e.elim hn.ne_dot hn.notUp
  unfold locate
  rw [hsteps]
  cases checkPath p with
  | error e => rfl
  | ok _ =>
    simp only [List.getLast?_concat, List.dropLast_concat, hwalk, bind, Except.bind, if_neg hdots]

theorem Leads.locate_child (h : Leads d root place) (hn : IsEntryName name) :
    d.locate (root.join name) = (checkPath (root.join name)).bind fun _ =>
      if longestName < name.utf8ByteSize then .error .nameTooLong else .ok (some (place, name)) := by
  obtain ⟨front, hjoin, hfront⟩ := Path.segments_join_moves root hn
  have hsteps : (root.join name).segments.filter (· ≠ "") = front.filter (· ≠ "") ++ [name] := by
    rw [hjoin, List.filter_append]
    simp [hn.ne_empty]
  refine h.locate_of_steps hn hsteps ?_ (Path.isAbsolute_join root hn)
  rw [filter_ne_empty_live]
  exact hfront

/-! ## Directories with those above them -/

/-- The last of the calls for a directory, made when those above it have been made. -/
def secure (d : Disk) (p : Path) : Except SystemError Unit × Disk :=
  match d.makeDirectory p with
  | .ok d => (.ok (), d)
  | .error .alreadyThere => if d.isDirectory p then (.ok (), d) else (.error .alreadyThere, d)
  | .error e => (.error e, d)

theorem secure_of_ok (h : d.makeDirectory p = .ok d') : d.secure p = (.ok (), d') := by
  rw [secure, h]

theorem secure_of_error (h : d.makeDirectory p = .error e) :
    d.secure p = (if e = .alreadyThere ∧ d.isDirectory p = true then .ok () else .error e, d) := by
  rw [secure, h]
  cases e <;> simp
  split <;> rfl

/-- Some paths need no making. -/
theorem makeDirectories_idle (h : p.components = [] ∨ p.parent? = none) :
    d.makeDirectories p = (.ok (), d) := by
  rw [makeDirectories]
  cases hq : p.parent? with
  | none => rw [Path.ancestors_of_parent?_none hq, makeChain, if_pos (by simp)]
  | some q =>
    have hcomp : p.components = [] := h.resolve_right (by simp [hq])
    rw [Path.ancestors_of_parent? hq, makeChain, if_pos (by simp [hcomp])]

theorem makeDirectories_of_ne (hcomp : p.components ≠ []) (hq : p.parent? = some q)
    (h : d.makeDirectory p ≠ .error .notFound) : d.makeDirectories p = d.secure p := by
  rw [makeDirectories, Path.ancestors_of_parent? hq, makeChain,
    if_neg (by simp [hcomp, Path.isEmpty_ancestors]), secure]
  cases hm : d.makeDirectory p with
  | ok d' => rfl
  | error e =>
    cases e with
    | notFound => exact absurd hm h
    | _ => rfl

theorem makeDirectories_of_notFound (hcomp : p.components ≠ []) (hq : p.parent? = some q)
    (h : d.makeDirectory p = .error .notFound) :
    d.makeDirectories p = match d.makeDirectories q with
      | (.error e, d) => (.error e, d)
      | (.ok (), d) => d.secure p := by
  rw [makeDirectories, Path.ancestors_of_parent? hq, makeChain,
    if_neg (by simp [hcomp, Path.isEmpty_ancestors]), h]
  rfl

/-- The call makes the directory or leaves the tree as it is. -/
theorem secure_cases {r : Except SystemError Unit} (h : d.secure p = (r, d')) :
    d.makeDirectory p = .ok d' ∨ d' = d := by
  cases hm : d.makeDirectory p with
  | ok made =>
    rw [secure_of_ok hm] at h
    cases h
    exact Or.inl rfl
  | error e =>
    rw [secure_of_error hm] at h
    cases h
    exact Or.inr rfl

/-- Nothing is made where neither the directories above nor the directory itself can be made. -/
theorem makeDirectories_of_still (hcomp : p.components ≠ []) (hq : p.parent? = some q)
    (habove : (d.makeDirectories q).2 = d) (hself : (d.secure p).2 = d) :
    (d.makeDirectories p).2 = d := by
  by_cases hmiss : d.makeDirectory p = .error .notFound
  · rw [makeDirectories_of_notFound hcomp hq hmiss]
    cases hcall : d.makeDirectories q with
    | mk result dm =>
      rw [hcall] at habove
      cases habove
      cases result with
      | error e => rfl
      | ok _ => exact hself
  · rw [makeDirectories_of_ne hcomp hq hmiss, hself]

/-! ## Making directories and files -/

theorem Leads.place_child (h : Leads d root place) (hn : IsEntryName name) (e : Entry) :
    d.place (root.join name) e = (checkPath (root.join name)).bind fun _ =>
      if longestName < name.utf8ByteSize then .error .nameTooLong
      else if (d.get? (place ++ [name])).isSome then .error .alreadyThere
      else .ok (d.put (place ++ [name]) e) := by
  unfold Disk.place
  rw [h.locate_child hn]
  cases checkPath (root.join name) with
  | error e => rfl
  | ok _ =>
    by_cases hlen : longestName < name.utf8ByteSize <;> simp [Except.bind, bind, hlen]

theorem checkPath_eq_ok :
    checkPath p = .ok () ↔
      '\x00' ∉ p.text.toList ∧ p.text ≠ "" ∧ p.text.utf8ByteSize < pathLimit := by
  unfold checkPath
  by_cases hnull : '\x00' ∈ p.text.toList
  · simp [hnull]
  · by_cases hempty : p.text = ""
    · simp [hempty]
    · by_cases hlen : pathLimit ≤ p.text.utf8ByteSize
      · simp [hnull, hempty, hlen]
      · simp [hnull, hempty, hlen, Nat.not_le.mp hlen]

theorem checkPath_of_isPrefix {q : Path} (hpre : q.text.toList <+: p.text.toList)
    (hne : q.text ≠ "") (h : checkPath p = .ok ()) : checkPath q = .ok () := by
  obtain ⟨hnull, -, hlen⟩ := checkPath_eq_ok.mp h
  obtain ⟨more, hmore⟩ := hpre
  have hp : p.text = q.text ++ String.ofList more := by
    apply String.toList_inj.mp
    simp [hmore]
  refine checkPath_eq_ok.mpr ⟨fun hm => hnull ?_, hne, ?_⟩
  · rw [← hmore]
    exact List.mem_append_left _ hm
  · rw [hp, String.utf8ByteSize_append] at hlen
    omega

/-- A path with a name joined to it is accepted if it is not too long. -/
theorem checkPath_join (hn : IsEntryName name) (hroot : '\x00' ∉ root.text.toList)
    (hname : '\x00' ∉ name.toList)
    (hlen : root.text.utf8ByteSize + 1 + name.utf8ByteSize < pathLimit) :
    checkPath (root.join name) = .ok () := by
  refine checkPath_eq_ok.mpr ⟨fun hm => ?_, Path.text_join_ne_empty root hn, ?_⟩
  · rcases Path.mem_text_join root hn hm with h | h | h
    · exact hroot h
    · exact absurd h (by decide)
    · exact hname h
  · exact Nat.lt_of_le_of_lt (Path.utf8ByteSize_join root hn).2 hlen

theorem checkPath_error {e : SystemError} (h : checkPath p = .error e) (hne : p.text ≠ "") :
    e = .nullInPath ∨ e = .nameTooLong := by
  unfold checkPath at h
  split at h
  · left; cases h; rfl
  · split at h
    · right; cases h; rfl
    · cases h

theorem noNull_of_moves (hc : checkPath p = .ok ()) (hm : name ∈ p.moves) :
    '\x00' ∉ name.toList := by
  intro hnull
  have hseg : name ∈ p.segments := (List.mem_filter.mp hm).1
  exact (checkPath_eq_ok.mp hc).1 (Path.mem_of_mem_segments hseg hnull)

/-- Making one more directory in a directory needs a single call. -/
theorem Leads.makeDirectories_child (h : Leads d root place) (hn : IsEntryName name) :
    d.makeDirectories (root.join name) = d.secure (root.join name) := by
  refine makeDirectories_of_ne ?_ (Path.parent?_join root hn) ?_
  · exact Path.components_ne_nil (by simp [Path.moves_join root hn])
  · rw [makeDirectory, h.place_child hn]
    cases hc : checkPath (root.join name) with
    | error e =>
      rcases checkPath_error hc (Path.text_join_ne_empty root hn) with rfl | rfl <;>
        simp [Except.bind]
    | ok _ =>
      simp only [Except.bind]
      split
      · simp
      · split <;> simp

theorem Leads.create_child (h : Leads d root place) (hn : IsEntryName name)
    (hu : Unlinked d (place ++ [name])) :
    d.create (root.join name) = (checkPath (root.join name)).bind fun _ =>
      if longestName < name.utf8ByteSize then .error .nameTooLong
      else if d.get? (place ++ [name]) = some .directory then .error .isADirectory
      else .ok (place ++ [name], d.put (place ++ [name]) (.file .empty)) := by
  unfold create
  rw [if_neg (Path.getLast?_text_join root hn), h.resolve_child hn hu, arrival]
  cases checkPath (root.join name) with
  | error e => rfl
  | ok _ =>
    by_cases hlen : longestName < name.utf8ByteSize
    · simp [Except.bind, bind, hlen]
    · cases hg : d.get? (place ++ [name]) with
      | none => simp [Except.bind, bind, hlen]
      | some e =>
        cases e with
        | link target => exact absurd hg (hu target)
        | directory => simp [Except.bind, bind, hlen, hg]
        | file content => simp [Except.bind, bind, hlen, hg]

/-! ## Removing -/

/-- What is removed is something other than a directory, and only that goes. -/
theorem Leads.removeFile_child (h : Leads d root place) (hn : IsEntryName name) :
    d.removeFile (root.join name) = .ok d' ↔
      checkPath (root.join name) = .ok () ∧ name.utf8ByteSize ≤ longestName ∧
        (∃ e, d.get? (place ++ [name]) = some e ∧ e ≠ .directory) ∧
        d' = d.drop (place ++ [name]) := by
  have hlast := Path.getLast?_text_join root hn
  unfold Disk.removeFile
  rw [h.locate_child hn]
  cases checkPath (root.join name) with
  | error e => simp [Except.bind, bind]
  | ok _ =>
    by_cases hlen : longestName < name.utf8ByteSize
    · simp [Except.bind, bind, hlen, Nat.not_le.mpr hlen]
    · cases hg : d.get? (place ++ [name]) with
      | none => simp [Except.bind, bind, hlen, hg]
      | some e =>
        cases e with
        | directory => simp [Except.bind, bind, hlen, hg]
        | link target => simp [Except.bind, bind, hg, hlen, Nat.not_lt.mp hlen, hlast, eq_comm]
        | file content => simp [Except.bind, bind, hg, hlen, Nat.not_lt.mp hlen, hlast, eq_comm]

theorem Leads.removeDirectory_child (h : Leads d root place) (hn : IsEntryName name) :
    d.removeDirectory (root.join name) = .ok d' ↔
      checkPath (root.join name) = .ok () ∧ name.utf8ByteSize ≤ longestName ∧
        d.get? (place ++ [name]) = some .directory ∧
        (d.children (place ++ [name])).isEmpty = true ∧ d' = d.drop (place ++ [name]) := by
  unfold Disk.removeDirectory
  rw [h.locate_child hn]
  cases checkPath (root.join name) with
  | error e => simp [Except.bind, bind]
  | ok _ =>
    by_cases hlen : longestName < name.utf8ByteSize
    · simp [Except.bind, bind, hlen, Nat.not_le.mpr hlen]
    · cases hg : d.get? (place ++ [name]) with
      | none => simp [Except.bind, bind, hlen, hg]
      | some e =>
        cases e with
        | directory =>
          by_cases hempty : (d.children (place ++ [name])).isEmpty = true
          · simp [Except.bind, bind, hg, hlen, Nat.not_lt.mp hlen, List.isEmpty_iff.mp hempty, eq_comm]
          · simp [Except.bind, bind, hg, hlen, hempty]
        | link target => simp [Except.bind, bind, hg, hlen]
        | file content => simp [Except.bind, bind, hg, hlen]

end StubListing.Disk
