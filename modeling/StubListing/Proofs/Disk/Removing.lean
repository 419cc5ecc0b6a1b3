import StubListing.Disk.Walk
import StubListing.Proofs.Disk.Anchored
/-!
# Finding and removing

In a sound tree a path below a directory finds exactly what is there, one or two names down, as
long as no link is in between and the path is not too long for the system. A removal is described
by the places that are gone afterwards.
-/
namespace StubListing.Disk
open StubListing.Path (IsEntryName)

variable {d d' d'' : Disk} {p root : Path} {place l : Location} {name directory : String}

/-! ## Finding -/

theorem Leads.find_child_iff (hd : d.Sound) (h : Leads d root place) (hn : IsEntryName name)
    (hu : Unlinked d (place ++ [name])) :
    d.find (root.join name) = .ok l ↔
      checkPath (root.join name) = .ok () ∧ l = place ++ [name] ∧
        (d.get? (place ++ [name])).isSome = true := by
  rw [h.find_child hn hu]
  cases checkPath (root.join name) with
  | error e => simp [Except.bind]
  | ok _ =>
    cases hg : d.get? (place ++ [name]) with
    | none => by_cases hlen : longestName < name.utf8ByteSize <;> simp [Except.bind, hlen]
    | some e =>
      have hlen := Nat.not_lt.mpr (hd.named hg).short
      simp [Except.bind, hlen, eq_comm]

theorem Leads.find_grandchild_iff (hd : d.Sound) (h : Leads d root place)
    (hn : IsEntryName directory) (hm : IsEntryName name) (hu : Unlinked d (place ++ [directory]))
    (hv : Unlinked d (place ++ [directory] ++ [name])) :
    d.find ((root.join directory).join name) = .ok l ↔
      checkPath ((root.join directory).join name) = .ok () ∧
        l = place ++ [directory] ++ [name] ∧
        (d.get? (place ++ [directory] ++ [name])).isSome = true := by
  by_cases hdir : d.get? (place ++ [directory]) = some .directory
  · exact (h.child hn (hd.named hdir).short hdir).find_child_iff hd hm hv
  · have hnone : d.get? (place ++ [directory] ++ [name]) = none :=
      hd.nothing_below hdir (inside_child _ name)
    rw [h.find_grandchild hn hm hu hv, hnone]
    cases checkPath ((root.join directory).join name) with
    | error e => simp [Except.bind]
    | ok _ =>
      by_cases hlen : longestName < directory.utf8ByteSize
      · simp [Except.bind, hlen]
      · cases hg : d.get? (place ++ [directory]) with
        | none => simp [Except.bind, hlen]
        | some e =>
          cases e with
          | directory => exact absurd hg hdir
          | file content => simp [Except.bind, hlen]
          | link target => simp [Except.bind, hlen]

theorem isFile_iff : d.isFile p = true ↔
    ∃ l content, d.find p = .ok l ∧ d.get? l = some (.file content) := by
  unfold isFile
  cases d.find p with
  | error e => simp
  | ok l =>
    cases hg : d.get? l with
    | none => simp [hg]
    | some e => cases e <;> simp [hg]

theorem isDirectory_iff : d.isDirectory p = true ↔
    ∃ l, d.find p = .ok l ∧ d.get? l = some .directory := by
  unfold isDirectory
  cases d.find p <;> simp

theorem content_eq_ok {content : ByteArray} : d.content p = .ok content ↔
    ∃ l, d.find p = .ok l ∧ d.get? l = some (.file content) := by
  unfold Disk.content
  cases d.find p with
  | error e => simp [bind, Except.bind]
  | ok l =>
    cases hg : d.get? l with
    | none => simp [bind, Except.bind, hg]
    | some e => cases e <;> simp [bind, Except.bind, hg]

theorem Leads.isDirectory_child (hd : d.Sound) (h : Leads d root place) (hn : IsEntryName name)
    (hu : Unlinked d (place ++ [name])) :
    d.isDirectory (root.join name) = true ↔
      checkPath (root.join name) = .ok () ∧ d.get? (place ++ [name]) = some .directory := by
  rw [isDirectory_iff]
  constructor
  · rintro ⟨l, hl, hdir⟩
    obtain ⟨hc, rfl, -⟩ := (h.find_child_iff hd hn hu).mp hl
    exact ⟨hc, hdir⟩
  · rintro ⟨hc, hdir⟩
    exact ⟨_, (h.find_child_iff hd hn hu).mpr ⟨hc, rfl, by rw [hdir]; rfl⟩, hdir⟩

theorem Leads.content_child (hd : d.Sound) (h : Leads d root place) (hn : IsEntryName name)
    (hu : Unlinked d (place ++ [name])) {content : ByteArray} :
    d.content (root.join name) = .ok content ↔
      checkPath (root.join name) = .ok () ∧ d.get? (place ++ [name]) = some (.file content) := by
  rw [content_eq_ok]
  constructor
  · rintro ⟨l, hl, hfile⟩
    obtain ⟨hc, rfl, -⟩ := (h.find_child_iff hd hn hu).mp hl
    exact ⟨hc, hfile⟩
  · rintro ⟨hc, hfile⟩
    exact ⟨_, (h.find_child_iff hd hn hu).mpr ⟨hc, rfl, by rw [hfile]; rfl⟩, hfile⟩

theorem Leads.content_grandchild (hd : d.Sound) (h : Leads d root place)
    (hn : IsEntryName directory) (hm : IsEntryName name) (hu : Unlinked d (place ++ [directory]))
    (hv : Unlinked d (place ++ [directory] ++ [name])) {content : ByteArray} :
    d.content ((root.join directory).join name) = .ok content ↔
      checkPath ((root.join directory).join name) = .ok () ∧
        d.get? (place ++ [directory] ++ [name]) = some (.file content) := by
  rw [content_eq_ok]
  constructor
  · rintro ⟨l, hl, hfile⟩
    obtain ⟨hc, rfl, -⟩ := (h.find_grandchild_iff hd hn hm hu hv).mp hl
    exact ⟨hc, hfile⟩
  · rintro ⟨hc, hfile⟩
    exact ⟨_, (h.find_grandchild_iff hd hn hm hu hv).mpr ⟨hc, rfl, by rw [hfile]; rfl⟩, hfile⟩

theorem Leads.find_grandchild_eq (h : Leads d root place) (hn : IsEntryName directory)
    (hm : IsEntryName name) (hu : Unlinked d (place ++ [directory]))
    (hv : Unlinked d (place ++ [directory] ++ [name]))
    (hfind : d.find ((root.join directory).join name) = .ok l) :
    l = place ++ [directory] ++ [name] := by
  rw [h.find_grandchild hn hm hu hv] at hfind
  cases hc : checkPath ((root.join directory).join name) with
  | error e =>
    rw [hc] at hfind
    cases hfind
  | ok _ =>
    simp only [hc, Except.bind] at hfind
    split at hfind
    · cases hfind
    · split at hfind
      · cases hfind
      · split at hfind
        · cases hfind
        · split at hfind <;> cases hfind
          rfl
      · cases hfind

/-- What is read two names down depends on what is there and on what is on the way. -/
theorem Leads.content_congr (h : Leads d root place) (h' : Leads d' root place)
    (hn : IsEntryName directory) (hm : IsEntryName name) (hu : Unlinked d (place ++ [directory]))
    (hv : Unlinked d (place ++ [directory] ++ [name]))
    (hhouse : d'.get? (place ++ [directory]) = d.get? (place ++ [directory]))
    (hspot : d'.get? (place ++ [directory] ++ [name]) = d.get? (place ++ [directory] ++ [name])) :
    d'.content ((root.join directory).join name) = d.content ((root.join directory).join name) := by
  have hu' : Unlinked d' (place ++ [directory]) := fun target ht => hu target (hhouse ▸ ht)
  have hv' : Unlinked d' (place ++ [directory] ++ [name]) := fun target ht => hv target (hspot ▸ ht)
  have hsame : d'.find ((root.join directory).join name) = d.find ((root.join directory).join name) := by
    rw [h.find_grandchild hn hm hu hv, h'.find_grandchild hn hm hu' hv', hhouse, hspot]
  unfold Disk.content
  rw [hsame]
  cases hfind : d.find ((root.join directory).join name) with
  | error e => rfl
  | ok l =>
    obtain rfl := h.find_grandchild_eq hn hm hu hv hfind
    simp only [bind, Except.bind, hspot]

theorem content_unchecked {e : SystemError} (h : checkPath p = .error e) : d.content p = .error e := by
  unfold Disk.content find resolve
  rw [h]
  rfl

theorem fromUTF8?_toUTF8 (s : String) : String.fromUTF8? s.toUTF8 = some s := by
  have hvalid : s.toUTF8.IsValidUTF8 := s.isValidUTF8
  rw [String.fromUTF8?, dif_pos hvalid]
  rfl

theorem text_of_content {s : String} (h : d.content p = .ok s.toUTF8) : d.text p = .ok s := by
  unfold Disk.text
  rw [h]
  simp only [bind, Except.bind, fromUTF8?_toUTF8]

theorem content_of_text {text : String} (h : d.text p = .ok text) :
    d.content p = .ok text.toUTF8 := by
  unfold Disk.text at h
  cases hc : d.content p with
  | error e =>
    rw [hc] at h
    cases h
  | ok content =>
    rw [hc] at h
    dsimp only [bind, Except.bind] at h
    split at h
    · rename_i s hs
      cases h
      unfold String.fromUTF8? at hs
      split at hs
      · cases hs
        rfl
      · cases hs
    · cases h

theorem isFile_eq_content : d.isFile p = true ↔ ∃ content, d.content p = .ok content := by
  rw [isFile_iff]
  constructor
  · rintro ⟨l, content, hl, hfile⟩
    exact ⟨content, content_eq_ok.mpr ⟨l, hl, hfile⟩⟩
  · rintro ⟨content, h⟩
    obtain ⟨l, hl, hfile⟩ := content_eq_ok.mp h
    exact ⟨l, content, hl, hfile⟩

/-! ## Removing -/

/-- The second tree is the first without the places that are gone. -/
structure Removes (gone : Location → Prop) (d d' : Disk) : Prop where
  home : d'.home = d.home
  sound : d'.Sound
  none_of : ∀ {l : Location}, gone l → d'.get? l = none
  kept : ∀ {l : Location}, ¬ gone l → d'.get? l = d.get? l

variable {gone gone' : Location → Prop}

theorem removes_nothing (hd : d.Sound) : Removes (fun _ => False) d d :=
  ⟨rfl, hd, False.elim, fun _ => rfl⟩

theorem removes_drop (hd : d.Sound) (hne : place ≠ [])
    (hempty : ∀ name, d.get? (place ++ [name]) = none) : Removes (· = place) d (d.drop place) := by
  have hget := fun l => get?_drop d place l hne
  refine ⟨rfl, hd.drop hne hempty, fun {l} hl => ?_, fun {l} hl => ?_⟩
  · rw [hget, if_pos hl]
  · rw [hget, if_neg hl]

theorem Removes.trans (h : Removes gone d d') (h' : Removes gone' d' d'') :
    Removes (fun l => gone l ∨ gone' l) d d'' := by
  refine ⟨h'.home.trans h.home, h'.sound, fun {l} hl => ?_, fun {l} hl => ?_⟩
  · by_cases hg : gone' l
    · exact h'.none_of hg
    · rw [h'.kept hg, h.none_of (hl.resolve_right hg)]
  · rw [not_or] at hl
    rw [h'.kept hl.2, h.kept hl.1]

/-- Which places are gone may be told in another way, if only of those where something was. -/
theorem Removes.congr (h : Removes gone d d')
    (hsame : ∀ l e, d.get? l = some e → (gone l ↔ gone' l)) : Removes gone' d d' := by
  refine ⟨h.home, h.sound, fun {l} hl => ?_, fun {l} hl => ?_⟩
  · by_cases hg : gone l
    · exact h.none_of hg
    · rw [h.kept hg]
      cases hd : d.get? l with
      | none => rfl
      | some e => exact absurd ((hsame l e hd).mpr hl) hg
  · cases hd : d.get? l with
    | none =>
      by_cases hg : gone l
      · exact h.none_of hg
      · rw [h.kept hg, hd]
    | some e => rw [h.kept fun hg => hl ((hsame l e hd).mp hg), hd]

theorem Removes.get?_eq_some {e : Entry} (h : Removes gone d d') :
    d'.get? l = some e ↔ d.get? l = some e ∧ ¬ gone l := by
  by_cases hg : gone l
  · rw [h.none_of hg]
    simp [hg]
  · rw [h.kept hg]
    simp [hg]

theorem Removes.agreesOutside (h : Removes gone d d') (hin : ∀ l, gone l → Inside place l) :
    AgreesOutside place d d' :=
  ⟨h.home, fun {l} hl => h.kept fun hg => hl (hin l hg)⟩

theorem Removes.unlinked (h : Removes gone d d') (hu : Unlinked d l) : Unlinked d' l := fun target ht =>
  hu target (h.get?_eq_some.mp ht).1

/-- Below a place that is no directory nothing is. -/
theorem Sound.nothing_in (hd : d.Sound) {e : Entry} (h : d.get? place = some e)
    (hfile : e ≠ .directory) (name : String) : d.get? (place ++ [name]) = none := by
  refine hd.nothing_below ?_ (inside_child place name)
  rw [h]
  simpa using hfile

/-! ## Listing -/

theorem Leads.listing_eq (h : Leads d root place) (hc : checkPath root = .ok ()) :
    d.listing root = .ok
      ⟨((d.children place).filter fun x => x.2 != .directory).map fun x => root.join x.1,
        ((d.children place).filter fun x => x.2 == .directory).map fun x => root.join x.1⟩ := by
  unfold listing
  rw [h.find_eq hc]
  simp only [h.directory]

/-- What a listing names as a file is the path joined with a name that an entry can have. -/
theorem mem_files_of_listing (hd : d.Sound) {found : Listing} (h : d.listing p = .ok found)
    {q : Path} (hq : q ∈ found.files) : ∃ name, IsEntryName name ∧ q = p.join name := by
  unfold listing at h
  cases hf : d.find p with
  | error e => rw [hf] at h; cases h
  | ok place =>
    rw [hf] at h
    simp only at h
    split at h
    · cases h
      obtain ⟨⟨name, e⟩, hmem, rfl⟩ := List.mem_map.mp hq
      have hchild := (hd.mem_children).mp (List.mem_of_mem_filter hmem)
      exact ⟨name, (hd.named hchild).toIsEntryName, rfl⟩
    · cases h
      cases hq

/-- A listing without files and directories is that of an empty directory. -/
theorem Leads.listing_isEmpty (hd : d.Sound) (h : Leads d root place) (hc : checkPath root = .ok ())
    {found : Listing} (hlist : d.listing root = .ok found) :
    (found.files.isEmpty && found.directories.isEmpty) = true ↔
      ∀ name, d.get? (place ++ [name]) = none := by
  rw [h.listing_eq hc] at hlist
  cases hlist
  rw [← hd.children_isEmpty]
  simp only [List.isEmpty_map, Bool.and_eq_true, List.isEmpty_iff]
  constructor
  · rintro ⟨hfiles, hdirs⟩
    rw [List.filter_eq_nil_iff] at hfiles hdirs
    rw [List.eq_nil_iff_forall_not_mem]
    intro x hx
    exact hdirs x hx (by simpa using hfiles x hx)
  · intro hno
    rw [hno]
    exact ⟨rfl, rfl⟩

end StubListing.Disk
