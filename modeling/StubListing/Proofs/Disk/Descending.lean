import Mathlib.Data.List.Nodup
import Mathlib.Data.List.Perm.Subperm
import Mathlib.Data.List.Sort
import StubListing.Disk.Walk
import StubListing.Proofs.Disk.Leads
import StubListing.Proofs.Path.Descending
/-!
# Walks down a tree

Where no link lies below a directory, a walk goes down from name to name, and each file below has one
way to it. A walk that opens every directory meets each file once; a directory whose path is too long
to be opened ends it, and nothing else does.
-/
namespace StubListing

namespace Disk
open StubListing.Path

variable {d : Disk} {p : Path} {place : Location}

/-- There is a file at the location. -/
def HasFile (d : Disk) (place : Location) : Prop := ∃ content, d.get? place = some (.file content)

theorem Sound.isStorable_below (hd : d.Sound) {names : List String} {e : Entry}
    (h : d.get? (place ++ names) = some e) : ∀ name ∈ names, IsStorable name := by
  induction names generalizing place with
  | nil => simp
  | cons name rest ih =>
    rw [List.append_cons] at h
    have hname : ∃ e, d.get? (place ++ [name]) = some e := by
      cases rest with
      | nil => exact ⟨e, by simpa using h⟩
      | cons next more => exact ⟨.directory, hd.directory_above _ (by simp) h⟩
    exact List.forall_mem_cons.mpr ⟨hname.elim fun _ hn => hd.named hn, ih h⟩

/-- No location that is occupied has more names than the tree has entries: each of its front parts is
an entry of its own. -/
theorem Sound.length_le (hd : d.Sound) {e : Entry} (h : d.get? place = some e) :
    place.length ≤ d.entries.length := by
  have hfront : ∀ k < place.length, place.take (k + 1) ∈ d.entries.map (·.1) := by
    intro k hk
    have hthere : ∃ e, d.get? (place.take (k + 1)) = some e := by
      by_cases hdrop : place.drop (k + 1) = []
      · exact ⟨e, by rwa [List.take_of_length_le (List.drop_eq_nil_iff.mp hdrop)]⟩
      · exact ⟨_, hd.directory_above _ hdrop (by rwa [List.take_append_drop])⟩
    obtain ⟨e, he⟩ := hthere
    have hne : place.take (k + 1) ≠ [] := by
      intro hnil
      rcases List.take_eq_nil_iff.mp hnil with hzero | rfl
      · omega
      · simp at hk
    rw [get?, if_neg hne, lookup_eq_some_iff_mem hd.distinct] at he
    exact List.mem_map_of_mem he
  have hnodup : ((List.range place.length).map fun k => place.take (k + 1)).Nodup := by
    refine List.Nodup.map_on (fun a ha b hb hab => ?_) List.nodup_range
    have := congrArg List.length hab
    simp only [List.length_take] at this
    simp only [List.mem_range] at ha hb
    omega
  have hsub : ((List.range place.length).map fun k => place.take (k + 1)) ⊆ d.entries.map (·.1) := by
    intro l hl
    obtain ⟨k, hk, rfl⟩ := List.mem_map.mp hl
    exact hfront k (List.mem_range.mp hk)
  simpa using (List.subperm_of_subset hnodup hsub).length_le

/-- The path of every directory from here on down is one that the system takes. -/
def Openable (d : Disk) (p : Path) (place : Location) : Prop :=
  ∀ names, d.get? (place ++ names) = some .directory → (p.descend names).text.utf8ByteSize < pathLimit

/-- What a walk over the chosen part below a directory comes to. Either every directory there has a path
that can be opened, and each file there is met once; or the path of one is too long. -/
inductive Walked (d : Disk) (p : Path) (place : Location) (chosen : List String → Prop) :
    Except WalkError (List Path) → Prop
  | listed {found : List (List String)} (once : found.Nodup)
      (exact : ∀ names, names ∈ found ↔ chosen names ∧ d.HasFile (place ++ names))
      (short : ∀ names, chosen names → d.get? (place ++ names) = some .directory →
        (p.descend names).text.utf8ByteSize < pathLimit) :
      Walked d p place chosen (.ok (found.map p.descend))
  | refused {names : List String} (among : chosen names)
      (directory : d.get? (place ++ names) = some .directory)
      (long : pathLimit ≤ (p.descend names).text.utf8ByteSize) :
      Walked d p place chosen (.error (.system (p.descend names) .nameTooLong))

namespace Walked

variable {chosen others : List String → Prop} {r r' : Except WalkError (List Path)}

theorem congr (h : Walked d p place chosen r)
    (hsame : ∀ names e, d.get? (place ++ names) = some e → (chosen names ↔ others names)) :
    Walked d p place others r := by
  cases h with
  | listed once exact short =>
    refine .listed once (fun names => ?_) fun names hn hdir => short names ((hsame _ _ hdir).mpr hn) hdir
    rw [exact]
    exact and_congr_left fun ⟨_, hfile⟩ => hsame _ _ hfile
  | refused among directory long => exact .refused ((hsame _ _ directory).mp among) directory long

/-- Seen from the directory above, everything is one name further down. -/
theorem below {name : String} (h : Walked d (p.join name) (place ++ [name]) (fun _ => True) r) :
    Walked d p place (fun names => ∃ rest, names = name :: rest) r := by
  cases h with
  | @listed found once exact short =>
    have hmap : found.map (p.join name).descend = (found.map (name :: ·)).map p.descend := by simp
    rw [hmap]
    refine .listed (once.map fun _ _ h => (List.cons.inj h).2) (fun names => ?_) ?_
    · simp only [List.mem_map, exact, true_and, List.append_assoc, List.singleton_append]
      constructor
      · rintro ⟨rest, hfile, rfl⟩
        exact ⟨⟨rest, rfl⟩, hfile⟩
      · rintro ⟨⟨rest, rfl⟩, hfile⟩
        exact ⟨rest, hfile, rfl⟩
    · rintro _ ⟨rest, rfl⟩ hdir
      exact short rest trivial (by simpa using hdir)
  | @refused names _ directory long =>
    rw [← descend_cons] at long ⊢
    exact .refused ⟨names, rfl⟩ (by simpa using directory) long

/-- One part after the other, where the two have nothing in common. -/
theorem both (h : Walked d p place chosen r) (h' : Walked d p place others r')
    (hapart : ∀ names, chosen names → ¬ others names) :
    Walked d p place (fun names => chosen names ∨ others names)
      (do let first ← r; let more ← r'; pure (first ++ more)) := by
  cases h with
  | refused among directory long => exact .refused (Or.inl among) directory long
  | @listed found once exact short =>
    cases h' with
    | refused among directory long => exact .refused (Or.inr among) directory long
    | @listed found' once' exact' short' =>
      have hmap : found.map p.descend ++ found'.map p.descend = (found ++ found').map p.descend := by
        simp
      change Walked d p place _ (.ok (found.map p.descend ++ found'.map p.descend))
      rw [hmap]
      refine .listed (once.append once' fun names hm hm' => ?_) (fun names => ?_) ?_
      · exact hapart names ((exact names).mp hm).1 ((exact' names).mp hm').1
      · rw [List.mem_append, exact, exact', or_and_right]
      · rintro names (hn | hn) hdir
        · exact short names hn hdir
        · exact short' names hn hdir

end Walked

/-! ## Steps of the walk -/

theorem checkPath_of_noNull (hnull : '\x00' ∉ p.text.toList) (hne : p.text ≠ "") :
    checkPath p = if p.text.utf8ByteSize < pathLimit then .ok () else .error .nameTooLong := by
  by_cases hlen : p.text.utf8ByteSize < pathLimit
  · rw [if_pos hlen, checkPath_eq_ok.mpr ⟨hnull, hne, hlen⟩]
  · rw [if_neg hlen]
    simp [checkPath, hnull, hne, Nat.not_lt.mp hlen]

theorem noNull_join {name : String} (hnull : '\x00' ∉ p.text.toList) (h : IsStorable name) :
    '\x00' ∉ (p.join name).text.toList := by
  intro hm
  rcases mem_text_join _ h.toIsEntryName hm with hm | hm | hm
  · exact hnull hm
  · exact absurd hm (by decide)
  · exact h.noNull hm

/-- A file is all that is met at its own location. -/
theorem Sound.walked_file (hd : d.Sound) {content : ByteArray}
    (h : d.get? place = some (.file content)) : Walked d p place (fun _ => True) (.ok [p]) := by
  have hbelow : ∀ {names : List String} {e : Entry}, d.get? (place ++ names) = some e → names = [] := by
    intro names e he
    by_contra hne
    rw [hd.directory_above place hne he] at h
    cases h
  have hself : [p] = [([] : List String)].map p.descend := rfl
  rw [hself]
  refine .listed (by simp) (fun names => ?_) fun names _ hdir => ?_
  · rw [List.mem_singleton, true_and]
    exact ⟨fun hn => ⟨content, by rw [hn, List.append_nil, h]⟩, fun ⟨_, hfile⟩ => hbelow hfile⟩
  · rw [hbelow hdir, List.append_nil, h] at hdir
    cases hdir

/-- A directory is opened, and then its children are walked through. -/
theorem Sound.walked_directory (hd : d.Sound) (hdir : d.get? place = some .directory)
    (hnull : '\x00' ∉ p.text.toList) (hne : p.text ≠ "") {r : Except WalkError (List Path)}
    (h : Walked d p place
      (fun names => ∃ name ∈ (d.children place).map (·.1), ∃ rest, names = name :: rest) r) :
    Walked d p place (fun _ => True)
      (match checkPath p with
        | .error e => .error (.system p e)
        | .ok () => r) := by
  rw [checkPath_of_noNull hnull hne]
  by_cases hlen : p.text.utf8ByteSize < pathLimit
  · rw [if_pos hlen]
    have hchild : ∀ {name : String} {rest : List String} {e : Entry},
        d.get? (place ++ name :: rest) = some e → name ∈ (d.children place).map (·.1) := by
      intro name rest e he
      rw [List.append_cons] at he
      have : ∃ e, d.get? (place ++ [name]) = some e := by
        by_cases hrest : rest = []
        · exact ⟨e, by simpa [hrest] using he⟩
        · exact ⟨_, hd.directory_above _ hrest he⟩
      obtain ⟨e', he'⟩ := this
      exact List.mem_map.mpr ⟨(name, e'), hd.mem_children.mpr he', rfl⟩
    cases h with
    | @listed found once exact short =>
      refine .listed once (fun names => ?_) fun names _ hthere => ?_
      · rw [exact, true_and]
        refine and_iff_right_of_imp fun ⟨content, hfile⟩ => ?_
        cases names with
        | nil =>
          rw [List.append_nil, hdir] at hfile
          cases hfile
        | cons name rest => exact ⟨name, hchild hfile, rest, rfl⟩
      · cases names with
        | nil => exact hlen
        | cons name rest => exact short _ ⟨name, hchild hthere, rest, rfl⟩ hthere
    | refused among directory long => exact .refused trivial directory long
  · rw [if_neg hlen]
    rw [← descend_nil p] at hlen ⊢
    exact .refused trivial (by rwa [List.append_nil]) (Nat.not_lt.mp hlen)

theorem length_children_le (d : Disk) (directory : Location) :
    (d.children directory).length ≤ d.entries.length := by
  rw [children, (orderByName_perm _).length_eq]
  exact List.length_filterMap_le _ _

/-- No directory has been walked through where the walk starts. -/
theorem filesAt_start (d : Disk) (n : Nat) (p : Path) (place : Location) (linked : Bool) :
    d.filesAt n [] p place linked = d.filesAt n [] p place false := by
  cases n with
  | zero => rfl
  | succ n =>
    simp only [filesAt]
    cases linked <;> rfl

/-- The children are walked through one after the other, if each of them is. -/
theorem walked_among {trail : List Crumb} {listed : List (String × Entry)}
    (hfree : ∀ x ∈ listed, ∀ target, x.2 ≠ .link target) (honce : (listed.map (·.1)).Nodup) {n : Nat}
    (hn : listed.length < n)
    (h : ∀ x ∈ listed, ∀ m, n ≤ m + listed.length + 1 →
      Walked d (p.join x.1) (place ++ [x.1]) (fun _ => True)
        (d.filesAt m trail (p.join x.1) (place ++ [x.1]) false)) :
    Walked d p place (fun names => ∃ name ∈ listed.map (·.1), ∃ rest, names = name :: rest)
      (d.filesAmong n trail p place listed) := by
  induction listed generalizing n with
  | nil =>
    obtain ⟨n, rfl⟩ := Nat.exists_eq_succ_of_ne_zero (by omega : n ≠ 0)
    have hnone : d.filesAmong (n + 1) trail p place [] = .ok (([] : List (List String)).map p.descend) :=
      rfl
    rw [hnone]
    exact .listed (by simp) (by simp) (by simp)
  | cons x more ih =>
    obtain ⟨name, e⟩ := x
    obtain ⟨n, rfl⟩ := Nat.exists_eq_succ_of_ne_zero (by omega : n ≠ 0)
    rw [List.map_cons, List.nodup_cons] at honce
    have hfirst := (h (name, e) (by simp) n (by simp)).below
    have hmore := ih (fun x hx => hfree x (by simp [hx])) honce.2 (n := n)
      (by simpa using hn) fun x hx m hm => h x (by simp [hx]) m (by simp; omega)
    have hboth := hfirst.both hmore (by
      rintro _ ⟨rest, rfl⟩ ⟨other, hother, rest', heq⟩
      obtain rfl := (List.cons.inj heq).1
      exact honce.1 hother)
    have hstep : d.filesAmong (n + 1) trail p place ((name, e) :: more) =
        (do
          let first ← d.filesAt n trail (p.join name) (place ++ [name]) false
          let others ← d.filesAmong n trail p place more
          pure (first ++ others)) := by
      cases e with
      | link target => exact absurd rfl (hfree (name, .link target) (by simp) target)
      | directory => rfl
      | file content => rfl
    rw [hstep]
    refine hboth.congr fun names _ _ => ?_
    simp only [List.map_cons, List.mem_cons, exists_eq_or_imp]

/-- Where no link is, the walk from a location goes down only, and the tree is nowhere higher than it has
entries. -/
theorem Sound.walked_filesAt (hd : d.Sound) (height : Nat) :
    ∀ {n : Nat} {trail : List Crumb} {p : Path} {place : Location} {e : Entry},
      d.get? place = some e → Unlinked d place → (∀ l, Inside place l → Unlinked d l) →
        '\x00' ∉ p.text.toList → p.text ≠ "" → d.entries.length < place.length + height →
          height * (d.entries.length + 3) ≤ n →
            Walked d p place (fun _ => True) (d.filesAt n trail p place false) := by
  induction height with
  | zero =>
    intro n trail p place e hthere _ _ _ _ hlow
    have := hd.length_le hthere
    omega
  | succ height ih =>
    intro n trail p place e hthere hlink hfree hnull hne hlow hn
    rw [Nat.add_mul] at hn
    obtain ⟨n, rfl⟩ := Nat.exists_eq_succ_of_ne_zero (by omega : n ≠ 0)
    have hchildren := d.length_children_le place
    cases e with
    | link target => exact absurd hthere (hlink target)
    | file content =>
      rw [filesAt, hthere]
      exact hd.walked_file hthere
    | directory =>
      have hstep : d.filesAt (n + 1) trail p place false =
          match checkPath p with
          | .error e => .error (.system p e)
          | .ok () => d.filesAmong n ((p, place) :: trail) p place (d.children place) := by
        rw [filesAt, hthere]
        rfl
      rw [hstep]
      refine hd.walked_directory hthere hnull hne ?_
      have hchild : ∀ x ∈ d.children place, d.get? (place ++ [x.1]) = some x.2 :=
        fun x hx => hd.mem_children.mp hx
      refine walked_among (fun x hx target hlinked => ?_) (hd.nodup_children place) (by omega)
        fun x hx m hm => ?_
      · exact hfree _ (inside_child _ x.1) target (hlinked ▸ hchild x hx)
      · have hname := hd.named (hchild x hx)
        refine ih (hchild x hx) (hfree _ (inside_child _ x.1)) ?_ (noNull_join hnull hname)
          (text_join_ne_empty p hname.toIsEntryName) (by simp; omega) (by omega)
        rintro _ ⟨next, rest, rfl⟩
        exact hfree _ ⟨x.1, next :: rest, by simp⟩

/-- What the walk below a path comes to, where the path leads to a directory without links. -/
theorem Sound.walked_filesBelow (hd : d.Sound) (hfind : d.find p = .ok place)
    (hdir : d.get? place = some .directory) (hfree : ∀ l, Inside place l → Unlinked d l) :
    Walked d p place (fun _ => True) (d.filesBelow p) := by
  obtain ⟨hnull, hne, -⟩ := checkPath_eq_ok.mp (find_eq_ok.mp hfind).1
  have hsame : d.filesBelow p = d.filesAt d.walkFuel [] p place false := by
    rw [filesBelow, hfind]
    exact d.filesAt_start _ _ _ _
  rw [hsame]
  refine hd.walked_filesAt (d.entries.length + 1) hdir (unlinked_of_directory hdir) hfree hnull hne
    (by omega) ?_
  have hlevels : d.entries.length + 1 ≤ (d.entries.length + 3) * (d.entries.length + 3) :=
    Nat.le_trans (by omega) (Nat.le_mul_of_pos_left _ (by omega))
  exact Nat.mul_le_mul_right _ hlevels

/-! ## The order of paths -/

/-- The order in which a path of names does not come behind another. -/
def NamesLE (a b : List String) : Prop := ¬ List.Lex (· < ·) b a

instance : DecidableRel NamesLE := fun _ _ => decidable_of_iff _ Path.notAfter_names

instance : Std.Total NamesLE := ⟨fun _ _ => by
  by_contra h
  rw [not_or, NamesLE, NamesLE, not_not, not_not] at h
  exact List.lt_asymm (α := String) h.1 h.2⟩

instance : IsTrans (List String) NamesLE :=
  ⟨fun _ _ _ hab hbc => List.le_trans (α := String) hab hbc⟩

theorem lex_of_namesLE {a b : List String} (h : NamesLE a b) (hne : a ≠ b) : List.Lex (· < ·) a b := by
  by_contra hlex
  exact hne (List.le_antisymm (α := String) h hlex)

theorem insertPath_descend (p : Path) {names : List String} {ordered : List (List String)}
    (hnames : ∀ name ∈ names, IsEntryName name)
    (hordered : ∀ others ∈ ordered, ∀ name ∈ others, IsEntryName name) :
    insertPath (p.descend names) (ordered.map p.descend) =
      (ordered.orderedInsert NamesLE names).map p.descend := by
  induction ordered with
  | nil => rfl
  | cons next rest ih =>
    rw [List.forall_mem_cons] at hordered
    have hiff : notAfter (p.descend names).components (p.descend next).components = true ↔
        NamesLE names next := by
      rw [components_descend p hnames, components_descend p hordered.1, notAfter_append,
        notAfter_names, NamesLE]
    simp only [List.map_cons, insertPath, hiff, List.orderedInsert_cons]
    split
    · rfl
    · rw [ih hordered.2, List.map_cons]

/-- Paths below one directory are put in the order of the names that lead to them. -/
theorem orderPaths_descend (p : Path) {found : List (List String)}
    (hnames : ∀ names ∈ found, ∀ name ∈ names, IsEntryName name) :
    orderPaths (found.map p.descend) = (found.insertionSort NamesLE).map p.descend := by
  induction found with
  | nil => rfl
  | cons names more ih =>
    rw [List.forall_mem_cons] at hnames
    have hmore : ∀ others ∈ more.insertionSort NamesLE, ∀ name ∈ others, IsEntryName name :=
      fun others h => hnames.2 others ((List.perm_insertionSort _ _).mem_iff.mp h)
    calc orderPaths ((names :: more).map p.descend)
        = insertPath (p.descend names) (orderPaths (more.map p.descend)) := rfl
      _ = _ := by
        rw [ih hnames.2, insertPath_descend p hnames.1 hmore, List.insertionSort_cons]

end Disk

end StubListing
