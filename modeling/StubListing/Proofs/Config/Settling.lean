import StubListing.Config.Basic
import StubListing.Proofs.Occurrences
import StubListing.Proofs.Path.Segments
/-!
# Checking settings in place

The check goes through the namespaces once and may end at any of them. What it keeps on the way are the
namespaces read so far, each where it first stands, and the settings get them when all have been read. So
settings that are refused stay as they are, and settings that are accepted lose repetitions and nothing
else.
-/
namespace StubListing.Config

/-! ## Namespaces without repetitions -/

/-- The names of the one list are those of the other, each once and in the order in which they first
occur there. -/
structure Collapsed (names kept : List String) : Prop where
  distinct : kept.Nodup
  members : ∀ name, name ∈ kept ↔ name ∈ names
  ordered : kept.Pairwise fun a b => names.idxOf a < names.idxOf b

theorem collapsed_eraseDups (names : List String) : Collapsed names names.eraseDups :=
  ⟨nodup_eraseDups names, fun _ => List.mem_eraseDups, pairwise_eraseDups names⟩

/-! ## What each part of the check does -/

namespace Checking

variable {α β : Type}

/-- How the part ends, and what it leaves. -/
def ending (part : Checking α) (r : Review) : Except Fault α × Review := part.run.run r

theorem ending_bind (part : Checking α) (next : α → Checking β) (r : Review) :
    ending (part >>= next) r =
      match ending part r with
      | (.ok a, r₁) => ending (next a) r₁
      | (.error fault, r₁) => (.error fault, r₁) := by
  unfold ending
  rw [ExceptT.run_bind, StateT.run_bind]
  rcases part.run.run r with ⟨_ | a, r₁⟩ <;> rfl

end Checking

open Checking

/-- The first name that cannot name a directory. -/
def badName? (names : List String) : Option String := names.find? fun name => !Path.isFileName name

/-- One more name is read: what is kept stays what has been read, with nothing twice. -/
theorem ending_keep (front : List String) (name : String) (r : Review) :
    ∃ more, ending (keep front.eraseDups name) r =
      (if Path.isFileName name = true then .ok (front ++ [name]).eraseDups
        else .error (.badNamespace name), ⟨r.settings, r.warnings ++ more⟩) := by
  unfold keep
  by_cases hname : Path.isFileName name = true
  · rw [eraseDups_concat, hname]
    by_cases hm : name ∈ front
    · have hkept : front.eraseDups.contains name = true := by simpa using hm
      rw [hkept, if_pos hm]
      exact ⟨_, rfl⟩
    · have hkept : front.eraseDups.contains name = false := by simpa using hm
      rw [hkept, if_neg hm]
      exact ⟨[], by rw [List.append_nil]; rfl⟩
  · have hbad : Path.isFileName name = false := Bool.eq_false_iff.mpr hname
    rw [hbad]
    exact ⟨[], by rw [List.append_nil]; rfl⟩

/-- The whole loop: it ends at the first bad name, or with all names once, and in neither case are the
settings touched. -/
theorem ending_foldlM_keep (front rest : List String) (r : Review) :
    ∃ more, ending (rest.foldlM keep front.eraseDups) r =
      (match badName? rest with
        | some name => .error (.badNamespace name)
        | none => .ok (front ++ rest).eraseDups, ⟨r.settings, r.warnings ++ more⟩) := by
  induction rest generalizing front r with
  | nil => exact ⟨[], by rw [List.append_nil, List.append_nil]; rfl⟩
  | cons name rest ih =>
    obtain ⟨first, hfirst⟩ := ending_keep front name r
    rw [List.foldlM_cons, ending_bind, hfirst]
    by_cases hname : Path.isFileName name = true
    · obtain ⟨more, hmore⟩ := ih (front ++ [name]) ⟨r.settings, r.warnings ++ first⟩
      have hnext : badName? (name :: rest) = badName? rest := by simp [badName?, hname]
      refine ⟨first ++ more, ?_⟩
      rw [if_pos hname, hnext]
      simpa [List.append_assoc] using hmore
    · have hbad : badName? (name :: rest) = some name := by simp [badName?, hname]
      rw [if_neg hname, hbad]
      exact ⟨first, rfl⟩

/-- What is wrong with the settings, the first thing first. -/
def fault? (c : Config) : Option Fault :=
  c.firstFault?.or ((badName? c.namespaces).map .badNamespace)

/-- The check as a whole. -/
theorem ending_settle (c : Config) (warnings : List String) :
    ∃ more, ending settle ⟨c, warnings⟩ =
      match c.fault? with
      | some fault => (.error fault, ⟨c, warnings ++ more⟩)
      | none => (.ok (), ⟨{ c with namespaces := c.namespaces.eraseDups }, warnings ++ more⟩) := by
  have hstart : ending settle ⟨c, warnings⟩ = ending (match c.firstFault? with
      | some fault => throw fault
      | none => do
        let kept ← c.namespaces.foldlM keep []
        setNamespaces kept
        if kept.isEmpty then warn "No namespaces configured, nothing will be generated")
      ⟨c, warnings⟩ := rfl
  rw [hstart, fault?]
  cases hfirst : c.firstFault? with
  | some fault => exact ⟨[], by rw [List.append_nil]; rfl⟩
  | none =>
    obtain ⟨more, hmore⟩ := ending_foldlM_keep [] c.namespaces ⟨c, warnings⟩
    rw [List.eraseDups_nil, List.nil_append] at hmore
    dsimp only
    rw [ending_bind, hmore, Option.none_or]
    cases badName? c.namespaces with
    | some name => exact ⟨more, rfl⟩
    | none =>
      dsimp only [Option.map_none]
      cases hempty : c.namespaces.eraseDups.isEmpty with
      | true => exact ⟨more ++ _, by rw [← List.append_assoc]; rfl⟩
      | false => exact ⟨more, rfl⟩

/-! ## What is accepted -/

/-- Settings that can be used, character by character. -/
structure Acceptable (c : Config) : Prop where
  module : ∃ x ∈ c.module.toList, Text.isBlank x = false
  extension : c.fileExtension ≠ "" ∧
    ∀ x ∈ c.fileExtension.toList, x ≠ '/' ∧ x ≠ '\\' ∧ x ≠ '.'
  threads : c.threads ≠ some 0
  namespaces : ∀ name ∈ c.namespaces, name ≠ "" ∧ name ≠ "." ∧ name ≠ ".." ∧
    ∀ x ∈ name.toList, x ≠ '/' ∧ x ≠ '\\' ∧ x ≠ '\x00'

variable {c c' : Config} {warnings : List String}

theorem allBlank_eq_false_iff {text : String} :
    Text.allBlank text = false ↔ ∃ x ∈ text.toList, Text.isBlank x = false := by
  simp [Text.allBlank]

theorem isExtension_iff {extension : String} :
    isExtension extension = true ↔
      extension ≠ "" ∧ ∀ x ∈ extension.toList, x ≠ '/' ∧ x ≠ '\\' ∧ x ≠ '.' := by
  simp [isExtension, and_assoc]

theorem firstFault?_eq_none_iff :
    c.firstFault? = none ↔
      Text.allBlank c.module = false ∧ isExtension c.fileExtension = true ∧ c.threads ≠ some 0 := by
  unfold firstFault?
  cases Text.allBlank c.module <;> cases isExtension c.fileExtension <;> simp

theorem badName?_eq_none_iff {names : List String} :
    badName? names = none ↔ ∀ name ∈ names, Path.isFileName name = true := by
  simp [badName?]

theorem fault?_eq_none_iff : c.fault? = none ↔ c.Acceptable := by
  rw [fault?, Option.or_eq_none_iff, Option.map_eq_none_iff, firstFault?_eq_none_iff,
    badName?_eq_none_iff, allBlank_eq_false_iff, isExtension_iff]
  simp only [Path.isFileName_iff]
  constructor
  · rintro ⟨⟨hmodule, hextension, hthreads⟩, hnames⟩
    exact ⟨hmodule, hextension, hthreads, hnames⟩
  · rintro ⟨hmodule, hextension, hthreads, hnames⟩
    exact ⟨⟨hmodule, hextension, hthreads⟩, hnames⟩

/-- Settings that pass the check are valid. -/
theorem valid_of_validate (h : c.validate = (warnings, .ok c')) : c'.Valid := by
  obtain ⟨more, hending⟩ := ending_settle c []
  have hrun : settle.run.run ⟨c, []⟩ = _ := hending
  unfold validate at h
  rw [hrun] at h
  cases hfault : c.fault? with
  | some fault =>
    rw [hfault] at h
    cases h
  | none =>
    rw [hfault] at h
    cases h
    obtain ⟨hfirst, hnames⟩ := Option.or_eq_none_iff.mp hfault
    have hnames := badName?_eq_none_iff.mp (Option.map_eq_none_iff.mp hnames)
    exact ⟨hfirst, fun name hm => hnames name (List.mem_eraseDups.mp hm),
      (collapsed_eraseDups c.namespaces).distinct⟩

/-- Checking settings that have been accepted changes nothing. -/
theorem ending_settle_again (h : c.fault? = none) (warnings : List String) :
    ∃ more, ending settle ⟨{ c with namespaces := c.namespaces.eraseDups }, warnings⟩ =
      (.ok (), ⟨{ c with namespaces := c.namespaces.eraseDups }, more⟩) := by
  have hcollapsed := collapsed_eraseDups c.namespaces
  obtain ⟨more, hending⟩ :=
    ending_settle { c with namespaces := c.namespaces.eraseDups } warnings
  have hagain : ({ c with namespaces := c.namespaces.eraseDups } : Config).fault? = none := by
    obtain ⟨hmodule, hextension, hthreads, hnames⟩ := fault?_eq_none_iff.mp h
    exact fault?_eq_none_iff.mpr ⟨hmodule, hextension, hthreads,
      fun name hm => hnames name ((hcollapsed.members name).mp hm)⟩
  rw [hagain] at hending
  refine ⟨warnings ++ more, ?_⟩
  rw [hending]
  simp only [eraseDups_of_nodup hcollapsed.distinct]

/-- The check succeeds exactly on settings that can be used. Then nothing is changed but that every
namespace stands once, where it first stood, and another check succeeds and changes nothing; otherwise
all settings stay as they were. -/
theorem settle_exact (c : Config) (warnings : List String) :
    ((ending settle ⟨c, warnings⟩).1 = .ok () ↔ c.Acceptable) ∧
      match ending settle ⟨c, warnings⟩ with
      | (.ok _, after) =>
        after.settings = { c with namespaces := after.settings.namespaces } ∧
          Collapsed c.namespaces after.settings.namespaces ∧
          ∀ earlier, ∃ later,
            ending settle ⟨after.settings, earlier⟩ = (.ok (), ⟨after.settings, later⟩)
      | (.error _, after) => after.settings = c := by
  obtain ⟨more, hending⟩ := ending_settle c warnings
  rw [hending, ← fault?_eq_none_iff]
  cases hfault : c.fault? with
  | some fault => simp
  | none => exact ⟨by simp, rfl, collapsed_eraseDups c.namespaces, ending_settle_again hfault⟩

/-- Settings with repetitions lose them, and keep them when a name that is none follows. -/
theorem settle_exact_of_repeated :
    let named (namespaces : List String) : Config := { standard with namespaces }
    (named ["UI", "Game", "UI"]).Acceptable ∧
      ending settle ⟨named ["UI", "Game", "UI"], []⟩ =
        (.ok (), ⟨named ["UI", "Game"], ["Duplicate namespace 'UI' ignored"]⟩) ∧
      ¬ (named ["UI", "Game", "UI", "a/b", "UI"]).Acceptable ∧
      ending settle ⟨named ["UI", "Game", "UI", "a/b", "UI"], []⟩ =
        (.error (.badNamespace "a/b"), ⟨named ["UI", "Game", "UI", "a/b", "UI"],
          ["Duplicate namespace 'UI' ignored"]⟩) := by
  intro named
  have hkept : ending settle ⟨named ["UI", "Game", "UI"], []⟩ =
      (.ok (), ⟨named ["UI", "Game"], ["Duplicate namespace 'UI' ignored"]⟩) := by decide +kernel
  have hrefused : ending settle ⟨named ["UI", "Game", "UI", "a/b", "UI"], []⟩ =
      (.error (.badNamespace "a/b"), ⟨named ["UI", "Game", "UI", "a/b", "UI"],
        ["Duplicate namespace 'UI' ignored"]⟩) := by decide +kernel
  obtain ⟨hgood, -⟩ := settle_exact (named ["UI", "Game", "UI"]) []
  obtain ⟨hbad, -⟩ := settle_exact (named ["UI", "Game", "UI", "a/b", "UI"]) []
  rw [hkept] at hgood
  rw [hrefused] at hbad
  refine ⟨hgood.mp rfl, hkept, fun h => ?_, hrefused⟩
  cases hbad.mpr h

end StubListing.Config
