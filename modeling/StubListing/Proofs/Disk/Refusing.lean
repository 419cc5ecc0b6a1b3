import StubListing.Files
import StubListing.Proofs.Path.Parent
/-!
# Paths with a null character

The system takes no path with a null character in it, and it complains of one only then: nothing that is
in the tree and no link on the way can make it do so. The directories above a path are spelt by parts of
its text, so providing them does not either.
-/
namespace StubListing

namespace Path
open StubListing.Text

variable {p q : Path} {x : Char}

/-- Names that are put together to a text have no characters but those and the slash. -/
theorem mem_joined {segments : List String} (h : x ∈ (joined "/" segments).toList) :
    x = '/' ∨ ∃ s ∈ segments, x ∈ s.toList := by
  induction segments with
  | nil => cases h
  | cons first rest ih =>
    cases rest with
    | nil => exact Or.inr ⟨first, List.mem_singleton_self _, h⟩
    | cons next more =>
      rw [joined_cons_cons, String.toList_append, String.toList_append, List.mem_append,
        List.mem_append] at h
      rcases h with (h | h) | h
      · exact Or.inr ⟨first, List.mem_cons_self, h⟩
      · exact Or.inl (List.mem_singleton.mp h)
      · rcases ih h with hslash | ⟨s, hs, hx⟩
        · exact Or.inl hslash
        · exact Or.inr ⟨s, List.mem_cons_of_mem _ hs, hx⟩

theorem mem_text_ofSegments {absolute : Bool} {segments : List String}
    (h : x ∈ (ofSegments absolute segments).text.toList) :
    x = '/' ∨ ∃ s ∈ segments, x ∈ s.toList := by
  unfold ofSegments at h
  split at h
  · exact Or.inl (List.mem_singleton.mp h)
  · exact mem_joined h

theorem mem_text_parent? (h : p.parent? = some q) (hx : x ∈ q.text.toList) :
    x = '/' ∨ x ∈ p.text.toList := by
  have hsub : ∀ s ∈ trimmed p.segments, s ∈ p.segments := (trimmed_isPrefix p.segments).subset
  unfold parent? at h
  split at h
  · cases h
  · split at h
    · cases h
    · cases h
      cases hx
  · rename_i first rest _ htrim
    cases h
    rcases mem_text_ofSegments hx with hslash | ⟨s, hs, hxs⟩
    · exact Or.inl hslash
    · have hs : s ∈ first :: rest.dropLast := (trimmed_isPrefix _).subset hs
      have hs : s ∈ first :: rest := List.cons_subset_cons _ (List.dropLast_subset rest) hs
      exact Or.inr (mem_of_mem_segments (hsub s (htrim ▸ hs)) hxs)

/-- The paths above one have no characters but those of the path and the slash. -/
theorem mem_text_ancestors (h : q ∈ p.ancestors) (hx : x ∈ q.text.toList) :
    x = '/' ∨ x ∈ p.text.toList := by
  suffices ∀ n (p : Path), q ∈ ancestors.go n p → x = '/' ∨ x ∈ p.text.toList from this _ p h
  intro n
  induction n with
  | zero => exact fun p h => absurd h List.not_mem_nil
  | succ n ih =>
    intro p h
    rw [ancestors.go, List.mem_cons] at h
    rcases h with rfl | h
    · exact Or.inr hx
    · cases hparent : p.parent? with
      | none =>
        rw [hparent] at h
        cases h
      | some above =>
        rw [hparent] at h
        rcases ih above h with hslash | habove
        · exact Or.inl hslash
        · exact mem_text_parent? hparent habove

theorem mem_text_join_of_mem {name : String} (h : x ∈ name.toList) :
    x ∈ (p.join name).text.toList := by
  unfold join
  split
  · exact h
  · split
    · simp [String.toList_append, h]
    · simp [String.toList_append, h]

end Path

namespace Disk

variable {α β : Type} {d : Disk} {p : Path} {place : Location}

/-- Whatever is wrong with the call, it is not a null character in a path. -/
def Admitted (answer : Except SystemError α) : Prop := answer ≠ .error .nullInPath

theorem admitted_ok (a : α) : Admitted (.ok a) := nofun

/-- What another call says is said on. -/
theorem Admitted.error {e : SystemError} {answer : Except SystemError α} (h : Admitted answer)
    (hanswer : answer = .error e) : Admitted (.error e : Except SystemError β) := by
  intro he
  cases he
  exact h hanswer

theorem Admitted.bind {answer : Except SystemError α} {next : α → Except SystemError β}
    (h : Admitted answer) (hnext : ∀ a, Admitted (next a)) : Admitted (answer >>= next) := by
  cases answer with
  | ok a => exact hnext a
  | error e => exact h.error rfl

/-! ## Looking up -/

theorem admitted_checkPath (h : '\x00' ∉ p.text.toList) : Admitted (checkPath p) := by
  have hnull : p.text.toList.contains '\x00' = false := by simpa using h
  unfold checkPath
  rw [hnull, if_neg Bool.false_ne_true]
  split
  · nofun
  · split <;> nofun

/-- Names in the tree are looked for as they are. -/
theorem admitted_advance (d : Disk) (place : Location) (steps : List String) :
    Admitted (d.advance place steps) := by
  induction steps generalizing place with
  | nil => nofun
  | cons step rest ih =>
    unfold advance
    split
    · split
      · exact ih place
      · split
        · exact ih (above place)
        · split
          · nofun
          · split
            · nofun
            · exact ih (place ++ [step])
            · split <;> nofun
    · nofun

theorem admitted_follow (d : Disk) (n : Nat) (place : Location) (steps : List String) :
    Admitted (d.follow n place steps) := by
  induction n generalizing place steps with
  | zero => nofun
  | succ n ih =>
    refine (admitted_advance d place steps).bind fun progress => ?_
    cases progress with
    | ended arrival => exact admitted_ok arrival
    | link directory target rest => exact ih _ _

theorem admitted_resolve (h : '\x00' ∉ p.text.toList) : Admitted (d.resolve p) :=
  (admitted_checkPath h).bind fun _ => admitted_follow d _ _ _

theorem admitted_locate (h : '\x00' ∉ p.text.toList) : Admitted (d.locate p) := by
  refine (admitted_checkPath h).bind fun _ => ?_
  dsimp only
  split
  · nofun
  · refine (admitted_follow d _ _ _).bind fun arrival => ?_
    cases arrival with
    | vacant => nofun
    | reached directory =>
      dsimp only
      split
      · nofun
      · split <;> nofun

/-! ## Making and opening -/

theorem admitted_makeDirectory (h : '\x00' ∉ p.text.toList) : Admitted (d.makeDirectory p) := by
  refine (admitted_locate h).bind fun found => ?_
  cases found with
  | none => nofun
  | some spot =>
    dsimp only
    split <;> nofun

theorem admitted_makeChain {paths : List Path} (h : ∀ p ∈ paths, '\x00' ∉ p.text.toList)
    (d : Disk) : Admitted (makeChain paths d).1 := by
  induction paths generalizing d with
  | nil => nofun
  | cons p above ih =>
    have hp : ∀ d : Disk, Admitted (d.makeDirectory p) := fun d =>
      admitted_makeDirectory (h p List.mem_cons_self)
    have habove := ih fun q hq => h q (List.mem_cons_of_mem _ hq)
    unfold makeChain
    split
    · nofun
    · split
      · nofun
      · rcases hmore : makeChain above d with ⟨e | _, d₁⟩
        · exact (habove d).error (congrArg Prod.fst hmore)
        · dsimp only
          split
          · nofun
          · split <;> nofun
          · rename_i hfails
            exact (hp d₁).error hfails
      · split <;> nofun
      · rename_i hfails
        exact (hp d).error hfails

theorem admitted_create (h : '\x00' ∉ p.text.toList) : Admitted (d.create p) := by
  unfold create
  split
  · split
    · nofun
    · rename_i hfails
      exact (admitted_locate h).error hfails
  · refine (admitted_resolve h).bind fun arrival => ?_
    cases arrival with
    | vacant directory name slash => cases slash <;> nofun
    | reached place =>
      dsimp only
      split <;> nofun

/-- A file whose path has a null character cannot be opened. -/
theorem create_of_null (h : '\x00' ∈ p.text.toList) : ∃ e, d.create p = .error e := by
  have hcheck : checkPath p = .error .nullInPath := by
    have hnull : p.text.toList.contains '\x00' = true := by simpa using h
    rw [checkPath, hnull, if_pos rfl]
  unfold create
  split
  · rw [locate, hcheck]
    exact ⟨_, rfl⟩
  · rw [resolve, hcheck]
    exact ⟨_, rfl⟩

end Disk

namespace Files
open StubListing.Disk

variable {d : Disk} {p : Path} {f : Failure}

theorem cause_provide (h : '\x00' ∉ p.text.toList) (hfails : (provide d p).1 = .error f) :
    f.cause ≠ .system .nullInPath := by
  have hchain : Admitted (d.makeDirectories p).1 := by
    refine admitted_makeChain (fun q hq hx => ?_) d
    rcases Path.mem_text_ancestors hq hx with hslash | hp
    · exact absurd hslash (by decide)
    · exact h hp
  unfold provide at hfails
  split at hfails
  · cases hfails
  · split at hfails
    · cases hfails
    · rename_i e _ hmake
      cases hfails
      intro hnull
      rw [hmake] at hchain
      exact hchain (congrArg _ (Cause.system.inj hnull))

theorem cause_openFile (h : '\x00' ∉ p.text.toList) (hfails : (openFile d p).1 = .error f) :
    f.cause ≠ .system .nullInPath := by
  unfold openFile at hfails
  split at hfails
  · rename_i g _ habove
    cases hfails
    split at habove
    · rename_i directory hparent
      have hdirectory : '\x00' ∉ directory.text.toList := fun hx => by
        rcases Path.mem_text_parent? hparent hx with hslash | hp
        · exact absurd hslash (by decide)
        · exact h hp
      exact cause_provide hdirectory (congrArg Prod.fst habove)
    · cases habove
  · rename_i d₁ _
    have hcreate : Admitted (d₁.create p) := admitted_create h
    split at hfails
    · cases hfails
    · rename_i e hcall
      cases hfails
      intro hnull
      exact hcreate (hcall.trans (congrArg _ (Cause.system.inj hnull)))

theorem openFile_of_null (h : '\x00' ∈ p.text.toList) : ∃ f, (openFile d p).1 = .error f := by
  unfold openFile
  split
  · exact ⟨_, rfl⟩
  · rename_i d₁ _
    obtain ⟨e, he⟩ := create_of_null (d := d₁) h
    rw [he]
    exact ⟨_, rfl⟩

end Files

end StubListing
