import StubListing.Proofs.Run.Running
/-!
# Which classes a plan accepts

The verdict on a class depends on its name and on the classes before it only, and it is the same
whether repetitions are told by paths or by names. What is accepted goes to places that have nothing to
do with each other: no stub is where another one is, or above it, or where the manifest is.
-/
namespace StubListing.Run
open StubListing.Catalog StubListing.Stub

variable {c : Config} {s t : Selected} {selected : List Selected}

theorem proper_of_mem_plan (hc : c.Valid) {i : Nat} (h : (plan c selected)[i]? = some (.ok s)) :
    (jobOf c s).Proper :=
  (plannable_plan hc selected).proper (List.mem_of_getElem? h)

/-- Of two paths that go equally far below one root, one is above the other only if they go the same
way. -/
theorem isPrefix_components_iff (hs : (jobOf c s).Proper) (ht : (jobOf c t).Proper) :
    (jobOf c s).spotPath.components <+: (jobOf c t).spotPath.components ↔ sameStub s t = true := by
  rw [← sameAs_spotPath hs ht, Path.sameAs, beq_iff_eq]
  refine ⟨fun h => h.eq_of_length ?_, fun h => h ▸ List.prefix_rfl⟩
  rw [components_spotPath hs, components_spotPath ht]
  simp only [List.length_append, List.length_cons, List.length_nil]

/-- The manifest is one name below the root, and so no stub is where it is. -/
theorem sameAs_manifest (hs : (jobOf c s).Proper) :
    (jobOf c s).spotPath.sameAs (c.outputRoot.join Manifest.fileName) = false := by
  rw [Path.sameAs, beq_eq_false_iff_ne, components_spotPath hs,
    Path.components_join _ isEntryName_manifest]
  intro h
  have hlength := congrArg List.length h
  simp only [List.length_append, List.length_cons, List.length_nil] at hlength
  omega

/-- The plan goes through the selected classes in their order. It accepts a class exactly if its name is
a file name and no class before it has both its namespace and its name; any other class it turns down
under its own namespace and name. The stub of an accepted class is two names below the root, its
namespace and its file name, and not where the manifest is; and of two accepted classes, neither stub is
where the other is or above it. -/
theorem plan_exact (hc : c.Valid) (hselected : ∀ s ∈ selected, s.ns ∈ c.namespaces) :
    (plan c selected).length = selected.length ∧
      (∀ (i : Nat) (s : Selected), selected[i]? = some s →
        ((plan c selected)[i]? = some (.ok s) ↔
          Path.isFileName s.type.name = true ∧
            ∀ t ∈ selected.take i, ¬ (t.ns = s.ns ∧ t.type.name = s.type.name)) ∧
        ((plan c selected)[i]? = some (.ok s) ∨
          ∃ f, (plan c selected)[i]? = some (.error f) ∧ f.ns = s.ns ∧ f.className = s.type.name)) ∧
      (∀ (i : Nat) (s : Selected), (plan c selected)[i]? = some (.ok s) → ∃ path, targetOf c s = .ok path ∧
        path.components = c.outputRoot.components ++
          [.name s.ns, .name (s.type.name ++ "." ++ c.fileExtension)] ∧
        path.sameAs (c.outputRoot.join Manifest.fileName) = false) ∧
      ∀ (i k : Nat) (s t : Selected) (p q : Path), i ≠ k → (plan c selected)[i]? = some (.ok s) →
        (plan c selected)[k]? = some (.ok t) → targetOf c s = .ok p → targetOf c t = .ok q →
        p.sameAs q = false ∧ ¬ p.components <+: q.components := by
  refine ⟨length_planFrom c [] selected, fun i s hs => ?_, fun i s hs => ?_,
    fun i k s t p q hne hs ht hp hq => ?_⟩
  · have hverdict : (plan c selected)[i]? = some (planned c (selected.take i) s) := by
      rw [plan_getElem? hc, hs]
      rfl
    have hns := hc.2.1 _ (hselected s (List.mem_of_getElem? hs))
    rw [hverdict]
    simp only [Option.some.injEq]
    refine ⟨?_, planned_cases c _ s⟩
    rw [planned_eq_ok_iff, any_sameStub_eq_false]
    simp only [hns, true_and]
  · have hproper := proper_of_mem_plan hc hs
    exact ⟨_, targetOf_eq_ok_iff.mpr ⟨hproper.ns, hproper.className, rfl⟩, components_spotPath hproper,
      sameAs_manifest hproper⟩
  · have hs' := proper_of_mem_plan hc hs
    have ht' := proper_of_mem_plan hc ht
    have hdiff := (plannable_plan hc selected).apart hs ht hne
    obtain ⟨-, -, rfl⟩ := targetOf_eq_ok_iff.mp hp
    obtain ⟨-, -, rfl⟩ := targetOf_eq_ok_iff.mp hq
    refine ⟨(sameAs_spotPath hs' ht').trans hdiff, fun habove => ?_⟩
    rw [(isPrefix_components_iff hs' ht').mp habove] at hdiff
    cases hdiff

/-- Of these classes the second has no file name, and neither has the fourth, which repeats it; the third
is a repetition of the first, and the last of none of them. -/
theorem plan_exact_of_repeated :
    let c : Config := { Config.standard with namespaces := ["N"], outputRoot := ⟨"./G//"⟩ }
    let selected : List Selected :=
      ["A.b`1", "A/B", "A.b`1", "A/B", ".A"].map fun name => ⟨.emptyClass "N" name, "N"⟩
    (∃ f, (plan c selected)[2]? = some (.error f) ∧ f.ns = "N" ∧ f.className = "A.b`1") ∧
      (plan c selected)[4]? = some (.ok ⟨.emptyClass "N" ".A", "N"⟩) ∧
      ∃ path, targetOf c ⟨.emptyClass "N" ".A", "N"⟩ = .ok path ∧
        path.components = [.here, .name "G", .name "N", .name ".A.stub"] := by
  intro c selected
  have hc : c.Valid := ⟨by decide, by decide, by decide⟩
  have hselected : ∀ s ∈ selected, s.ns ∈ c.namespaces := by decide
  obtain ⟨-, hverdicts, hplaces, -⟩ := plan_exact hc hselected
  have hlast := (hverdicts 4 ⟨.emptyClass "N" ".A", "N"⟩ rfl).1.mpr ⟨by decide, by decide⟩
  obtain ⟨hthird, hthird'⟩ := hverdicts 2 ⟨.emptyClass "N" "A.b`1", "N"⟩ rfl
  refine ⟨hthird'.resolve_left fun h => ?_, hlast, ?_⟩
  · exact (hthird.mp h).2 ⟨.emptyClass "N" "A.b`1", "N"⟩ (by simp [selected]) ⟨rfl, rfl⟩
  · obtain ⟨path, hpath, hcomponents, -⟩ := hplaces 4 _ hlast
    exact ⟨path, hpath, by rw [hcomponents]; decide⟩

end StubListing.Run
