import StubListing.Proofs.Catalog.Selecting
import StubListing.Proofs.Config.Settling
import StubListing.Proofs.Stub.Writing
import StubListing.Run.Plan
/-!
# What a plan says

The plan turns a class down when it cannot name a file, or when a class before it has the same
namespace and name. The stubs of the classes it accepts have places of their own.
-/
namespace StubListing

namespace Catalog

theorem mem_types_of_mem_select {allowed : List String} {types : List TypeDecl} {s : Selected}
    (h : s ∈ select allowed types) : s.type ∈ types ∧ s.ns ∈ allowed := by
  obtain ⟨t, ht, hchosen⟩ := List.mem_filterMap.mp h
  obtain ⟨rfl, hallowed, -, -⟩ := eq_some_of_chosen? hchosen
  exact ⟨ht, hallowed⟩

end Catalog

namespace Run
open StubListing.Catalog StubListing.Stub

/-- The classes would have one stub between them. -/
def sameStub (s t : Selected) : Bool := s.ns == t.ns && s.type.name == t.type.name

theorem sameStub_iff {s t : Selected} :
    sameStub s t = true ↔ s.ns = t.ns ∧ s.type.name = t.type.name := by
  simp [sameStub]

variable {c : Config} {s t : Selected} {path : Path}

theorem targetOf_eq_ok_iff :
    targetOf c s = .ok path ↔
      Path.isFileName s.ns = true ∧ Path.isFileName s.type.name = true ∧
        path = (jobOf c s).spotPath :=
  target_eq_ok_iff

theorem isExtension_of_valid (hc : c.Valid) : Config.isExtension c.fileExtension = true :=
  (Config.firstFault?_eq_none_iff.mp hc.1).2.1

/-- An extension that settings may give has neither slashes nor dots. -/
theorem not_mem_extension (hc : c.Valid) {mark : Char} (hmark : mark = '/' ∨ mark = '.') :
    mark ∉ c.fileExtension.toList := by
  obtain ⟨-, hext⟩ := Config.isExtension_iff.mp (isExtension_of_valid hc)
  intro hm
  rcases hmark with rfl | rfl
  · exact (hext _ hm).1 rfl
  · exact (hext _ hm).2.2 rfl

theorem proper_of_targetOf (hc : c.Valid) (h : targetOf c s = .ok path) : (jobOf c s).Proper := by
  obtain ⟨hns, hname, _⟩ := targetOf_eq_ok_iff.mp h
  exact ⟨hns, hname, not_mem_extension hc (Or.inl rfl)⟩

theorem fileName_inj : (jobOf c s).fileName = (jobOf c t).fileName ↔ s.type.name = t.type.name := by
  unfold Job.fileName
  constructor
  · intro h
    have hl := congrArg String.toList h
    simp only [String.toList_append, List.append_assoc] at hl
    exact String.toList_inj.mp (List.append_cancel_right hl)
  · intro h
    simp only [jobOf, h]

/-- The stub of a class is two names below the root: its namespace and its file name. -/
theorem components_spotPath (hs : (jobOf c s).Proper) :
    (jobOf c s).spotPath.components =
      c.outputRoot.components ++ [.name s.ns, .name (jobOf c s).fileName] := by
  unfold Job.spotPath
  rw [Path.components_join _ hs.isEntryName_fileName, Path.components_join _ hs.isEntryName_ns,
    List.append_assoc]
  rfl

/-- Paths of stubs mean the same when the stubs have namespace and name in common. -/
theorem sameAs_spotPath (hs : (jobOf c s).Proper) (ht : (jobOf c t).Proper) :
    (jobOf c s).spotPath.sameAs (jobOf c t).spotPath = sameStub s t := by
  rw [Bool.eq_iff_iff, sameStub_iff, Path.sameAs, beq_iff_eq, components_spotPath hs,
    components_spotPath ht]
  simp only [List.append_cancel_left_eq, List.cons.injEq, Path.Component.name.injEq, and_true,
    fileName_inj]

/-! ## The plan, class by class -/

/-- What the plan says of a class, given the classes before it. -/
def planned (c : Config) (earlier : List Selected) (s : Selected) : Planned :=
  match targetOf c s with
  | .error f => refused s f.message
  | .ok path =>
    if earlier.any (sameStub s) then refused s ("Duplicate output path " ++ path.text) else .ok s

/-- The paths that are taken are those of the classes so far. -/
def Covers (c : Config) (taken : List Path) (earlier : List Selected) : Prop :=
  ∀ s, (jobOf c s).Proper → taken.any (jobOf c s).spotPath.sameAs = earlier.any (sameStub s)

theorem Covers.skip_unfit {taken : List Path} {earlier : List Selected} {f : Failure}
    (h : Covers c taken earlier) (hs : targetOf c s = .error f) :
    Covers c taken (earlier ++ [s]) := by
  intro t ht
  have hdiff : sameStub t s = false := by
    rw [Bool.eq_false_iff, ne_eq, sameStub_iff]
    rintro ⟨hns, hname⟩
    have : targetOf c s = .ok (jobOf c s).spotPath :=
      targetOf_eq_ok_iff.mpr ⟨hns ▸ ht.ns, hname ▸ ht.className, rfl⟩
    rw [hs] at this
    cases this
  rw [h t ht, List.any_append]
  simp [hdiff]

theorem Covers.skip_repeated {taken : List Path} {earlier : List Selected}
    (h : Covers c taken earlier) (hs : earlier.any (sameStub s) = true) :
    Covers c taken (earlier ++ [s]) := by
  intro t ht
  have hmore : sameStub t s = true → earlier.any (sameStub t) = true := by
    intro hts
    obtain ⟨e, he, hse⟩ := List.any_eq_true.mp hs
    obtain ⟨hns, hname⟩ := sameStub_iff.mp hts
    obtain ⟨hns', hname'⟩ := sameStub_iff.mp hse
    exact List.any_eq_true.mpr ⟨e, he, sameStub_iff.mpr ⟨hns.trans hns', hname.trans hname'⟩⟩
  rw [h t ht, List.any_append]
  cases hts : sameStub t s with
  | false => simp [hts]
  | true => simp [hts, hmore hts]

theorem Covers.take {taken : List Path} {earlier : List Selected} (h : Covers c taken earlier)
    (hs : (jobOf c s).Proper) : Covers c ((jobOf c s).spotPath :: taken) (earlier ++ [s]) := by
  intro t ht
  rw [List.any_cons, sameAs_spotPath ht hs, h t ht, List.any_append]
  simp [Bool.or_comm]

theorem planFrom_getElem? (hc : c.Valid) {taken : List Path} {earlier selected : List Selected}
    (h : Covers c taken earlier) (i : Nat) :
    (planFrom c taken selected)[i]? =
      selected[i]?.map (planned c (earlier ++ selected.take i)) := by
  induction selected generalizing taken earlier i with
  | nil => simp [planFrom]
  | cons s rest ih =>
    have hnext : ∀ k, earlier ++ (s :: rest).take (k + 1) = (earlier ++ [s]) ++ rest.take k := by
      intro k
      simp
    cases ht : targetOf c s with
    | error f =>
      simp only [planFrom, ht]
      cases i with
      | zero => simp [planned, ht]
      | succ k => rw [List.getElem?_cons_succ, List.getElem?_cons_succ, hnext, ih (h.skip_unfit ht)]
    | ok path =>
      have hproper := proper_of_targetOf hc ht
      have hpath := (targetOf_eq_ok_iff.mp ht).2.2
      have hany : taken.any path.sameAs = earlier.any (sameStub s) := by rw [hpath, h s hproper]
      simp only [planFrom, ht, hany]
      cases hdup : earlier.any (sameStub s) with
      | true =>
        cases i with
        | zero => simp [planned, ht, hdup]
        | succ k =>
          rw [if_pos rfl, List.getElem?_cons_succ, List.getElem?_cons_succ, hnext,
            ih (h.skip_repeated hdup)]
      | false =>
        cases i with
        | zero => simp [planned, ht, hdup]
        | succ k =>
          rw [if_neg (by decide), List.getElem?_cons_succ, List.getElem?_cons_succ, hnext, hpath,
            ih (h.take hproper)]

/-- The plan has the verdict on each class in the place of the class. -/
theorem plan_getElem? (hc : c.Valid) (selected : List Selected) (i : Nat) :
    (plan c selected)[i]? = selected[i]?.map (planned c (selected.take i)) := by
  have hstart : Covers c [] [] := fun _ _ => rfl
  exact planFrom_getElem? hc hstart i

/-- What is not accepted is turned down under the names of its class. -/
theorem planned_cases (c : Config) (earlier : List Selected) (s : Selected) :
    planned c earlier s = .ok s ∨
      ∃ f, planned c earlier s = .error f ∧ f.ns = s.ns ∧ f.className = s.type.name := by
  unfold planned
  cases targetOf c s with
  | error f => exact Or.inr ⟨_, rfl, rfl, rfl⟩
  | ok path =>
    cases earlier.any (sameStub s) with
    | true => exact Or.inr ⟨_, rfl, rfl, rfl⟩
    | false => exact Or.inl rfl

theorem planned_eq_ok_iff {earlier : List Selected} :
    planned c earlier s = .ok t ↔
      t = s ∧ Path.isFileName s.ns = true ∧ Path.isFileName s.type.name = true ∧
        earlier.any (sameStub s) = false := by
  unfold planned
  cases ht : targetOf c s with
  | error f =>
    have hunfit : ¬ (Path.isFileName s.ns = true ∧ Path.isFileName s.type.name = true) := by
      rintro ⟨hns, hname⟩
      rw [targetOf_eq_ok_iff.mpr ⟨hns, hname, rfl⟩] at ht
      cases ht
    simp only [refused, reduceCtorEq, false_iff]
    exact fun h => hunfit ⟨h.2.1, h.2.2.1⟩
  | ok path =>
    obtain ⟨hns, hname, _⟩ := targetOf_eq_ok_iff.mp ht
    cases hdup : earlier.any (sameStub s) with
    | true => simp [refused]
    | false => simp [hns, hname, eq_comm]

theorem mem_of_mem_plan (hc : c.Valid) {selected : List Selected}
    (h : Except.ok s ∈ plan c selected) : s ∈ selected := by
  obtain ⟨i, hi⟩ := List.getElem?_of_mem h
  rw [plan_getElem? hc, Option.map_eq_some_iff] at hi
  obtain ⟨t, ht, hplanned⟩ := hi
  obtain ⟨rfl, -⟩ := planned_eq_ok_iff.mp hplanned
  exact List.mem_of_getElem? ht

/-! ## Plans that can be carried out -/

/-- Accepted classes can name their stubs and share none. -/
structure Plannable (c : Config) (plan : List Planned) : Prop where
  proper : ∀ {s : Selected}, Except.ok s ∈ plan → (jobOf c s).Proper
  apart : ∀ {i k : Nat} {s t : Selected}, plan[i]? = some (.ok s) → plan[k]? = some (.ok t) →
    i ≠ k → sameStub s t = false

theorem sameStub_comm (s t : Selected) : sameStub s t = sameStub t s := by
  rw [Bool.eq_iff_iff, sameStub_iff, sameStub_iff, eq_comm, @eq_comm _ t.type.name]

/-- No class before it has both its namespace and its name. -/
theorem any_sameStub_eq_false {earlier : List Selected} :
    earlier.any (sameStub s) = false ↔
      ∀ t ∈ earlier, ¬ (t.ns = s.ns ∧ t.type.name = s.type.name) := by
  rw [List.any_eq_false]
  refine forall₂_congr fun t _ => not_congr ?_
  rw [sameStub_comm, sameStub_iff]

theorem apart_of_lt (hc : c.Valid) {selected : List Selected} {i k : Nat}
    (hs : (plan c selected)[i]? = some (.ok s)) (ht : (plan c selected)[k]? = some (.ok t))
    (hlt : i < k) : sameStub t s = false := by
  rw [plan_getElem? hc, Option.map_eq_some_iff] at hs ht
  obtain ⟨a, ha, hs⟩ := hs
  obtain ⟨b, hb, ht⟩ := ht
  obtain ⟨rfl, -, -, -⟩ := planned_eq_ok_iff.mp hs
  obtain ⟨rfl, -, -, hfresh⟩ := planned_eq_ok_iff.mp ht
  rw [List.any_eq_false] at hfresh
  have hmem : s ∈ selected.take k := List.mem_of_getElem? (by rw [List.getElem?_take, if_pos hlt, ha])
  simpa using hfresh _ hmem

theorem plannable_plan (hc : c.Valid) (selected : List Selected) :
    Plannable c (plan c selected) := by
  refine ⟨fun {s} hm => ?_, fun {i k s t} hs ht hne => ?_⟩
  · obtain ⟨i, hi⟩ := List.getElem?_of_mem hm
    rw [plan_getElem? hc, Option.map_eq_some_iff] at hi
    obtain ⟨a, _, ha⟩ := hi
    obtain ⟨rfl, hns, hname, -⟩ := planned_eq_ok_iff.mp ha
    exact proper_of_targetOf hc (targetOf_eq_ok_iff.mpr ⟨hns, hname, rfl⟩)
  · rcases Nat.lt_or_gt_of_ne hne with hlt | hgt
    · rw [sameStub_comm, apart_of_lt hc hs ht hlt]
    · exact apart_of_lt hc ht hs hgt

theorem Plannable.single {plan : List Planned} (h : Plannable c plan) {p : Planned} (hp : p ∈ plan) :
    Plannable c [p] := by
  refine ⟨fun {s} hm => h.proper (List.mem_singleton.mp hm ▸ hp), fun {i k s t} hs ht hne => ?_⟩
  have hzero : ∀ {n : Nat} {u : Selected}, [p][n]? = some (.ok u) → n = 0 := by
    intro n u hn
    have := (List.getElem?_eq_some_iff.mp hn).1
    simpa using this
  exact absurd ((hzero hs).trans (hzero ht).symm) hne

theorem Plannable.spot_ne {plan : List Planned} (h : Plannable c plan) {i k : Nat}
    (hs : plan[i]? = some (.ok s)) (ht : plan[k]? = some (.ok t)) (hne : i ≠ k) (root : Location) :
    (jobOf c s).spot root ≠ (jobOf c t).spot root := by
  intro he
  have hdiff := h.apart hs ht hne
  unfold Job.spot at he
  obtain ⟨hhouse, hfile⟩ := List.append_inj' he rfl
  have hns : s.ns = t.ns := List.cons.inj (List.append_cancel_left hhouse) |>.1
  have hname := fileName_inj.mp (List.cons.inj hfile).1
  rw [sameStub_iff.mpr ⟨hns, hname⟩] at hdiff
  cases hdiff

/-- What writing each stub keeps, writing all of them keeps. -/
theorem renderAll_keeps {P : Disk → Prop} {planned : List Planned} {d : Disk} (h : P d)
    (hjob : ∀ s, Except.ok s ∈ planned → ∀ d, P d → P ((jobOf c s).run d).2) :
    P (renderAll c planned d).2 := by
  induction planned generalizing d with
  | nil => exact h
  | cons p rest ih =>
    have hrest := fun s hs => hjob s (List.mem_cons_of_mem _ hs)
    cases p with
    | error f => exact ih h hrest
    | ok s => exact ih (hjob s List.mem_cons_self d h) hrest

end Run

end StubListing
