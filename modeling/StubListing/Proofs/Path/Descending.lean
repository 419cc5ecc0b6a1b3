import StubListing.Proofs.Path.Segments
/-!
# Paths below a path

The path of something that is reached from a directory by names, one inside the other. Paths below the
same directory are in the order of these names, and none is shorter than its names are together.
-/
namespace StubListing.Path

/-- The path of what is reached by the names, one inside the other. -/
def descend (p : Path) (names : List String) : Path := names.foldl join p

@[simp] theorem descend_nil (p : Path) : p.descend [] = p := rfl

@[simp] theorem descend_cons (p : Path) (name : String) (names : List String) :
    p.descend (name :: names) = (p.join name).descend names := rfl

theorem descend_append_singleton (p : Path) (names : List String) (name : String) :
    p.descend (names ++ [name]) = (p.descend names).join name := by
  simp [descend]

theorem components_descend (p : Path) {names : List String} (h : ∀ name ∈ names, IsEntryName name) :
    (p.descend names).components = p.components ++ names.map .name := by
  induction names generalizing p with
  | nil => simp
  | cons name rest ih =>
    rw [List.forall_mem_cons] at h
    rw [descend_cons, ih _ h.2, components_join p h.1, List.map_cons, List.append_assoc]
    rfl

/-- Names of some length make the path longer by that length each. -/
theorem le_utf8ByteSize_descend (p : Path) {names : List String} {size : Nat}
    (h : ∀ name ∈ names, IsEntryName name ∧ size ≤ name.utf8ByteSize) :
    p.text.utf8ByteSize + names.length * size ≤ (p.descend names).text.utf8ByteSize := by
  induction names generalizing p with
  | nil => simp
  | cons name rest ih =>
    rw [List.forall_mem_cons] at h
    obtain ⟨⟨hname, hsize⟩, hrest⟩ := h
    have hjoin := (utf8ByteSize_join p hname).1
    have hmore := ih (p.join name) hrest
    rw [List.length_cons, Nat.add_mul, descend_cons]
    omega

/-! ## The order of names -/

theorem notAfter_names {a b : List String} :
    notAfter (a.map .name) (b.map .name) = true ↔ ¬ List.Lex (· < ·) b a := by
  induction a generalizing b with
  | nil => simp [notAfter]
  | cons s a ih =>
    cases b with
    | nil => simp [notAfter]
    | cons t b =>
      have hlex : List.Lex (· < ·) (t :: b) (s :: a) ↔ t < s ∨ t = s ∧ List.Lex (· < ·) b a :=
        List.cons_lt_cons_iff
      simp only [List.map_cons, notAfter, Component.before, decide_eq_true_eq, Component.name.injEq,
        hlex, not_or, not_and]
      by_cases hst : s < t
      · have hne : t ≠ s := by
          rintro rfl
          exact String.lt_irrefl t hst
        simp only [hst, if_true, String.lt_asymm hst, hne, not_false_eq_true, false_implies, true_and]
      · by_cases hs : s = t
        · subst hs
          simp only [hst, if_false, if_true, ih, not_false_eq_true, true_implies, true_and]
        · have hts : t < s := Std.lt_of_le_of_ne (String.not_lt.mp hst) (Ne.symm hs)
          simp only [hst, hs, hts, if_false, not_true_eq_false, false_and, Bool.false_eq_true]

theorem notAfter_append (base a b : List Component) :
    notAfter (base ++ a) (base ++ b) = notAfter a b := by
  induction base with
  | nil => rfl
  | cons c base ih =>
    have hself : c.before c = false := by
      cases c <;> simp [Component.before]
    simp [notAfter, hself, ih]

end StubListing.Path
