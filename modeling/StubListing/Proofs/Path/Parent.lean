import Mathlib.Data.List.TakeWhile
import StubListing.Proofs.Path.Segments
/-!
# The path one level up

The path above one that ends in a name makes the same moves except the last, starts in the same
place and is spelt by the beginning of the same text.
-/
namespace StubListing.Path
open StubListing.Text

/-! ## Texts from segments -/

theorem pieces_unpieces {mark : Char} :
    ∀ {pieces' : List (List Char)}, pieces' ≠ [] → (∀ piece ∈ pieces', mark ∉ piece) →
      pieces mark (unpieces mark pieces') = pieces'
  | [piece], _, h => pieces_of_not_mem (h piece (by simp))
  | piece :: next :: rest, _, h => by
    have ih := pieces_unpieces (List.cons_ne_nil next rest)
      (fun p hp => h p (List.mem_cons_of_mem _ hp))
    rw [unpieces, pieces_append_mark, ih, pieces_of_not_mem (h piece (by simp))]
    · rfl
    · simp

theorem segmentsOf_joined {segments : List String} (hne : segments ≠ [])
    (h : ∀ s ∈ segments, '/' ∉ s.toList) : segmentsOf (joined "/" segments) = segments := by
  rw [segmentsOf, toList_joined_slash, pieces_unpieces (by simpa using hne) (by simpa using h),
    List.map_map]
  have hid : String.ofList ∘ String.toList = id := funext fun s => String.ofList_toList
  rw [hid, List.map_id]

theorem noSlash_of_mem_segments {p : Path} {s : String} (h : s ∈ p.segments) :
    '/' ∉ s.toList := by
  simp only [segments, segmentsOf, List.mem_map] at h
  obtain ⟨piece, hp, rfl⟩ := h
  simpa using mark_not_mem_of_mem_pieces hp

/-- A path is absolute when an empty segment stands in front of others. -/
theorem isAbsolute_iff (p : Path) :
    p.isAbsolute = true ↔ ∃ next more, p.segments = "" :: next :: more := by
  have htext : p.text = joined "/" p.segments := (joined_segmentsOf p.text).symm
  have hslash := fun s (h : s ∈ p.segments) => noSlash_of_mem_segments h
  constructor
  · intro h
    rw [isAbsolute, htext, toList_joined_slash] at h
    cases hs : p.segments with
    | nil => rw [hs] at h; simp [unpieces] at h
    | cons first rest =>
      rw [hs] at h hslash
      have hfirst := hslash first (by simp)
      cases hl : first.toList with
      | cons c cs =>
        rw [hl] at hfirst
        cases rest <;> simp [unpieces, hl] at h <;> simp [h] at hfirst
      | nil =>
        cases rest with
        | nil => simp [unpieces, hl] at h
        | cons next more =>
          have : first = "" := String.toList_inj.mp (by simpa using hl)
          exact ⟨next, more, by rw [this]⟩
  · rintro ⟨next, more, hs⟩
    rw [isAbsolute, htext, toList_joined_slash, hs]
    simp [unpieces]

/-! ## Trimming -/

theorem trimmed_isPrefix (segments : List String) : trimmed segments <+: segments := by
  cases segments with
  | nil => exact List.prefix_rfl
  | cons first rest =>
    have h := List.dropWhile_suffix (p := isIdle) (l := rest.reverse)
    obtain ⟨front, hfront⟩ := h
    refine ⟨front.reverse, ?_⟩
    have := congrArg List.reverse hfront
    simp only [List.reverse_append, List.reverse_reverse] at this
    simp [trimmed, this]

theorem filter_trimmed (segments : List String) :
    (trimmed segments).filter (fun s => !isIdle s) = segments.filter fun s => !isIdle s := by
  cases segments with
  | nil => rfl
  | cons first rest =>
    have hdrop : ∀ l : List String, (l.dropWhile isIdle).filter (fun s => !isIdle s) =
        l.filter fun s => !isIdle s := by
      intro l
      induction l with
      | nil => rfl
      | cons a l ih => by_cases ha : isIdle a <;> simp [ha, ih]
    have : (rest.reverse.dropWhile isIdle).reverse.filter (fun s => !isIdle s) =
        rest.filter fun s => !isIdle s := by
      rw [List.filter_reverse, hdrop, List.filter_reverse, List.reverse_reverse]
    simp only [trimmed, List.filter_cons, this]

theorem trimmed_concat (first : String) {rest : List String}
    (h : rest.filter (fun s => !isIdle s) ≠ []) :
    ∃ front last, trimmed (first :: rest) = first :: (front ++ [last]) ∧ isIdle last = false := by
  have hrest : rest.reverse.dropWhile isIdle ≠ [] := by
    intro he
    apply h
    rw [List.filter_eq_nil_iff]
    intro s hs
    rw [List.dropWhile_eq_nil_iff] at he
    simpa using he s (by simpa using hs)
  refine ⟨(rest.reverse.dropWhile isIdle).tail.reverse, (rest.reverse.dropWhile isIdle).head hrest,
    ?_, ?_⟩
  · rw [trimmed, ← List.reverse_cons, List.cons_head_tail]
  · have := List.head_dropWhile_not isIdle hrest
    simpa using this

/-! ## The parent -/

theorem unpieces_isPrefix {mark : Char} {a b : List (List Char)} (h : a <+: b) :
    unpieces mark a <+: unpieces mark b := by
  obtain ⟨more, rfl⟩ := h
  induction a with
  | nil => exact List.nil_prefix
  | cons piece rest ih =>
    cases rest with
    | nil =>
      cases more with
      | nil => exact List.prefix_rfl
      | cons next more => exact List.prefix_append _ _
    | cons next rest =>
      simp only [unpieces, List.cons_append] at ih ⊢
      exact (List.prefix_append_right_inj _).mpr ((List.prefix_cons_inj _).mpr ih)

theorem text_isPrefix_of_segments {p : Path} {segments : List String} (h : segments <+: p.segments) :
    (joined "/" segments).toList <+: p.text.toList := by
  rw [← joined_segmentsOf p.text, toList_joined_slash, toList_joined_slash]
  exact unpieces_isPrefix (h.map _)

/-- What is known of the path above one whose last move goes to `name`. -/
structure IsAbove (q p : Path) (front : List String) : Prop where
  moves_eq : q.moves = front
  absolute_eq : q.isAbsolute = p.isAbsolute
  text_initial : q.text.toList <+: p.text.toList
  segments_sub : ∀ s ∈ q.segments, s = "" ∨ s ∈ p.segments

theorem isAbove_ofSegments {p : Path} {segments : List String} {next : String}
    {more : List String} {first : String} (hp : p.segments = first :: next :: more)
    (hs : segments <+: p.segments) (hfirst : segments.head? = some first) :
    IsAbove (ofSegments p.isAbsolute segments) p (segments.filter fun s => !isIdle s) := by
  have hne : segments ≠ [] := by rintro rfl; simp at hfirst
  have hslash : ∀ s ∈ segments, '/' ∉ s.toList := fun s h =>
    noSlash_of_mem_segments (hs.subset h)
  have hjoined := segmentsOf_joined hne hslash
  have hsub : ∀ s ∈ segmentsOf (joined "/" segments), s = "" ∨ s ∈ p.segments := fun s hm =>
    Or.inr (hs.subset (hjoined ▸ hm))
  by_cases habs : p.isAbsolute = true
  · obtain ⟨_, _, hseg⟩ := (isAbsolute_iff p).mp habs
    have hempty : first = "" := by rw [hp] at hseg; exact (List.cons.inj hseg).1
    subst hempty
    by_cases hroot : segments = [""]
    · subst hroot
      have hinitial : (joined "/" ["", ""]).toList <+: p.text.toList := by
        rw [← joined_segmentsOf p.text, toList_joined_slash, toList_joined_slash,
          show segmentsOf p.text = "" :: next :: more from hp]
        cases more <;> simp [unpieces]
      rw [habs]
      have hempty : ∀ s ∈ segmentsOf "/", s = "" := by decide
      exact ⟨rfl, habs.symm, hinitial, fun s hm => Or.inl (hempty s hm)⟩
    · have hlong : ∃ next' more', segments = "" :: next' :: more' := by
        cases segments with
        | nil => exact absurd rfl hne
        | cons a rest =>
          simp only [List.head?_cons, Option.some.injEq] at hfirst
          subst hfirst
          cases rest with
          | nil => exact absurd rfl hroot
          | cons b more' => exact ⟨b, more', rfl⟩
      have heq : ofSegments p.isAbsolute segments = ⟨joined "/" segments⟩ := by
        simp [ofSegments, hroot]
      rw [heq]
      refine ⟨by rw [moves, Path.segments, hjoined], ?_, text_isPrefix_of_segments hs, hsub⟩
      rw [habs]
      exact (isAbsolute_iff _).mpr (by rw [Path.segments, hjoined]; exact hlong)
  · have heq : ofSegments p.isAbsolute segments = ⟨joined "/" segments⟩ := by
      simp [ofSegments, habs]
    have hfirst' : first ≠ "" := by
      rintro rfl
      exact habs ((isAbsolute_iff p).mpr ⟨next, more, hp⟩)
    rw [heq]
    refine ⟨by rw [moves, Path.segments, hjoined], ?_, text_isPrefix_of_segments hs, hsub⟩
    rw [Bool.eq_false_iff.mpr habs, Bool.eq_false_iff]
    intro h
    obtain ⟨_, _, hseg⟩ := (isAbsolute_iff _).mp h
    rw [Path.segments, hjoined] at hseg
    rw [hseg] at hfirst
    exact hfirst' (Option.some.inj hfirst).symm

/-- A path with a single segment that counts has the empty path above it. -/
theorem parent?_of_single {p : Path} {first : String} {rest : List String}
    (hs : p.segments = first :: rest) (hidle : isIdle first = false)
    (hrest : ∀ s ∈ rest, isIdle s = true) : ∃ q, p.parent? = some q ∧ IsAbove q p [] := by
  have hfirst : first.isEmpty = false := by
    simp only [isIdle, Bool.or_eq_false_iff] at hidle
    exact hidle.1
  have htrim : trimmed p.segments = [first] := by
    have : rest.reverse.dropWhile isIdle = [] := by
      rw [List.dropWhile_eq_nil_iff]
      exact fun s hm => hrest s (by simpa using hm)
    simp [hs, trimmed, this]
  have habs : p.isAbsolute = false := by
    rw [Bool.eq_false_iff]
    intro habs
    obtain ⟨_, _, hseg⟩ := (isAbsolute_iff p).mp habs
    rw [hs] at hseg
    rw [(List.cons.inj hseg).1] at hfirst
    exact absurd hfirst (by decide)
  have hempty : ∀ s ∈ segmentsOf "", s = "" := by decide
  refine ⟨⟨""⟩, ?_, rfl, ?_, List.nil_prefix, fun s hm => Or.inl (hempty s hm)⟩
  · unfold parent?
    rw [htrim]
    simp [hfirst]
  · rw [habs]; rfl

/-- The path above makes all moves but the last. -/
theorem parent?_of_moves {p : Path} {front : List String} {name : String}
    (h : p.moves = front ++ [name]) : ∃ q, p.parent? = some q ∧ IsAbove q p front := by
  cases hs : p.segments with
  | nil => exact absurd hs (segmentsOf_ne_nil _)
  | cons first rest =>
    rw [moves, hs] at h
    by_cases hrest : rest.filter (fun s => !isIdle s) = []
    · have hidle : isIdle first = false := by
        rw [Bool.eq_false_iff]
        intro hidle
        simp [hidle, hrest] at h
      have hfront : front = [] := by
        rw [List.filter_cons_of_pos (by simp [hidle]), hrest] at h
        simpa using congrArg List.length h
      rw [hfront]
      refine parent?_of_single hs hidle fun s hm => ?_
      simpa using List.filter_eq_nil_iff.mp hrest s hm
    · obtain ⟨middle, last, htrim, hlast⟩ := trimmed_concat first hrest
      have hfilter : (first :: middle).filter (fun s => !isIdle s) = front := by
        rw [← filter_trimmed, htrim, ← List.cons_append, List.filter_append] at h
        have : [last].filter (fun s => !isIdle s) = [last] := by simp [hlast]
        rw [this] at h
        exact (List.append_inj' h rfl).1
      have hinitial : trimmed (first :: middle) <+: p.segments := by
        have hmiddle : first :: middle <+: trimmed (first :: rest) := by
          rw [htrim]
          exact ⟨[last], by simp⟩
        rw [hs]
        exact ((trimmed_isPrefix _).trans hmiddle).trans (trimmed_isPrefix _)
      have hlong : ∃ next more, p.segments = first :: next :: more := by
        cases rest with
        | nil => exact absurd rfl hrest
        | cons next more => exact ⟨next, more, hs⟩
      obtain ⟨next, more, hlong⟩ := hlong
      refine ⟨ofSegments p.isAbsolute (trimmed (first :: middle)), ?_, ?_⟩
      · unfold parent?
        rw [hs, htrim]
        cases hm : middle ++ [last] with
        | nil => simp at hm
        | cons a b =>
          have : (a :: b).dropLast = middle := by rw [← hm, List.dropLast_concat]
          simp only [this]
      · have := isAbove_ofSegments hlong hinitial rfl
        rwa [filter_trimmed, hfilter] at this

/-- Above a path without moves there is at most the empty path. -/
theorem parent?_of_no_moves {p q : Path} (hmoves : p.moves = []) (hq : p.parent? = some q) :
    q = ⟨""⟩ ∧ p.isAbsolute = false := by
  cases hs : p.segments with
  | nil => exact absurd hs (segmentsOf_ne_nil _)
  | cons first rest =>
    have hidle : ∀ s ∈ p.segments, isIdle s = true := by
      simpa [moves, List.filter_eq_nil_iff] using hmoves
    have hrest : rest.reverse.dropWhile isIdle = [] := by
      rw [List.dropWhile_eq_nil_iff]
      exact fun s hm => hidle s (by rw [hs]; simpa using Or.inr (by simpa using hm))
    unfold parent? at hq
    rw [hs, trimmed, hrest, List.reverse_nil] at hq
    simp only at hq
    split at hq
    · cases hq
    · rename_i hfirst
      cases hq
      refine ⟨rfl, Bool.eq_false_iff.mpr fun habs => ?_⟩
      obtain ⟨_, _, hslash⟩ := (isAbsolute_iff p).mp habs
      rw [hs] at hslash
      exact hfirst (by rw [(List.cons.inj hslash).1]; rfl)

/-! ## The path above a joined name -/

/-- The path without idle segments at its end, which is the one above everything joined to it. -/
def base (p : Path) : Path := ofSegments p.isAbsolute (trimmed p.segments)

theorem trimmed_concat_empty (first : String) (rest : List String) :
    trimmed (first :: rest ++ [""]) = trimmed (first :: rest) := by
  simp [trimmed, isIdle]

theorem parent?_join (root : Path) {name : String} (h : IsEntryName name) :
    (root.join name).parent? = some root.base := by
  obtain ⟨front, hjoin, hroot⟩ := segments_join root h
  unfold parent? base
  rw [hjoin, trimmed_append h, isAbsolute_join root h]
  cases front with
  | nil =>
    have hempty : root.segments = [""] := hroot.resolve_left (segmentsOf_ne_nil _)
    have hrelative : root.isAbsolute = false := by
      rw [Bool.eq_false_iff, ne_eq, isAbsolute_iff, hempty]
      simp
    rw [hempty, hrelative]
    simp [h.ne_empty, ofSegments, trimmed]
  | cons first rest =>
    have htrimmed : trimmed root.segments = trimmed (first :: rest) := by
      rcases hroot with hroot | hroot
      · rw [hroot]
      · rw [hroot, trimmed_concat_empty]
    cases hmore : rest ++ [name] with
    | nil => simp at hmore
    | cons next more =>
      have hrest : (next :: more).dropLast = rest := by rw [← hmore, List.dropLast_concat]
      simp only [List.cons_append, hmore, hrest, htrimmed]

theorem base_isAbove (root : Path) {name : String} (h : IsEntryName name) :
    IsAbove root.base (root.join name) root.moves := by
  obtain ⟨q, hq, habove⟩ := parent?_of_moves (moves_join root h)
  rw [parent?_join root h] at hq
  cases hq
  exact habove

/-! ## All paths above -/

/-- No path has more paths above it. -/
def height (p : Path) : Nat := if p.parent? = none then 0 else p.segments.length

theorem height_lt {p q : Path} (h : p.parent? = some q) : q.height < p.height := by
  have hp : p.height = p.segments.length := by simp [height, h]
  have hpos : 0 < p.segments.length := List.length_pos_iff.mpr (segmentsOf_ne_nil _)
  -- the path above is the top or the empty one, or else has fewer segments
  have hcases : q.parent? = none ∨ q.segments.length < p.segments.length := by
    unfold parent? at h
    split at h
    · cases h
    · split at h <;> cases h
      exact Or.inl (by decide)
    · rename_i first rest hmore htrimmed
      cases h
      have hshort : (trimmed (first :: rest.dropLast)).length < p.segments.length := by
        obtain ⟨next, more, rfl⟩ := List.exists_cons_of_ne_nil hmore
        have hle := (trimmed_isPrefix (first :: (next :: more).dropLast)).length_le
        have hle' := (trimmed_isPrefix p.segments).length_le
        rw [htrimmed] at hle'
        simp only [List.length_cons, List.length_dropLast] at hle hle'
        omega
      have hslash : ∀ s ∈ trimmed (first :: rest.dropLast), '/' ∉ s.toList := by
        intro s hs
        have hmem := (trimmed_isPrefix (first :: rest.dropLast)).subset hs
        have hsub : s ∈ first :: rest := by
          rcases List.mem_cons.mp hmem with rfl | hm
          · exact List.mem_cons_self
          · exact List.mem_cons_of_mem _ (List.dropLast_subset rest hm)
        exact noSlash_of_mem_segments ((trimmed_isPrefix p.segments).subset (htrimmed ▸ hsub))
      unfold ofSegments
      split
      · exact Or.inl (by decide)
      · rw [segments, segmentsOf_joined (by simp [trimmed]) hslash]
        exact Or.inr hshort
  rw [hp]
  unfold height
  split
  · exact hpos
  · exact hcases.resolve_left ‹_›

/-- What holds of a path when it holds of its parent holds of every path. -/
theorem by_parent {P : Path → Prop} (step : ∀ p, (∀ q, p.parent? = some q → P q) → P p) (p : Path) :
    P p := by
  induction h : p.height using Nat.strong_induction_on generalizing p with
  | _ n ih => exact step p fun q hq => ih q.height (h ▸ height_lt hq) q rfl

theorem ancestors_go_eq {n m : Nat} {p : Path} (hn : p.height < n) (hm : p.height < m) :
    ancestors.go n p = ancestors.go m p := by
  induction n generalizing p m with
  | zero => omega
  | succ n ih =>
    obtain ⟨m, rfl⟩ : ∃ k, m = k + 1 := ⟨m - 1, by omega⟩
    rw [ancestors.go, ancestors.go]
    cases h : p.parent? with
    | none => rfl
    | some q =>
      have hq := height_lt h
      exact congrArg (p :: ·) (ih (by omega) (by omega))

/-- The paths above one are its parent and those above that. -/
theorem ancestors_of_parent? {p q : Path} (h : p.parent? = some q) : p.ancestors = p :: q.ancestors := by
  have hq := height_lt h
  have hp : p.height = p.segments.length := by simp [height, h]
  have hbound : q.height < q.segments.length + 1 := by
    unfold height
    split <;> omega
  rw [ancestors, ancestors.go, h, ancestors]
  exact congrArg (p :: ·) (ancestors_go_eq (by omega) hbound)

theorem isEmpty_ancestors (q : Path) : q.ancestors.isEmpty = false := rfl

theorem ancestors_of_parent?_none {p : Path} (h : p.parent? = none) : p.ancestors = [p] := by
  rw [ancestors, ancestors.go, h]

end StubListing.Path
