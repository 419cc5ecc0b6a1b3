import StubListing.Proofs.Path.Parent
/-!
# Paths below a root

What is left of a path when the root in front of it is taken away, and the extension of the name it
ends in.
-/
namespace StubListing.Path
open StubListing.Text

/-! ## Names and extensions -/

/-- The names on a path stand between its slashes. -/
theorem mem_segments_of_component {p : Path} {s : String} (h : Component.name s ∈ p.components) :
    s ∈ p.segments := by
  have hstep : ∀ t, stepOf t = .name s → t = s := by
    intro t ht
    unfold stepOf at ht
    split at ht
    · cases ht
    · cases ht
      rfl
  unfold components at h
  cases hs : p.segments with
  | nil => rw [hs] at h; cases h
  | cons first rest =>
    rw [hs] at h
    rcases List.mem_append.mp h with hstart | hrest
    · split at hstart
      · simp at hstart
      · split at hstart
        · simp at hstart
        · split at hstart
          · simp at hstart
          · have := hstep first (List.mem_singleton.mp hstart).symm
            simp [this]
    · obtain ⟨t, ht, heq⟩ := List.mem_map.mp hrest
      have := hstep t heq
      subst this
      exact List.mem_cons_of_mem _ (List.mem_filter.mp ht).1

theorem noSlash_of_extension? {p : Path} {extension : String} (h : p.extension? = some extension) :
    '/' ∉ extension.toList := by
  unfold extension? at h
  obtain ⟨name, hname, hext⟩ := Option.bind_eq_some_iff.mp h
  have hslash : '/' ∉ name.toList := by
    unfold fileName? at hname
    split at hname
    · rename_i last hlast
      cases hname
      exact noSlash_of_mem_segments (mem_segments_of_component (List.mem_of_getLast? hlast))
    · cases hname
  unfold extensionOf? at hext
  dsimp only at hext
  split at hext
  · cases hext
  · cases hext
    intro hm
    rw [String.toList_ofList, List.mem_reverse] at hm
    have := List.takeWhile_subset _ hm
    exact hslash (List.mem_reverse.mp this)

theorem fileName?_join (root : Path) {name : String} (h : IsEntryName name) :
    (root.join name).fileName? = some name := by
  unfold fileName?
  rw [components_join root h, List.getLast?_concat]

/-- The extension is what was put behind the dot, if it has no dot itself. -/
theorem extensionOf?_append {name extension : String} (hname : name ≠ "")
    (hdot : '.' ∉ extension.toList) : extensionOf? (name ++ "." ++ extension) = some extension := by
  have hreversed : (name ++ "." ++ extension).toList.reverse =
      extension.toList.reverse ++ '.' :: name.toList.reverse := by
    simp [String.toList_append]
  have hall : ∀ c ∈ extension.toList.reverse, (c != '.') = true := by
    intro c hc
    simp only [bne_iff_ne, ne_eq]
    rintro rfl
    exact hdot (List.mem_reverse.mp hc)
  have htake : (extension.toList.reverse ++ '.' :: name.toList.reverse).takeWhile (· != '.') =
      extension.toList.reverse := by
    rw [List.takeWhile_append_of_pos hall]
    simp
  have hdrop : (extension.toList.reverse ++ '.' :: name.toList.reverse).dropWhile (· != '.') =
      '.' :: name.toList.reverse := by
    rw [List.dropWhile_append_of_pos hall]
    simp
  have hstem : ¬ name.toList.reverse.isEmpty = true := by
    simpa [String.toList_eq_nil_iff] using hname
  unfold extensionOf?
  rw [hreversed]
  simp only [htake, hdrop, List.drop_succ_cons, List.drop_zero, if_neg hstem, List.reverse_reverse,
    String.ofList_toList]

/-! ## Taking the root away -/

theorem join_text {directory name : String} (hd : IsEntryName directory) (hn : IsEntryName name) :
    (⟨directory⟩ : Path).join name = ⟨directory ++ "/" ++ name⟩ := by
  have htext : ((⟨directory⟩ : Path).join name).text = directory ++ "/" ++ name := by
    rcases text_join ⟨directory⟩ hn with ⟨hempty, -⟩ | ⟨front, hfront, -⟩ | ⟨-, htext⟩
    · exact absurd hempty hd.ne_empty
    · refine absurd ?_ hd.noSlash
      rw [show directory = front ++ "/" from hfront]
      simp [String.toList_append]
    · exact htext
  rw [← htext]

/-- Steps beyond those of the root are left over. -/
theorem afterSteps_append (front : List String) {name : String} (h : isIdle name = false)
    (rest : List String) :
    afterSteps (front.filter fun s => !isIdle s).length (front ++ name :: rest) = name :: rest := by
  induction front with
  | nil => simp [afterSteps, h]
  | cons first front ih =>
    cases hfirst : isIdle first with
    | true =>
      have hskip : ∀ n segments, afterSteps n (first :: segments) = afterSteps n segments := by
        intro n segments
        cases n <;> simp [afterSteps, hfirst]
      simpa [hfirst, hskip] using ih
    | false => simpa [hfirst, afterSteps] using ih

/-- A path that is not empty has one component for its front, and one for each step behind it. -/
theorem length_components_of_join (root : Path) {directory first : String} {more : List String}
    (hd : IsEntryName directory) (hjoin : (root.join directory).segments = first :: more ++ [directory])
    (hroot : root.segments = first :: more ∨ root.segments = first :: more ++ [""]) :
    root.components.length = (more.filter fun s => !isIdle s).length + 1 := by
  have hidle : isIdle "" = true := rfl
  have hstart : root.isAbsolute = true ∨ first ≠ "" := by
    by_cases hfirst : first = ""
    · left
      rw [← isAbsolute_join root hd, isAbsolute_iff, hjoin, hfirst]
      cases more with
      | nil => exact ⟨directory, [], rfl⟩
      | cons next more => exact ⟨next, more ++ [directory], rfl⟩
    · exact Or.inr hfirst
  have hhead : (if root.isAbsolute = true then [Component.root]
      else if first = "" then []
      else if first = "." then [.here]
      else [stepOf first]).length = 1 := by
    rcases hstart with habs | hne
    · rw [if_pos habs]
      rfl
    · rw [if_neg hne]
      repeat' split
      all_goals rfl
  unfold components
  rcases hroot with hroot | hroot <;>
    simpa [hroot, hidle, List.filter_append, Nat.add_comm] using hhead

/-- What is two names below a root is named by the two names. -/
theorem below?_join_join (root : Path) {directory name : String} (hd : IsEntryName directory)
    (hn : IsEntryName name) :
    root.below? ((root.join directory).join name) = some ⟨directory ++ "/" ++ name⟩ := by
  obtain ⟨front, hfront, hjoin, -⟩ := segments_join_join root hd hn
  have hcomponents : ((root.join directory).join name).components =
      root.components ++ [.name directory, .name name] := by
    rw [components_join _ hn, components_join _ hd, List.append_assoc]
    rfl
  have hinitial : root.components.isPrefixOf ((root.join directory).join name).components = true := by
    rw [hcomponents, List.isPrefixOf_iff_prefix]
    exact List.prefix_append _ _
  have hpair : ofSegments false [directory, name] = ⟨directory ++ "/" ++ name⟩ := rfl
  have habs : ((root.join directory).join name).isAbsolute = root.isAbsolute := by
    rw [isAbsolute_join _ hn, isAbsolute_join _ hd]
  unfold below?
  rw [if_pos hinitial, hjoin, trimmed_append hn, habs]
  obtain ⟨front', hfront', hroot⟩ := segments_join root hd
  rw [hfront] at hfront'
  obtain rfl := (List.append_inj' hfront' rfl).1
  cases front with
  | nil =>
    have hroot : root.segments = [""] := hroot.resolve_left (segmentsOf_ne_nil _)
    have hrelative : root.isAbsolute = false := by
      rw [Bool.eq_false_iff, ne_eq, isAbsolute_iff, hroot]
      simp
    have hlength : root.components.length = 0 := by simp [components, hroot, hrelative]
    rw [hlength, hrelative]
    rfl
  | cons first more =>
    rw [length_components_of_join root hd hfront hroot]
    simp only [List.cons_append, List.drop_succ_cons, List.drop_zero, List.append_assoc,
      List.nil_append]
    rw [afterSteps_append more hd.notIdle, hpair]

end StubListing.Path
