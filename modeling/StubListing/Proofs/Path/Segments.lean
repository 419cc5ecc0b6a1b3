import StubListing.Path
/-!
# Segments of joined paths

Joining a name to a path puts one segment behind those of the path. A segment that leads nowhere
may have to go first, when the text of the path is empty or ends in a slash.
-/
namespace StubListing.Path
open StubListing.Text

/-! ## Cutting and joining texts -/

theorem pieces_append_mark (mark : Char) (s t : List Char) :
    pieces mark (s ++ mark :: t) = pieces mark s ++ pieces mark t := by
  induction s with
  | nil => simp [pieces]
  | cons c rest ih =>
    by_cases hc : c = mark
    · simp [pieces, hc, ih]
    · simp only [List.cons_append, pieces, hc, if_false, ih]
      cases hp : pieces mark rest with
      | nil => exact absurd hp (pieces_ne_nil mark rest)
      | cons first others => simp

theorem toList_joined_slash (segments : List String) :
    (joined "/" segments).toList = unpieces '/' (segments.map String.toList) := by
  induction segments with
  | nil => rfl
  | cons word rest ih =>
    cases rest with
    | nil => simp [unpieces]
    | cons next more =>
      rw [joined_cons_cons, String.toList_append, String.toList_append, ih]
      simp [unpieces]

theorem joined_segmentsOf (text : String) : joined "/" (segmentsOf text) = text := by
  apply String.toList_inj.mp
  rw [toList_joined_slash, segmentsOf, List.map_map]
  have h : String.toList ∘ String.ofList = id := funext fun s => String.toList_ofList
  rw [h, List.map_id, unpieces_pieces]

theorem segmentsOf_ne_nil (text : String) : segmentsOf text ≠ [] := by
  simp [segmentsOf, pieces_ne_nil]

theorem segmentsOf_of_not_mem {text : String} (h : '/' ∉ text.toList) :
    segmentsOf text = [text] := by
  simp [segmentsOf, pieces_of_not_mem h]

theorem segmentsOf_append_slash (s t : String) :
    segmentsOf (s ++ "/" ++ t) = segmentsOf s ++ segmentsOf t := by
  simp [segmentsOf, String.toList_append, pieces_append_mark]

theorem mem_unpieces {mark c : Char} {pieces' : List (List Char)} {piece : List Char}
    (hp : piece ∈ pieces') (hc : c ∈ piece) : c ∈ unpieces mark pieces' := by
  induction pieces' with
  | nil => cases hp
  | cons first rest ih =>
    cases rest with
    | nil => rwa [unpieces, ← List.mem_singleton.mp hp]
    | cons next more =>
      rw [unpieces, List.mem_append, List.mem_cons]
      · rcases List.mem_cons.mp hp with rfl | hp
        · exact Or.inl hc
        · exact Or.inr (Or.inr (ih hp))
      · simp

/-- A segment has no characters but those of the path. -/
theorem mem_of_mem_segments {p : Path} {s : String} {c : Char} (hs : s ∈ p.segments)
    (hc : c ∈ s.toList) : c ∈ p.text.toList := by
  simp only [segments, segmentsOf, List.mem_map] at hs
  obtain ⟨piece, hp, rfl⟩ := hs
  rw [String.toList_ofList] at hc
  rw [← unpieces_pieces '/' p.text.toList]
  exact mem_unpieces hp hc

/-! ## Names that can stand in a tree -/

/-- A name that leads from a directory to something in it, and that some file may have. -/
structure IsEntryName (name : String) : Prop where
  noSlash : '/' ∉ name.toList
  notIdle : isIdle name = false
  notUp : name ≠ ".."

theorem isFileName_iff {name : String} :
    isFileName name = true ↔
      name ≠ "" ∧ name ≠ "." ∧ name ≠ ".." ∧
        ∀ x ∈ name.toList, x ≠ '/' ∧ x ≠ '\\' ∧ x ≠ '\x00' := by
  simp [isFileName, and_assoc]

theorem isEntryName_of_isFileName {name : String} (h : isFileName name = true) :
    IsEntryName name := by
  obtain ⟨hempty, hdot, hup, hall⟩ := isFileName_iff.mp h
  refine ⟨fun hm => ?_, ?_, hup⟩
  · exact (hall _ hm).1 rfl
  · simp [isIdle, hempty, hdot]

theorem IsEntryName.ne_empty {name : String} (h : IsEntryName name) : name ≠ "" := by
  rintro rfl
  exact absurd h.notIdle (by decide)

theorem IsEntryName.ne_dot {name : String} (h : IsEntryName name) : name ≠ "." := by
  rintro rfl
  exact absurd h.notIdle (by decide)

theorem IsEntryName.toList_ne_nil {name : String} (h : IsEntryName name) : name.toList ≠ [] := by
  intro he
  exact h.ne_empty (String.toList_inj.mp (by simpa using he))

theorem IsEntryName.head_ne_slash {name : String} (h : IsEntryName name) :
    name.toList.head? ≠ some '/' := by
  intro he
  exact h.noSlash (List.mem_of_mem_head? he)

/-- A file name with an extension behind it is a name again. -/
theorem isEntryName_append {name extension : String} (h : IsEntryName name)
    (he : '/' ∉ extension.toList) : IsEntryName (name ++ "." ++ extension) := by
  have hlist : (name ++ "." ++ extension).toList = name.toList ++ '.' :: extension.toList := by
    simp [String.toList_append]
  have hdots : ∀ n : Nat, n ≤ 2 → (name ++ "." ++ extension).toList ≠ List.replicate n '.' := by
    intro n hn heq
    rw [hlist] at heq
    have hlen := congrArg List.length heq
    simp only [List.length_append, List.length_cons, List.length_replicate] at hlen
    have hpos := List.length_pos_iff.mpr h.toList_ne_nil
    have hone : name.toList.length = 1 := by omega
    obtain ⟨x, hx⟩ := List.length_eq_one_iff.mp hone
    have hmem : x ∈ List.replicate n '.' := by rw [← heq, hx]; simp
    rw [List.eq_of_mem_replicate hmem] at hx
    exact h.ne_dot (String.toList_inj.mp hx)
  refine ⟨?_, ?_, fun e => hdots 2 (by decide) (by rw [e]; rfl)⟩
  · rw [hlist, List.mem_append, List.mem_cons, not_or, not_or]
    exact ⟨h.noSlash, by decide, he⟩
  · simp only [isIdle, Bool.or_eq_false_iff, String.isEmpty_eq_false_iff, beq_eq_false_iff_ne]
    exact ⟨fun e => hdots 0 (by decide) (by rw [e]; rfl), fun e => hdots 1 (by decide) (by rw [e]; rfl)⟩

/-! ## Segments that matter -/

/-- The segments that lead somewhere, in order. -/
def moves (p : Path) : List String := p.segments.filter fun s => !isIdle s

/-- What separates a path from a name that is joined to it: nothing if the path is empty, the
slash that is there, or a new one. -/
theorem text_join (root : Path) {name : String} (h : IsEntryName name) :
    (root.text = "" ∧ (root.join name).text = name) ∨
      (∃ front, root.text = front ++ "/" ∧ (root.join name).text = front ++ "/" ++ name) ∨
      (root.text ≠ "" ∧ (root.join name).text = root.text ++ "/" ++ name) := by
  have hhead : (name.toList.head? == some '/') = false := by simpa using h.head_ne_slash
  unfold join
  rw [hhead, if_neg (by decide)]
  split
  · rename_i hend
    simp only [Bool.or_eq_true, String.isEmpty_iff, beq_iff_eq] at hend
    rcases hend with hempty | hslash
    · exact Or.inl ⟨hempty, by simp [hempty]⟩
    · obtain ⟨front, hfront⟩ := List.getLast?_eq_some_iff.mp hslash
      have htext : root.text = String.ofList front ++ "/" := by
        apply String.toList_inj.mp
        simp [hfront]
      exact Or.inr (Or.inl ⟨String.ofList front, htext, by rw [htext]⟩)
  · rename_i hend
    simp only [Bool.or_eq_true, String.isEmpty_iff, not_or] at hend
    exact Or.inr (Or.inr ⟨hend.1, rfl⟩)

/-- A joined name is the last segment; at most one idle segment of the path gives way to it. -/
theorem segments_join (root : Path) {name : String} (h : IsEntryName name) :
    ∃ front, (root.join name).segments = front ++ [name] ∧
      (root.segments = front ∨ root.segments = front ++ [""]) := by
  have hname := segmentsOf_of_not_mem h.noSlash
  rcases text_join root h with ⟨hempty, htext⟩ | ⟨front, hfront, htext⟩ | ⟨hne, htext⟩
  · refine ⟨[], ?_, Or.inr ?_⟩
    · simp [segments, htext, hname]
    · simp [segments, hempty, segmentsOf, pieces]
  · refine ⟨segmentsOf front, ?_, Or.inr ?_⟩
    · rw [segments, htext, segmentsOf_append_slash, hname]
    · have hroot : root.text = front ++ "/" ++ "" := by simp [hfront]
      rw [segments, hroot, segmentsOf_append_slash]
      simp [segmentsOf, pieces]
  · refine ⟨root.segments, ?_, Or.inl rfl⟩
    rw [segments, htext, segmentsOf_append_slash, hname]
    rfl

/-- What stands in front of a joined name makes the moves of the path. -/
theorem segments_join_moves (root : Path) {name : String} (h : IsEntryName name) :
    ∃ front, (root.join name).segments = front ++ [name] ∧
      front.filter (fun s => !isIdle s) = root.moves := by
  obtain ⟨front, hjoin, hroot⟩ := segments_join root h
  refine ⟨front, hjoin, ?_⟩
  have hidle : isIdle "" = true := rfl
  rcases hroot with hroot | hroot <;> simp [moves, hroot, hidle]

theorem moves_join (root : Path) {name : String} (h : IsEntryName name) :
    (root.join name).moves = root.moves ++ [name] := by
  obtain ⟨front, hjoin, hfront⟩ := segments_join_moves root h
  rw [moves, hjoin, List.filter_append, hfront]
  simp [h.notIdle]

/-- A path stays absolute or relative when a name is joined to it. -/
theorem isAbsolute_join (root : Path) {name : String} (h : IsEntryName name) :
    (root.join name).isAbsolute = root.isAbsolute := by
  have hhead := h.head_ne_slash
  unfold isAbsolute
  rcases text_join root h with ⟨hempty, htext⟩ | ⟨front, hfront, htext⟩ | ⟨hne, htext⟩
  · simp [hempty, htext, hhead]
  · have hslash : (front ++ "/").toList ≠ [] := by simp
    rw [htext, hfront, String.toList_append, List.head?_append, List.head?_eq_some_head hslash,
      Option.some_or]
  · have hroot : root.text.toList ≠ [] := fun e => hne (String.toList_inj.mp (by simpa using e))
    rw [htext, String.append_assoc, String.toList_append, List.head?_append,
      List.head?_eq_some_head hroot, Option.some_or]

theorem text_join_ne_empty (root : Path) {name : String} (h : IsEntryName name) :
    (root.join name).text ≠ "" := by
  rcases text_join root h with ⟨_, htext⟩ | ⟨front, _, htext⟩ | ⟨_, htext⟩ <;>
    simp [htext, h.ne_empty]

theorem text_isPrefix_join (root : Path) {name : String} (h : IsEntryName name) :
    root.text.toList <+: (root.join name).text.toList := by
  rcases text_join root h with ⟨hempty, -⟩ | ⟨front, hfront, htext⟩ | ⟨-, htext⟩
  · rw [hempty]
    exact List.nil_prefix
  · rw [hfront, htext]
    simp [String.toList_append]
  · rw [htext]
    simp [String.toList_append]

/-- A joined path is as long as its parts, with or without a slash. -/
theorem utf8ByteSize_join (root : Path) {name : String} (h : IsEntryName name) :
    root.text.utf8ByteSize + name.utf8ByteSize ≤ (root.join name).text.utf8ByteSize ∧
      (root.join name).text.utf8ByteSize ≤ root.text.utf8ByteSize + 1 + name.utf8ByteSize := by
  have hslash : "/".utf8ByteSize = 1 := by decide
  rcases text_join root h with ⟨hempty, htext⟩ | ⟨front, hfront, htext⟩ | ⟨-, htext⟩
  · rw [hempty, htext, String.utf8ByteSize_empty]
    omega
  · rw [hfront, htext]
    simp only [String.utf8ByteSize_append]
    omega
  · rw [htext]
    simp only [String.utf8ByteSize_append]
    omega

theorem mem_text_join (root : Path) {name : String} (h : IsEntryName name) {c : Char}
    (hc : c ∈ (root.join name).text.toList) :
    c ∈ root.text.toList ∨ c = '/' ∨ c ∈ name.toList := by
  rcases text_join root h with ⟨-, htext⟩ | ⟨front, hfront, htext⟩ | ⟨-, htext⟩ <;>
    rw [htext] at hc
  · exact Or.inr (Or.inr hc)
  · rw [hfront]
    simpa [String.toList_append, or_assoc] using hc
  · simpa [String.toList_append] using hc

theorem getLast?_text_join (root : Path) {name : String} (h : IsEntryName name) :
    (root.join name).text.toList.getLast? ≠ some '/' := by
  have hlast : ∀ front : List Char, (front ++ name.toList).getLast? ≠ some '/' := by
    intro front hf
    rw [List.getLast?_append, List.getLast?_eq_some_getLast h.toList_ne_nil, Option.some_or] at hf
    exact h.noSlash (Option.some.inj hf ▸ List.getLast_mem _)
  rcases text_join root h with ⟨_, htext⟩ | ⟨front, _, htext⟩ | ⟨_, htext⟩ <;>
    rw [htext]
  · exact hlast []
  · rw [String.toList_append]; exact hlast _
  · rw [String.toList_append]; exact hlast _

/-! ## Paths above joined ones -/

theorem components_ne_nil {p : Path} (h : p.moves ≠ []) : p.components ≠ [] := by
  unfold components
  cases hs : p.segments with
  | nil => exact absurd (by rw [moves, hs]; rfl) h
  | cons first rest =>
    rw [moves, hs, List.filter_cons] at h
    intro he
    obtain ⟨hstart, hrest⟩ := List.append_eq_nil_iff.mp he
    rw [List.map_eq_nil_iff] at hrest
    rw [hrest] at h
    split at hstart
    · cases hstart
    · split at hstart
      · rename_i hempty
        simp [isIdle, hempty] at h
      · split at hstart <;> cases hstart

theorem components_join (root : Path) {name : String} (h : IsEntryName name) :
    (root.join name).components = root.components ++ [.name name] := by
  obtain ⟨front, hjoin, hroot⟩ := segments_join root h
  have habs := isAbsolute_join root h
  have hidle : isIdle "" = true := rfl
  unfold components
  rw [hjoin, habs]
  cases front with
  | nil =>
    have hroot : root.segments = [""] := hroot.resolve_left (segmentsOf_ne_nil _)
    have hrel : root.isAbsolute = false := by
      rw [isAbsolute, ← joined_segmentsOf root.text, show segmentsOf root.text = [""] from hroot]
      rfl
    rw [hroot, hrel]
    simp [h.ne_empty, h.ne_dot, stepOf, h.notUp]
  | cons first rest =>
    rcases hroot with hroot | hroot <;>
      simp [hroot, hidle, h.notIdle, stepOf, h.notUp, List.filter_append]

theorem trimmed_append {front : List String} {name : String} (h : IsEntryName name) :
    trimmed (front ++ [name]) = front ++ [name] := by
  cases front with
  | nil => rfl
  | cons first rest => simp [trimmed, h.notIdle]

theorem ofSegments_append (p : Path) (absolute : Bool) {front : List String} {name : String}
    (h : IsEntryName name) (hp : p.segments = front ++ [name]) :
    ofSegments absolute (front ++ [name]) = p := by
  have hne : (front ++ [name] == [""]) = false := by
    cases front with
    | nil => simpa using h.ne_empty
    | cons first rest => simp
  unfold ofSegments
  rw [hne, Bool.and_false, if_neg (by decide), ← hp, segments, joined_segmentsOf]

/-- Two joined names are the last two segments. -/
theorem segments_join_join (root : Path) {directory name : String} (hd : IsEntryName directory)
    (hn : IsEntryName name) :
    ∃ front, (root.join directory).segments = front ++ [directory] ∧
      ((root.join directory).join name).segments = front ++ [directory] ++ [name] ∧
      front.filter (fun s => !isIdle s) = root.moves := by
  obtain ⟨front, hfront, hmoves⟩ := segments_join_moves root hd
  obtain ⟨front', hjoin, hroot⟩ := segments_join (root.join directory) hn
  refine ⟨front, hfront, ?_, hmoves⟩
  have hsame : front' = front ++ [directory] := by
    rcases hroot with hroot | hroot
    · rw [← hroot, hfront]
    · rw [hfront] at hroot
      have := congrArg List.getLast? hroot
      simp only [List.getLast?_concat, Option.some.injEq] at this
      exact absurd this hd.ne_empty
  rw [hjoin, hsame]

/-- The directory of a path two names below another one is one name below it, to the letter. -/
theorem parent?_join_join (root : Path) {directory name : String} (hd : IsEntryName directory)
    (hn : IsEntryName name) :
    ((root.join directory).join name).parent? = some (root.join directory) := by
  obtain ⟨front, hfront, hjoin, _⟩ := segments_join_join root hd hn
  unfold parent?
  rw [hjoin, trimmed_append hn]
  cases hf : front ++ [directory] with
  | nil => simp at hf
  | cons first rest =>
    have hrest : (first :: (rest ++ [name]).dropLast) = front ++ [directory] := by simp [hf]
    cases hmore : rest ++ [name] with
    | nil => simp at hmore
    | cons next more =>
      rw [hmore] at hrest
      simp only [List.cons_append, hmore, hrest, trimmed_append hd,
        ofSegments_append (root.join directory) _ hd hfront]

end StubListing.Path
