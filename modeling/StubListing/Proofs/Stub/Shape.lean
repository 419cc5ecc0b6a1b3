import StubListing.Stub.Line
/-!
# What a type name shows

Of a mention of a type its name shows the shape: the name without arity marker, and the shapes of the
arguments. Namespaces and the numbers behind arity markers are not shown. The shape can be read back, at
any depth, if the names have none of the marks that stand between the parts of a type name. So a text
that starts with a type name starts with one only, as long as a mark follows that may follow a type.
-/
namespace StubListing

namespace Catalog

/-- The visible part of a mention. -/
inductive Shape where
  | leaf (name : String)
  | node (name : String) (arguments : List Shape)
  deriving Repr, Inhabited

namespace TypeRef

/-- What holds of a mention when it holds of its arguments holds of all mentions. -/
@[elab_as_elim]
theorem byArguments {P : TypeRef → Prop} (h : ∀ t : TypeRef, (∀ a ∈ t.arguments, P a) → P t) :
    ∀ t, P t
  | ⟨name, ns, arguments⟩ => h ⟨name, ns, arguments⟩ fun a _ => byArguments h a

mutual

/-- A generic type has its arguments in its shape, and no arity marker. -/
def shape : TypeRef → Shape
  | ⟨name, ns, arguments⟩ =>
    if (TypeRef.mk name ns arguments).isGeneric then .node (Stub.bareName name) (shapes arguments)
    else .leaf name

def shapes : List TypeRef → List Shape
  | [] => []
  | t :: rest => shape t :: shapes rest

end

mutual

/-- The names in a mention, at every depth. -/
def names : TypeRef → List String
  | ⟨name, _, arguments⟩ => name :: namesAmong arguments

def namesAmong : List TypeRef → List String
  | [] => []
  | t :: rest => names t ++ namesAmong rest

end

theorem shape_eq (t : TypeRef) :
    t.shape = if t.isGeneric then .node (Stub.bareName t.name) (t.arguments.map shape)
      else .leaf t.name := by
  have hshapes : ∀ types : List TypeRef, shapes types = types.map shape := by
    intro types
    induction types with
    | nil => simp [shapes]
    | cons t rest ih => simp [shapes, ih]
  cases t
  rw [shape, hshapes]

theorem names_eq (t : TypeRef) : t.names = t.name :: t.arguments.flatMap names := by
  have hnames : ∀ types : List TypeRef, namesAmong types = types.flatMap names := by
    intro types
    induction types with
    | nil => simp [namesAmong]
    | cons t rest ih => simp [namesAmong, ih]
  cases t
  rw [names, hnames]

end TypeRef

end Catalog

namespace Stub
open StubListing.Catalog StubListing.Text

theorem typeName_eq (t : TypeRef) :
    typeName t = if t.isGeneric then
        bareName t.name ++ "<" ++ joined listSeparator (t.arguments.map typeName) ++ ">"
      else t.name := by
  cases t
  rw [typeName, typeNames_eq_map]

/-! ## Words and what follows them -/

/-- The name has something in it, and none of the marks. -/
def Unmarked (marks : List Char) (name : String) : Prop :=
  name ≠ "" ∧ ∀ c ∈ name.toList, c ∉ marks

/-- It is decided by going through the name, not through all characters. -/
instance (marks : List Char) (name : String) : Decidable (Unmarked marks name) :=
  decidable_of_iff (name ≠ "" ∧ name.toList.all (fun c => !marks.contains c) = true)
    (by simp [Unmarked])

/-- A word without marks ends where a mark follows. -/
theorem word_append_inj {marks a b r r' : List Char} (ha : ∀ c ∈ a, c ∉ marks)
    (hb : ∀ c ∈ b, c ∉ marks) (hr : ∀ c ∈ r.head?, c ∈ marks) (hr' : ∀ c ∈ r'.head?, c ∈ marks)
    (h : a ++ r = b ++ r') : a = b ∧ r = r' := by
  induction a generalizing b with
  | nil =>
    cases b with
    | nil => exact ⟨rfl, h⟩
    | cons c b => exact absurd (hr c (by simpa using congrArg List.head? h)) (hb c List.mem_cons_self)
  | cons c a ih =>
    cases b with
    | nil => exact absurd (hr' c (by simpa using (congrArg List.head? h).symm)) (ha c List.mem_cons_self)
    | cons d b =>
      obtain ⟨rfl, htail⟩ := List.cons.inj h
      obtain ⟨rfl, hrest⟩ := ih (fun c hc => ha c (List.mem_cons_of_mem _ hc))
        (fun c hc => hb c (List.mem_cons_of_mem _ hc)) htail
      exact ⟨rfl, hrest⟩

/-- What may stand behind a type name: nothing, or a text that begins like this. -/
def Follows (r : List Char) : Prop := ∀ c ∈ r.head?, c = ' ' ∨ c = '>'

/-- What may stand behind a list: nothing, or the end of the brackets. -/
def Closes (r : List Char) : Prop := ∀ c ∈ r.head?, c = '>'

theorem Closes.follows {r : List Char} (h : Closes r) : Follows r := fun c hc => Or.inr (h c hc)

theorem follows_space (r : List Char) : Follows (' ' :: r) := by simp [Follows]

section
variable {α : Type} {text : α → String}

/-- What follows the first one in a list. -/
def others (texts : List String) : List Char :=
  match texts with
  | [] => []
  | next :: rest => listSeparator.toList ++ (joined listSeparator (next :: rest)).toList

theorem toList_joined_cons (first : String) (rest : List String) :
    (joined listSeparator (first :: rest)).toList = first.toList ++ others rest := by
  cases rest with
  | nil => simp [others]
  | cons next more => rw [joined_cons_cons, String.toList_append, String.toList_append,
      List.append_assoc, others]

theorem follows_others {r : List Char} (texts : List String) (hr : Closes r) :
    Follows (others texts ++ r) := by
  cases texts with
  | nil => exact hr.follows
  | cons next rest =>
    intro c hc
    have hspace : listSeparator.toList.head? = some ' ' := by decide
    rw [others, List.append_assoc, List.head?_append, hspace, Option.some_or, Option.mem_some_iff] at hc
    exact Or.inl hc.symm

/-- The end of a list is no further item. -/
theorem others_append_ne {r r' : List Char} (next : String) (rest : List String) (hr : Closes r) :
    r ≠ others (next :: rest) ++ r' := by
  rintro rfl
  have hspace : listSeparator.toList.head? = some ' ' := by decide
  have := hr ' ' (by rw [others, List.append_assoc, List.head?_append, hspace]; rfl)
  cases this

/-- Items that can be told from what follows them can be told in a list, where separators stand between
them. -/
theorem joined_append_inj {xs ys : List α} {r r' : List Char}
    (hitem : ∀ x ∈ xs, ∀ y ∈ ys, ∀ r r', Follows r → Follows r' →
      (text x).toList ++ r = (text y).toList ++ r' → x = y ∧ r = r')
    (hxs : ∀ x ∈ xs, ∀ r, ¬ Closes ((text x).toList ++ r))
    (hys : ∀ y ∈ ys, ∀ r, ¬ Closes ((text y).toList ++ r)) (hr : Closes r) (hr' : Closes r')
    (h : (joined listSeparator (xs.map text)).toList ++ r =
      (joined listSeparator (ys.map text)).toList ++ r') : xs = ys ∧ r = r' := by
  induction xs generalizing ys with
  | nil =>
    cases ys with
    | nil => exact ⟨rfl, h⟩
    | cons y ys =>
      rw [List.map_cons, toList_joined_cons, List.append_assoc] at h
      have hstart : r = (text y).toList ++ _ := h
      exact absurd (hstart ▸ hr) (hys y List.mem_cons_self _)
  | cons x xs ih =>
    cases ys with
    | nil =>
      rw [List.map_cons, toList_joined_cons, List.append_assoc] at h
      have hstart : r' = (text x).toList ++ _ := h.symm
      exact absurd (hstart ▸ hr') (hxs x List.mem_cons_self _)
    | cons y ys =>
      rw [List.map_cons, List.map_cons, toList_joined_cons, toList_joined_cons, List.append_assoc,
        List.append_assoc] at h
      obtain ⟨rfl, hrest⟩ := hitem x List.mem_cons_self y List.mem_cons_self _ _
        (follows_others _ hr) (follows_others _ hr') h
      have hmore := fun x hx y hy => hitem x (List.mem_cons_of_mem _ hx) y (List.mem_cons_of_mem _ hy)
      have hxs' := fun x hx => hxs x (List.mem_cons_of_mem _ hx)
      have hys' := fun y hy => hys y (List.mem_cons_of_mem _ hy)
      cases xs with
      | nil =>
        cases ys with
        | nil => exact ⟨rfl, hrest⟩
        | cons z ys => exact absurd hrest (others_append_ne _ _ hr)
      | cons z xs =>
        cases ys with
        | nil => exact absurd hrest.symm (others_append_ne _ _ hr')
        | cons z' ys =>
          simp only [List.map_cons, others, List.append_assoc, List.append_cancel_left_eq] at hrest
          obtain ⟨heq, hend⟩ := ih hmore hxs' hys' hrest
          exact ⟨by rw [heq], hend⟩

end

/-! ## The text of a shape -/

mutual

/-- A shape in writing. -/
def shapeText : Shape → String
  | .leaf name => name
  | .node name arguments => name ++ "<" ++ joined listSeparator (shapeTexts arguments) ++ ">"

def shapeTexts : List Shape → List String
  | [] => []
  | s :: rest => shapeText s :: shapeTexts rest

end

theorem shapeTexts_eq_map (shapes : List Shape) : shapeTexts shapes = shapes.map shapeText := by
  induction shapes with
  | nil => simp [shapeTexts]
  | cons s rest ih => simp [shapeTexts, ih]

theorem shapeText_node_append (name : String) (arguments : List Shape) (r : List Char) :
    (shapeText (.node name arguments)).toList ++ r = name.toList ++
      '<' :: ((joined listSeparator (arguments.map shapeText)).toList ++ '>' :: r) := by
  rw [shapeText, shapeTexts_eq_map]
  simp only [String.toList_append, List.append_assoc]
  rfl

/-- A type name is its shape in writing. -/
theorem typeName_eq_shapeText (t : TypeRef) : typeName t = shapeText t.shape := by
  induction t using TypeRef.byArguments with
  | h t ih =>
    rw [typeName_eq, TypeRef.shape_eq]
    split
    · rw [shapeText, shapeTexts_eq_map, List.map_map, List.map_congr_left ih]
      rfl
    · rfl

/-! ## Reading shapes back -/

/-- The characters that stand between the parts of a type name. -/
def typeMarks : List Char := ['<', '>', ',', ' ']

theorem Follows.mem_marks {marks r : List Char} (h : Follows r) (hmarks : typeMarks ⊆ marks) :
    ∀ c ∈ r.head?, c ∈ marks := by
  intro c hc
  rcases h c hc with rfl | rfl <;> exact hmarks (by decide)

theorem arityMarker_not_mem_bareName (name : String) : arityMarker ∉ (bareName name).toList := by
  rw [bareName, String.toList_ofList]
  intro hm
  have hall := List.all_eq_true.mp (List.all_takeWhile (l := name.toList)) _ hm
  simp at hall

theorem mem_of_mem_bareName {name : String} {c : Char} (h : c ∈ (bareName name).toList) :
    c ∈ name.toList := by
  rw [bareName, String.toList_ofList] at h
  exact (List.takeWhile_sublist _).mem h

/-- What is in a list of words is in one of them or in the separator. -/
theorem mem_joined {separator : String} {words : List String} {c : Char}
    (h : c ∈ (joined separator words).toList) : c ∈ separator.toList ∨ ∃ w ∈ words, c ∈ w.toList := by
  induction words with
  | nil => simp at h
  | cons word rest ih =>
    cases rest with
    | nil => exact Or.inr ⟨word, List.mem_cons_self, h⟩
    | cons next more =>
      rw [joined_cons_cons, String.toList_append, String.toList_append, List.append_assoc,
        List.mem_append, List.mem_append] at h
      rcases h with h | h | h
      · exact Or.inr ⟨word, List.mem_cons_self, h⟩
      · exact Or.inl h
      · exact (ih h).imp id fun ⟨w, hw, hc⟩ => ⟨w, List.mem_cons_of_mem _ hw, hc⟩

theorem arityMarker_not_mem_typeName (t : TypeRef) : arityMarker ∉ (typeName t).toList := by
  induction t using TypeRef.byArguments with
  | h t ih =>
    rw [typeName_eq]
    split
    · have hopen : arityMarker ∉ "<".toList := by decide
      have hclose : arityMarker ∉ ">".toList := by decide
      simp only [String.toList_append, List.mem_append, not_or]
      refine ⟨⟨⟨arityMarker_not_mem_bareName _, hopen⟩, fun hm => ?_⟩, hclose⟩
      rcases mem_joined hm with hseparator | ⟨word, hword, hm⟩
      · exact absurd hseparator (by decide)
      · obtain ⟨a, ha, rfl⟩ := List.mem_map.mp hword
        exact ih a ha hm
    · rename_i hplain
      simp only [TypeRef.isGeneric, Bool.or_eq_true, List.contains_iff_mem, not_or] at hplain
      exact hplain.2

/-- No name in the shape has a mark, and no leaf is without a name. -/
inductive Plain (marks : List Char) : Shape → Prop
  | leaf {name : String} (hname : Unmarked marks name) : Plain marks (.leaf name)
  | node {name : String} {arguments : List Shape} (hname : ∀ c ∈ name.toList, c ∉ marks)
      (harguments : ∀ s ∈ arguments, Plain marks s) : Plain marks (.node name arguments)

theorem plain_shape {marks : List Char} (t : TypeRef) (h : ∀ name ∈ t.names, Unmarked marks name) :
    Plain marks t.shape := by
  induction t using TypeRef.byArguments with
  | h t ih =>
    rw [TypeRef.names_eq, List.forall_mem_cons] at h
    obtain ⟨hname, harguments⟩ := h
    rw [TypeRef.shape_eq]
    split
    · refine .node (fun c hc => hname.2 c (mem_of_mem_bareName hc)) fun s hs => ?_
      obtain ⟨a, ha, rfl⟩ := List.mem_map.mp hs
      exact ih a ha fun name hm => harguments name (List.mem_flatMap.mpr ⟨a, ha, hm⟩)
    · exact .leaf hname

variable {marks : List Char}

/-- A shape in writing begins with a name, which may be empty only in front of brackets. -/
theorem Plain.text_eq {s : Shape} (h : Plain marks s) :
    ∃ name more, (shapeText s).toList = name ++ more ∧ (∀ c ∈ name, c ∉ marks) ∧
      (more = [] ∧ name ≠ [] ∨ more.head? = some '<') := by
  cases h with
  | leaf hname =>
    refine ⟨_, [], (List.append_nil _).symm, hname.2, Or.inl ⟨rfl, fun he => hname.1 ?_⟩⟩
    exact String.toList_inj.mp he
  | @node name arguments hname _ =>
    have htext := shapeText_node_append name arguments []
    rw [List.append_nil] at htext
    exact ⟨_, _, htext, hname, Or.inr rfl⟩

theorem Plain.not_closes {s : Shape} (h : Plain marks s) (hmarks : typeMarks ⊆ marks) (r : List Char) :
    ¬ Closes ((shapeText s).toList ++ r) := by
  obtain ⟨name, more, htext, hname, hmore⟩ := h.text_eq
  rw [htext, List.append_assoc]
  intro hcloses
  cases name with
  | nil =>
    have hopen := hmore.resolve_left fun h => h.2 rfl
    have := hcloses '<' (by rw [List.nil_append, List.head?_append, hopen]; rfl)
    cases this
  | cons c name =>
    have hc := hcloses c rfl
    exact hname c List.mem_cons_self (hmarks (by rw [hc]; decide))

/-- A shape in writing can be cancelled in front of what may follow it. -/
theorem Plain.text_append_inj (hmarks : typeMarks ⊆ marks) {s t : Shape} (hs : Plain marks s)
    (ht : Plain marks t) {r r' : List Char} (hr : Follows r) (hr' : Follows r')
    (h : (shapeText s).toList ++ r = (shapeText t).toList ++ r') : s = t ∧ r = r' := by
  have hopen : '<' ∈ marks := hmarks (by decide)
  have hno : ∀ {r more : List Char}, Follows r → r ≠ '<' :: more := by
    rintro _ more hr rfl
    rcases hr '<' rfl with hc | hc <;> cases hc
  induction hs generalizing t r r' with
  | leaf hname =>
    cases ht with
    | leaf hname' =>
      obtain ⟨heq, hrest⟩ := word_append_inj hname.2 hname'.2 (hr.mem_marks hmarks)
        (hr'.mem_marks hmarks) h
      exact ⟨by rw [String.toList_inj.mp heq], hrest⟩
    | node hname' =>
      rw [shapeText_node_append] at h
      obtain ⟨-, hrest⟩ := word_append_inj hname.2 hname' (hr.mem_marks hmarks)
        (by simpa using hopen) h
      exact absurd hrest (hno hr)
  | node hname hplain ih =>
    rw [shapeText_node_append] at h
    cases ht with
    | leaf hname' =>
      obtain ⟨-, hrest⟩ := word_append_inj hname hname'.2 (by simpa using hopen)
        (hr'.mem_marks hmarks) h
      exact absurd hrest.symm (hno hr')
    | node hname' hplain' =>
      rw [shapeText_node_append] at h
      obtain ⟨heq, hrest⟩ := word_append_inj hname hname' (by simpa using hopen) (by simpa using hopen) h
      have hend : ∀ r : List Char, Closes ('>' :: r) := by simp [Closes]
      obtain ⟨rfl, hclosed⟩ := joined_append_inj
        (fun x hx y hy r r' hr hr' h => ih x hx (hplain' y hy) hr hr' h)
        (fun x hx => (hplain x hx).not_closes hmarks) (fun y hy => (hplain' y hy).not_closes hmarks)
        (hend _) (hend _) (List.cons.inj hrest).2
      exact ⟨by rw [String.toList_inj.mp heq], (List.cons.inj hclosed).2⟩

/-! ## Type names -/

/-- No arity marker is ever shown. Mentions of one shape are shown alike; and mentions that are shown
alike are of one shape, if none of their names, at any depth, is empty or has a mark of the notation. -/
theorem typeName_shows_shape :
    (∀ t : TypeRef, arityMarker ∉ (typeName t).toList) ∧
      (∀ t u : TypeRef, t.shape = u.shape → typeName t = typeName u) ∧
      ∀ t u : TypeRef, (∀ name ∈ t.names, Unmarked typeMarks name) →
        (∀ name ∈ u.names, Unmarked typeMarks name) → typeName t = typeName u → t.shape = u.shape := by
  refine ⟨arityMarker_not_mem_typeName, fun t u h => ?_, fun t u ht hu h => ?_⟩
  · rw [typeName_eq_shapeText, typeName_eq_shapeText, h]
  · rw [typeName_eq_shapeText, typeName_eq_shapeText] at h
    have hend : Follows [] := by simp [Follows]
    exact (Plain.text_append_inj (List.Subset.refl _) (plain_shape t ht) (plain_shape u hu) hend hend
      (by rw [h])).1

/-- Two ways to mention one type, with names that are nothing but an arity marker inside. -/
theorem typeName_shows_shape_of_dictionary :
    let t : TypeRef := ⟨"Dictionary`2", some "System", [.simple "String", .simple "`1"]⟩
    let u : TypeRef := ⟨"Dictionary", none, [.qualified "System" "String", .applied "``0" []]⟩
    typeName t = typeName u ∧ (typeName t = typeName u → t.shape = u.shape) ∧
      t.shape = .node "Dictionary" [.leaf "String", .node "" []] := by
  intro t u
  have hshape : t.shape = .node "Dictionary" [.leaf "String", .node "" []] := by rfl
  have hshape' : u.shape = .node "Dictionary" [.leaf "String", .node "" []] := by rfl
  obtain ⟨-, hshown, hread⟩ := typeName_shows_shape
  exact ⟨hshown t u (hshape.trans hshape'.symm), hread t u (by decide) (by decide), hshape⟩

end Stub

end StubListing
