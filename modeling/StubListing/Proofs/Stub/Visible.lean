import StubListing.Stub.Text
import StubListing.Proofs.Stub.Signature
/-!
# What the text of a stub shows

A stub is the text of its namespace, of the name of its class, and of the members that are left when the
hidden ones are taken away: properties and fields that are not public and, unless they are asked for,
members that the catalog says another type declares. Nothing else of the class makes a difference. The
text is one of whole lines, so the number of its lines tells the number of members.
-/
namespace StubListing.Stub
open StubListing.Catalog StubListing.Text

/-! ## Taking hidden members away -/

/-- The catalog says that another type declares the member. -/
def Inherited (owner : String) (declaredBy : Option String) : Prop :=
  ∃ other ∈ declaredBy, other ≠ owner

instance (owner : String) (declaredBy : Option String) : Decidable (Inherited owner declaredBy) :=
  inferInstanceAs (Decidable (∃ other ∈ declaredBy, other ≠ owner))

/-- The class without properties and fields that are not public. -/
def publicPart (c : TypeDecl) : TypeDecl :=
  { c with
    properties := c.properties.filter fun m => m.flags.isPublic
    fields := c.fields.filter fun m => m.flags.isPublic }

/-- The class without members that it inherits. -/
def ownPart (c : TypeDecl) : TypeDecl :=
  { c with
    properties := c.properties.filter fun m => ¬ Inherited c.name m.declaredBy
    fields := c.fields.filter fun m => ¬ Inherited c.name m.declaredBy
    methods := c.methods.filter fun m => ¬ Inherited c.name m.declaredBy }

/-- The class without its hidden members. -/
def withoutHidden (inherited : Bool) (c : TypeDecl) : TypeDecl :=
  if inherited then publicPart c else ownPart (publicPart c)

theorem name_withoutHidden (inherited : Bool) (c : TypeDecl) : (withoutHidden inherited c).name = c.name := by
  cases inherited <;> rfl

theorem keeps_true (owner : String) (declaredBy : Option String) : keeps true owner declaredBy = true := rfl

theorem keeps_false (owner : String) (declaredBy : Option String) :
    keeps false owner declaredBy = decide (¬ Inherited owner declaredBy) := by
  cases declaredBy with
  | none => simp [keeps, Inherited]
  | some other =>
    rw [Bool.eq_iff_iff]
    simp [keeps, Inherited]

theorem visiblePart_eq_withoutHidden (inherited : Bool) (c : TypeDecl) :
    visiblePart inherited c = withoutHidden inherited c := by
  cases inherited with
  | true => simp [visiblePart, withoutHidden, publicPart, shownData, shownMethods, keeps_true]
  | false =>
    simp only [visiblePart, withoutHidden, publicPart, ownPart, shownData, shownMethods, keeps_false,
      List.filter_filter, Bool.and_comm, Bool.false_eq_true, if_false]
    rfl

/-- Where the hidden members have been taken away there is nothing left to hide. -/
theorem visiblePart_visiblePart (inherited : Bool) (c : TypeDecl) :
    visiblePart true (visiblePart inherited c) = visiblePart inherited c := by
  simp [visiblePart, shownData, shownMethods, keeps_true]

/-! ## Spelling a line -/

/-- The words that are there, with single spaces between them. -/
def spelled (words : List String) : String := String.intercalate " " (words.filter (· ≠ ""))

/-- What stands in the line of a property or a field: that it is public, its static mark, its type and its
name. -/
def dataSpelling (m : DataMember) : String :=
  spelled (["public"] ++ (if m.flags.isStatic then ["static"] else []) ++
    [shapeText m.type.shape, m.name])

/-- What stands in the line of a method: its visibility, its marks, its result type unless it is a
constructor, its name, and the types and names of its parameters. -/
def methodSpelling (m : Method) : String :=
  spelled ((if m.flags.isPrivate then ["private"] else if m.flags.isPublic then ["public"] else []) ++
    (if m.flags.isStatic then ["static"] else []) ++ (if m.flags.isVirtual then ["virtual"] else []) ++
    (if m.flags.isAbstract then ["abstract"] else []) ++
    (if m.flags.isConstructor then [] else m.result.toList.map fun t => shapeText t.shape) ++
    [m.name ++ "(" ++ String.intercalate " , "
      (m.parameters.map fun p => shapeText p.type.shape ++ " " ++ p.name) ++ ")"])

theorem joined_eq_intercalate (separator : String) (words : List String) :
    joined separator words = String.intercalate separator words := by
  induction words with
  | nil => simp
  | cons word rest ih =>
    cases rest with
    | nil => simp
    | cons next more => rw [joined_cons_cons, ih, String.intercalate_cons_cons]

theorem line_eq_spelled (words : List String) : line words = spelled words := by
  have hthere : ∀ word : String, (!word.isEmpty) = decide (word ≠ "") :=
    fun word => Bool.eq_iff_iff.mpr (by simp)
  simp only [line, spelled, joined_eq_intercalate, hthere]

theorem filter_wordIf (condition : Bool) (word : String) : [wordIf condition word].filter (· ≠ "") =
    (if condition then [word] else []).filter (· ≠ "") := by
  cases condition <;> rfl

theorem filter_visibility (flags : Flags) : [visibility flags].filter (· ≠ "") =
    (if flags.isPrivate then ["private"] else if flags.isPublic then ["public"] else []).filter
      (· ≠ "") := by
  unfold visibility
  cases flags.isPrivate <;> cases flags.isPublic <;> rfl

theorem filter_resultText (m : Method) : [resultText m].filter (· ≠ "") =
    (if m.flags.isConstructor then [] else m.result.toList.map fun t => shapeText t.shape).filter
      (· ≠ "") := by
  unfold resultText
  cases m.result <;> cases m.flags.isConstructor <;> simp [typeName_eq_shapeText]

theorem dataLine_eq_dataSpelling (m : DataMember) :
    dataLine m.flags m.type m.name = dataSpelling m := by
  have hwords : ["public", wordIf m.flags.isStatic "static", typeName m.type, m.name] =
      ["public"] ++ [wordIf m.flags.isStatic "static"] ++ [typeName m.type, m.name] := rfl
  rw [dataLine, line_eq_spelled, hwords, typeName_eq_shapeText]
  simp only [dataSpelling, spelled, List.filter_append, filter_wordIf]

theorem methodLine_eq_methodSpelling (m : Method) : methodLine m = methodSpelling m := by
  have hparameters : parametersText m.parameters = String.intercalate " , "
      (m.parameters.map fun p => shapeText p.type.shape ++ " " ++ p.name) := by
    have htext : parameterText = fun p => shapeText p.type.shape ++ " " ++ p.name := by
      funext p
      rw [parameterText, typeName_eq_shapeText]
    rw [parametersText, joined_eq_intercalate, htext, listSeparator]
  have hwords : ∀ v s w a r n : String, [v, s, w, a, r, n] = [v] ++ [s] ++ [w] ++ [a] ++ [r] ++ [n] :=
    fun _ _ _ _ _ _ => rfl
  rw [methodLine, line_eq_spelled, hwords, hparameters]
  simp only [methodSpelling, spelled, List.filter_append, filter_visibility, filter_wordIf,
    filter_resultText]

/-! ## The lines of a stub -/

/-- Text of these lines, each ended. -/
def ended (lines : List String) : String := (lines.map (· ++ "\n")).foldr (· ++ ·) ""

@[simp] theorem ended_nil : ended [] = "" := rfl

theorem ended_cons (l : String) (rest : List String) : ended (l :: rest) = l ++ "\n" ++ ended rest := rfl

theorem ended_append (front back : List String) : ended (front ++ back) = ended front ++ ended back := by
  induction front with
  | nil => rw [List.nil_append, ended_nil, String.empty_append]
  | cons l rest ih => simp only [List.cons_append, ended_cons, ih, String.append_assoc]

/-- The lines of properties or fields. -/
def dataLines (members : List DataMember) : List String :=
  members.map dataSpelling

/-- The lines of methods, with an empty one behind each. -/
def methodLines (methods : List Method) : List String := methods.flatMap fun m => [methodSpelling m, ""]

/-- All lines of a stub that shows every member of the class. -/
def stubLines (ns : String) (c : TypeDecl) : List String :=
  ["namespace " ++ ns ++ " \x7b", "", "public Class " ++ c.name ++ " \x7b"] ++
    dataLines c.properties ++ dataLines c.fields ++ methodLines c.methods ++ ["\x7d", "\x7d"]

theorem dataText_eq (members : List DataMember) : dataText members = ended (dataLines members) := by
  simp only [dataText, ended, dataLines, List.map_map, dataLine_eq_dataSpelling, Function.comp_def]

theorem methodsText_eq (methods : List Method) : methodsText methods = ended (methodLines methods) := by
  induction methods with
  | nil => rfl
  | cons m rest ih =>
    have hrest : methodsText (m :: rest) = methodLine m ++ "\n\n" ++ methodsText rest := rfl
    have hlines : methodLines (m :: rest) = methodSpelling m :: "" :: methodLines rest := rfl
    have hend : "\n\n" = "\n" ++ ("" ++ "\n") := by decide
    rw [hrest, hlines, ih, ended_cons, ended_cons, hend, methodLine_eq_methodSpelling]
    simp only [String.append_assoc]

theorem classText_eq_ended (inherited : Bool) (ns : String) (c : TypeDecl) :
    classText inherited ns c = ended (stubLines ns (visiblePart inherited c)) := by
  have hopen : ended ["namespace " ++ ns ++ " \x7b", "", "public Class " ++ c.name ++ " \x7b"] =
      "namespace " ++ ns ++ " \x7b\n\n" ++ "public Class " ++ c.name ++ " \x7b\n" := by
    simp only [← String.toList_inj, ended_cons, ended_nil, String.toList_append]
    simp
  have hclose : ended ["\x7d", "\x7d"] = "\x7d\n\x7d\n" := by decide
  rw [stubLines, ended_append, ended_append, ended_append, ended_append, hclose, ← dataText_eq,
    ← dataText_eq, ← methodsText_eq]
  show _ = ended ["namespace " ++ ns ++ " \x7b", "", "public Class " ++ c.name ++ " \x7b"] ++ _ ++ _ ++
    _ ++ _
  rw [hopen]
  rfl

theorem length_stubLines (ns : String) (c : TypeDecl) :
    (stubLines ns c).length = 5 + c.properties.length + c.fields.length + 2 * c.methods.length := by
  simp only [stubLines, dataLines, methodLines, List.length_append, List.length_cons, List.length_nil,
    List.length_map, List.length_flatMap, List.map_const', List.sum_replicate_nat]
  omega

/-! ## Characters of a line -/

section
variable {x : Char}

theorem not_mem_joined {separator : String} {words : List String} (hseparator : x ∉ separator.toList)
    (h : ∀ word ∈ words, x ∉ word.toList) : x ∉ (joined separator words).toList := by
  intro hx
  rcases mem_joined hx with hx | ⟨word, hword, hx⟩
  · exact hseparator hx
  · exact h word hword hx

theorem not_mem_line {words : List String} (hspace : x ≠ ' ') (h : ∀ word ∈ words, x ∉ word.toList) :
    x ∉ (line words).toList :=
  not_mem_joined (by simpa using hspace) fun word hword => h word (List.mem_of_mem_filter hword)

/-- A type name has only characters of the names in it, beside the marks of the notation. -/
theorem not_mem_typeName (t : TypeRef) (hmarks : x ∉ typeMarks) (h : ∀ name ∈ t.names, x ∉ name.toList) :
    x ∉ (typeName t).toList := by
  induction t using TypeRef.byArguments with
  | h t ih =>
    rw [TypeRef.names_eq, List.forall_mem_cons] at h
    obtain ⟨hname, harguments⟩ := h
    rw [typeName_eq]
    split
    · have hbare : x ∉ (bareName t.name).toList := fun hx => hname (mem_of_mem_bareName hx)
      have hlist : x ∉ (joined listSeparator (t.arguments.map typeName)).toList := by
        refine not_mem_joined (fun hx => hmarks ?_) fun word hword => ?_
        · exact (by decide : listSeparator.toList ⊆ typeMarks) hx
        · obtain ⟨a, ha, rfl⟩ := List.mem_map.mp hword
          exact ih a ha fun name hn => harguments name (List.mem_flatMap.mpr ⟨a, ha, hn⟩)
      have hopen : x ∉ "<".toList := fun hx => hmarks ((by decide : "<".toList ⊆ typeMarks) hx)
      have hclose : x ∉ ">".toList := fun hx => hmarks ((by decide : ">".toList ⊆ typeMarks) hx)
      simp only [String.toList_append, List.mem_append, not_or]
      exact ⟨⟨⟨hbare, hopen⟩, hlist⟩, hclose⟩
    · exact hname

/-- The line of a method has only characters of the names and modifiers in it, beside the marks of the
notation. -/
theorem not_mem_methodLine (m : Method) (hmarks : x ∉ lineMarks)
    (hwords : ∀ word ∈ modifierWords, x ∉ word.toList) (h : ∀ name ∈ shownNames m, x ∉ name.toList) :
    x ∉ (methodLine m).toList := by
  have htype : ∀ t : TypeRef, (∀ name ∈ t.names, x ∉ name.toList) → x ∉ (typeName t).toList :=
    fun t => not_mem_typeName t fun hx => hmarks (typeMarks_subset_lineMarks hx)
  have hmark : ∀ mark : String, mark.toList ⊆ lineMarks → x ∉ mark.toList :=
    fun _ hsub hx => hmarks (hsub hx)
  obtain ⟨hname, hresult, hparameters⟩ := forall_mem_shownNames.mp h
  show x ∉ (line (modifiers m.flags ++ [resultText m, signature m])).toList
  refine not_mem_line (fun hx => hmarks (by simp [hx, lineMarks, typeMarks])) ?_
  rw [List.forall_mem_append, List.forall_mem_cons, List.forall_mem_singleton]
  refine ⟨fun word hword => ?_, ?_, ?_⟩
  · rcases mem_modifiers hword with rfl | hword
    · simp
    · exact hwords word hword
  · rw [resultText_eq]
    cases ht : shownResult m with
    | none => simp
    | some t => exact htype t (hresult t ht)
  · have hlist : x ∉ (parametersText m.parameters).toList := by
      refine not_mem_joined (hmark _ (by decide)) fun text htext => ?_
      obtain ⟨p, hp, rfl⟩ := List.mem_map.mp htext
      simp only [parameterText, String.toList_append, List.mem_append, not_or]
      exact ⟨⟨htype p.type (hparameters p hp).2, hmark _ (by decide)⟩, (hparameters p hp).1⟩
    simp only [signature, String.toList_append, List.mem_append, not_or]
    exact ⟨⟨⟨hname, hmark _ (by decide)⟩, hlist⟩, hmark _ (by decide)⟩

theorem not_mem_dataLine (flags : Flags) (type : TypeRef) (name : String) (hmarks : x ∉ lineMarks)
    (hwords : ∀ word ∈ modifierWords, x ∉ word.toList)
    (h : ∀ known ∈ name :: type.names, x ∉ known.toList) : x ∉ (dataLine flags type name).toList := by
  rw [List.forall_mem_cons] at h
  refine not_mem_line (fun hx => hmarks (by simp [hx, lineMarks, typeMarks])) ?_
  simp only [List.forall_mem_cons, List.not_mem_nil, false_imp_iff, implies_true, and_true]
  refine ⟨hwords _ (by decide), ?_, ?_, h.1⟩
  · unfold wordIf
    split
    · exact hwords _ (by decide)
    · simp
  · exact not_mem_typeName type (fun hx => hmarks (typeMarks_subset_lineMarks hx)) h.2

end

/-! ## The whole text -/

/-- The names in the stub of a class of which every member is shown. -/
def stubNames (ns : String) (c : TypeDecl) : List String :=
  ns :: c.name :: ((c.properties ++ c.fields).flatMap (fun m => m.name :: m.type.names) ++
    c.methods.flatMap shownNames)

/-- Lines without an end of line inside are as many as their ends. -/
theorem count_newline_ended {lines : List String} (h : ∀ l ∈ lines, '\n' ∉ l.toList) :
    (ended lines).toList.count '\n' = lines.length := by
  induction lines with
  | nil => rfl
  | cons l rest ih =>
    rw [List.forall_mem_cons] at h
    have hend : List.count '\n' "\n".toList = 1 := by decide
    rw [ended_cons, String.toList_append, String.toList_append, List.count_append, List.count_append,
      List.count_eq_zero.mpr h.1, ih h.2, List.length_cons, hend]
    omega

/-- A stub has no ends of line but those of its lines, if its names have none. -/
theorem newline_not_mem_stubLines {ns : String} {c : TypeDecl}
    (h : ∀ name ∈ stubNames ns c, '\n' ∉ name.toList) : ∀ l ∈ stubLines ns c, '\n' ∉ l.toList := by
  simp only [stubNames, List.forall_mem_cons, List.forall_mem_append, List.forall_mem_flatMap] at h
  obtain ⟨hns, hname, ⟨hproperties, hfields⟩, hmethods⟩ := h
  have hdata : ∀ members : List DataMember,
      (∀ m ∈ members, '\n' ∉ m.name.toList ∧ ∀ name ∈ m.type.names, '\n' ∉ name.toList) →
        ∀ l ∈ dataLines members, '\n' ∉ l.toList := by
    intro members hmembers l hl
    obtain ⟨m, hm, rfl⟩ := List.mem_map.mp hl
    rw [← dataLine_eq_dataSpelling]
    exact not_mem_dataLine _ _ _ (by decide) (by decide) (List.forall_mem_cons.mpr (hmembers m hm))
  have hmethod : ∀ l ∈ methodLines c.methods, '\n' ∉ l.toList := by
    intro l hl
    obtain ⟨m, hm, hl⟩ := List.mem_flatMap.mp hl
    rcases List.mem_pair.mp hl with rfl | rfl
    · rw [← methodLine_eq_methodSpelling]
      exact not_mem_methodLine m (by decide) (by decide) (hmethods m hm)
    · simp
  simp only [stubLines, List.forall_mem_append, List.forall_mem_cons, List.not_mem_nil, false_imp_iff,
    implies_true, and_true]
  refine ⟨⟨⟨⟨⟨?_, by simp, ?_⟩, hdata _ hproperties⟩, hdata _ hfields⟩, hmethod⟩, by decide⟩
  · simp [String.toList_append, hns]
  · simp [String.toList_append, hname]

/-- The text of a stub, and what it counts, is that of a class without hidden members of which every
member is shown: first the properties, then the fields, then the methods, one line each, in catalog order.
Classes of one name that are the same without their hidden members have the same text. And if none of the
names in the text has an end of line, the lines of the text tell how many members it shows. -/
theorem classText_shows_visible (inherited : Bool) (ns : String) (c : TypeDecl) :
    let shown := withoutHidden inherited c
    (classText inherited ns c = classText true ns shown ∧
        memberCounts inherited c = memberCounts true shown) ∧
      classText inherited ns c = ended (stubLines ns shown) ∧
      memberCounts inherited c =
        ⟨shown.properties.length, shown.fields.length, shown.methods.length⟩ ∧
      (∀ (inherited' : Bool) (c' : TypeDecl), c.name = c'.name →
        shown.properties = (withoutHidden inherited' c').properties →
        shown.fields = (withoutHidden inherited' c').fields →
        shown.methods = (withoutHidden inherited' c').methods →
        classText inherited ns c = classText inherited' ns c' ∧
          memberCounts inherited c = memberCounts inherited' c') ∧
      ((∀ name ∈ stubNames ns shown, '\n' ∉ name.toList) →
        (classText inherited ns c).toList.count '\n' =
          5 + shown.properties.length + shown.fields.length + 2 * shown.methods.length) := by
  intro shown
  have hshown : ∀ (inherited : Bool) (c : TypeDecl),
      visiblePart true (withoutHidden inherited c) = visiblePart inherited c := fun inherited c => by
    rw [← visiblePart_eq_withoutHidden, visiblePart_visiblePart]
  have htext : ∀ (inherited : Bool) (c : TypeDecl),
      classText inherited ns c = ended (stubLines ns (withoutHidden inherited c)) := fun inherited c => by
    rw [classText_eq_ended, visiblePart_eq_withoutHidden]
  have hcounts : ∀ (inherited : Bool) (c : TypeDecl), memberCounts inherited c =
      ⟨(withoutHidden inherited c).properties.length, (withoutHidden inherited c).fields.length,
        (withoutHidden inherited c).methods.length⟩ := fun inherited c => by
    rw [memberCounts, visiblePart_eq_withoutHidden]
  refine ⟨⟨?_, ?_⟩, htext inherited c, hcounts inherited c, ?_, ?_⟩
  · rw [classText_eq_ended, classText_eq_ended, hshown]
  · rw [memberCounts, memberCounts, hshown]
  · intro inherited' c' hname hproperties hfields hmethods
    have hlines : stubLines ns shown = stubLines ns (withoutHidden inherited' c') := by
      rw [stubLines, stubLines, hproperties, hfields, hmethods, name_withoutHidden, name_withoutHidden,
        hname]
    exact ⟨by rw [htext, htext, hlines], by rw [hcounts, hcounts, hproperties, hfields, hmethods]⟩
  · intro hnames
    rw [htext, count_newline_ended (newline_not_mem_stubLines hnames), length_stubLines]

/-- Without inherited members the first class shows what the second, which is not even a class, shows with
them; one field is there twice, and a method that is neither public nor private is shown. -/
theorem classText_shows_visible_of_player :
    let int := TypeRef.simple "Int32"
    let flags : Flags := { Flags.none with isPublic := true }
    let hp : DataMember := ⟨"Hp", int, flags, some "Player"⟩
    let id : DataMember := ⟨"Id", .applied "List`1" [int], { flags with isStatic := true }, none⟩
    let seed : DataMember := ⟨"Seed", int, .none, none⟩
    let tick : Method := ⟨"Tick", none, .none, [⟨"n", int⟩], none⟩
    let join : Method := ⟨"Join", some (.simple "String"),
      { flags with isPrivate := true, isStatic := true }, [⟨"a", int⟩, ⟨"b", .simple "Char"⟩], none⟩
    let c : TypeDecl := { TypeDecl.emptyClass "Game" "Player" with
      properties := [hp, seed]
      fields := [id, { id with declaredBy := some "Entity" }, id]
      methods := [{ tick with declaredBy := some "Entity" }, tick, join] }
    let c' : TypeDecl :=
      ⟨"Player", none, .struct, some (.simple "Entity"), ["A"], [int], [hp], [id, id, seed], [tick, join]⟩
    c.name = c'.name ∧ (withoutHidden false c).fields = (withoutHidden true c').fields ∧
      classText false "N" c = classText true "N" c' ∧
      classText false "N" c = "namespace N \x7b\n\npublic Class Player \x7b\npublic Int32 Hp\n" ++
        "public static List<Int32> Id\npublic static List<Int32> Id\nTick(Int32 n)\n\n" ++
        "private static String Join(Int32 a , Char b)\n\n\x7d\n\x7d\n" ∧
      memberCounts false c = memberCounts true c' ∧ memberCounts false c = ⟨1, 2, 2⟩ ∧
      (∀ name ∈ stubNames "N" (withoutHidden false c), '\n' ∉ name.toList) ∧
      (classText false "N" c).toList.count '\n' = 12 := by
  intro int flags hp id seed tick join c c'
  obtain ⟨-, -, hcounted, hsame, hcount⟩ := classText_shows_visible false "N" c
  have hnames : ∀ name ∈ stubNames "N" (withoutHidden false c), '\n' ∉ name.toList := by decide
  obtain ⟨htext, hcounts⟩ := hsame true c' rfl rfl rfl rfl
  exact ⟨rfl, rfl, htext, by decide +kernel, hcounts, hcounted, hnames, hcount hnames⟩

end StubListing.Stub
