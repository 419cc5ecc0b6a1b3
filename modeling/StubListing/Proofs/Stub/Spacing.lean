import Mathlib.Data.List.Chain
import StubListing.Catalog.Loading
import StubListing.Proofs.Stub.Signature
/-!
# Spaces in a line

The words of a line have single spaces between them, because missing words are left out. In lists nothing
is left out: a separator has a space on either side, and a parameter has one between its type and its
name. So two spaces can stand next to each other, but only where a name is empty: in an argument between
two others, in the type of a parameter that is not the first, or in the name of one that is not the last.
Nowhere does a line begin or end with a space.
-/
namespace StubListing.Stub
open StubListing.Catalog StubListing.Text

/-! ## Texts and spaces -/

/-- No two spaces are next to each other. -/
def SingleSpaced (cs : List Char) : Prop := cs.IsChain fun a b => ¬ (a = ' ' ∧ b = ' ')

instance (cs : List Char) : Decidable (SingleSpaced cs) :=
  inferInstanceAs (Decidable (cs.IsChain fun a b => ¬ (a = ' ' ∧ b = ' ')))

/-- The text begins with a space. -/
def SpaceFirst (cs : List Char) : Prop := cs.head? = some ' '

/-- The text ends with a space. -/
def SpaceLast (cs : List Char) : Prop := cs.getLast? = some ' '

/-- No space is first or last. -/
structure Unpadded (cs : List Char) : Prop where
  front : ¬ SpaceFirst cs
  back : ¬ SpaceLast cs

variable {a b : List Char} {c : Char}

theorem singleSpaced_append :
    SingleSpaced (a ++ b) ↔ SingleSpaced a ∧ SingleSpaced b ∧ ¬ (SpaceLast a ∧ SpaceFirst b) := by
  rw [SingleSpaced, List.isChain_append]
  refine and_congr_right fun _ => and_congr_right fun _ =>
    ⟨fun h hspaces => h ' ' hspaces.1 ' ' hspaces.2 ⟨rfl, rfl⟩, fun h x hx y hy => ?_⟩
  rintro ⟨rfl, rfl⟩
  exact h ⟨hx, hy⟩

theorem unpadded_of_not_mem (h : ' ' ∉ a) : Unpadded a :=
  ⟨fun hfront => h (List.mem_of_head? hfront), fun hback => h (List.mem_of_getLast? hback)⟩

theorem singleSpaced_of_not_mem (h : ' ' ∉ a) : SingleSpaced a := by
  induction a with
  | nil => exact .nil
  | cons c rest ih =>
    rw [List.mem_cons, not_or] at h
    have hc : Unpadded [c] := unpadded_of_not_mem (by simpa using h.1)
    rw [← List.singleton_append, singleSpaced_append]
    exact ⟨.singleton c, ih h.2, fun hspaces => hc.back hspaces.1⟩

theorem spaceFirst_append : SpaceFirst (a ++ b) ↔ SpaceFirst a ∨ a = [] ∧ SpaceFirst b := by
  cases a <;> simp [SpaceFirst]

theorem spaceLast_append : SpaceLast (a ++ b) ↔ SpaceLast b ∨ b = [] ∧ SpaceLast a := by
  rcases List.eq_nil_or_concat b with rfl | ⟨front, x, rfl⟩ <;> simp [SpaceLast]

theorem spaceFirst_cons : SpaceFirst (c :: a) ↔ c = ' ' := by
  simp [SpaceFirst]

theorem spaceLast_concat : SpaceLast (a ++ [c]) ↔ c = ' ' := by
  simp [SpaceLast]

theorem singleSpaced_space_cons : SingleSpaced (' ' :: a) ↔ SingleSpaced a ∧ ¬ SpaceFirst a := by
  have hspace : SingleSpaced [' '] := .singleton ' '
  have hends : SpaceLast [' '] := rfl
  rw [← List.singleton_append, singleSpaced_append]
  simp [hspace, hends]

theorem singleSpaced_cons_of_ne (hc : c ≠ ' ') : SingleSpaced (c :: a) ↔ SingleSpaced a := by
  have hmark : ' ' ∉ [c] := by simpa using hc.symm
  rw [← List.singleton_append, singleSpaced_append]
  simp [singleSpaced_of_not_mem hmark, (unpadded_of_not_mem hmark).back]

/-- A character that is no space keeps texts apart. -/
theorem singleSpaced_append_cons (hc : c ≠ ' ') :
    SingleSpaced (a ++ c :: b) ↔ SingleSpaced a ∧ SingleSpaced b := by
  rw [singleSpaced_append, singleSpaced_cons_of_ne hc]
  simp [SpaceFirst, hc]

/-- A name with something in brackets behind it has the spaces that are in the brackets. -/
theorem spacing_bracketed {opening closing : Char} (hname : ' ' ∉ a) (hopening : opening ≠ ' ')
    (hclosing : closing ≠ ' ') :
    Unpadded (a ++ opening :: (b ++ [closing])) ∧
      (SingleSpaced (a ++ opening :: (b ++ [closing])) ↔ SingleSpaced b) := by
  refine ⟨⟨?_, ?_⟩, ?_⟩
  · simp [spaceFirst_append, spaceFirst_cons, (unpadded_of_not_mem hname).front, hopening]
  · rwa [← List.cons_append, ← List.append_assoc, spaceLast_concat]
  · rw [singleSpaced_append_cons hopening, singleSpaced_append_cons hclosing]
    simp [singleSpaced_of_not_mem hname, singleSpaced_of_not_mem List.not_mem_nil]

/-! ## Words in a line -/

/-- A space between two texts is the only one there, if neither text has one at that side. -/
theorem spacing_append_space (ha : Unpadded a) (hb : Unpadded b) (hane : a ≠ []) (hbne : b ≠ []) :
    Unpadded (a ++ ' ' :: b) ∧ (SingleSpaced (a ++ ' ' :: b) ↔ SingleSpaced a ∧ SingleSpaced b) := by
  refine ⟨⟨?_, ?_⟩, ?_⟩
  · simp [spaceFirst_append, ha.front, hane]
  · rw [List.append_cons, spaceLast_append]
    simp [hb.back, hbne]
  · simp [singleSpaced_append, singleSpaced_space_cons, ha.back, hb.front]

/-- Words that are there, with single spaces between them, make a text with no more spaces than there are
in the words. -/
theorem spacing_joined_space {words : List String} (hne : ∀ w ∈ words, w ≠ "")
    (hwords : ∀ w ∈ words, Unpadded w.toList) :
    Unpadded (joined " " words).toList ∧
      (SingleSpaced (joined " " words).toList ↔ ∀ w ∈ words, SingleSpaced w.toList) ∧
      ((joined " " words).toList = [] → words = []) := by
  induction words with
  | nil => exact ⟨unpadded_of_not_mem (by simp), by simp [SingleSpaced], fun _ => rfl⟩
  | cons w rest ih =>
    rw [List.forall_mem_cons] at hne hwords
    have hw : w.toList ≠ [] := by simpa using hne.1
    cases rest with
    | nil => exact ⟨hwords.1, by simp, fun h => absurd h hw⟩
    | cons next more =>
      obtain ⟨hunpadded, hsingle, hnil⟩ := ih hne.2 hwords.2
      have hrest : (joined " " (next :: more)).toList ≠ [] := fun h => List.cons_ne_nil _ _ (hnil h)
      obtain ⟨htext, hspaces⟩ := spacing_append_space hwords.1 hunpadded hw hrest
      have htoList : (joined " " (w :: next :: more)).toList =
          w.toList ++ ' ' :: (joined " " (next :: more)).toList := by
        rw [joined_cons_cons, String.toList_append, String.toList_append, List.append_assoc]
        rfl
      rw [htoList, List.forall_mem_cons, ← hsingle]
      exact ⟨htext, hspaces, by simp⟩

/-- A line of words that do not begin or end with a space has no more spaces next to each other than
there are in the words. -/
theorem spacing_line {words : List String} (hwords : ∀ w ∈ words, Unpadded w.toList) :
    Unpadded (line words).toList ∧
      (SingleSpaced (line words).toList ↔ ∀ w ∈ words, SingleSpaced w.toList) := by
  obtain ⟨hunpadded, hsingle, -⟩ := @spacing_joined_space (words.filter fun w => !w.isEmpty)
    (by simp) (fun w hw => hwords w (List.mem_of_mem_filter hw))
  refine ⟨hunpadded, hsingle.trans ⟨fun h w hw => ?_, fun h w hw => h w (List.mem_of_mem_filter hw)⟩⟩
  by_cases hempty : w = ""
  · subst hempty
    exact .nil
  · exact h w (List.mem_filter.mpr ⟨hw, by simpa using hempty⟩)

/-! ## Items in a list -/

theorem spaceFirst_others (texts : List String) : SpaceFirst (others texts) ↔ texts ≠ [] := by
  cases texts with
  | nil => simp [others, SpaceFirst]
  | cons next rest => simp [others, listSeparator, SpaceFirst]

theorem singleSpaced_append_separator :
    SingleSpaced (a ++ (listSeparator.toList ++ b)) ↔
      SingleSpaced a ∧ ¬ SpaceLast a ∧ SingleSpaced b ∧ ¬ SpaceFirst b := by
  have hseparator : listSeparator.toList ++ b = ' ' :: ',' :: ' ' :: b := rfl
  rw [hseparator, singleSpaced_append, singleSpaced_space_cons, singleSpaced_cons_of_ne (by decide),
    singleSpaced_space_cons]
  simp only [spaceFirst_cons, Char.reduceEq, not_false_eq_true, and_true]
  grind

/-- Two spaces are next to each other in a list if they are so in an item, if an item behind a separator
begins with a space, if one in front of a separator ends with a space, or if there is nothing between two
separators. -/
theorem singleSpaced_joined (texts : List String) :
    SingleSpaced (joined listSeparator texts).toList ↔
      (∀ w ∈ texts, SingleSpaced w.toList) ∧ (∀ w ∈ texts.tail, ¬ SpaceFirst w.toList) ∧
        (∀ w ∈ texts.dropLast, ¬ SpaceLast w.toList) ∧ ∀ w ∈ texts.tail.dropLast, w ≠ "" := by
  induction texts with
  | nil => simp [SingleSpaced]
  | cons w rest ih =>
    cases rest with
    | nil => simp
    | cons next more =>
      rw [toList_joined_cons, others, singleSpaced_append_separator, ih, toList_joined_cons, spaceFirst_append,
        spaceFirst_others]
      cases more with
      | nil =>
        simp only [List.forall_mem_cons, List.tail_cons, List.dropLast_cons_cons,
          List.dropLast_singleton, List.dropLast_nil, ne_eq, not_true_eq_false, and_false]
        grind
      | cons third more =>
        simp only [List.forall_mem_cons, List.tail_cons, List.dropLast_cons_cons, ne_eq,
          String.toList_eq_nil_iff, reduceCtorEq, not_false_eq_true, and_true]
        grind

/-! ## Types -/

/-- Nothing is shown of the type. -/
def Nameless (t : TypeRef) : Prop := t.name = "" ∧ t.arguments = []

/-- In the type, at every depth, no argument between two others is nameless. -/
inductive Gapless : TypeRef → Prop
  | intro {t : TypeRef} (between : ∀ a ∈ t.arguments.tail.dropLast, ¬ Nameless a)
      (arguments : ∀ a ∈ t.arguments, Gapless a) : Gapless t

theorem gapless_iff {t : TypeRef} :
    Gapless t ↔ (∀ a ∈ t.arguments.tail.dropLast, ¬ Nameless a) ∧ ∀ a ∈ t.arguments, Gapless a :=
  ⟨fun ⟨between, arguments⟩ => ⟨between, arguments⟩, fun ⟨between, arguments⟩ => ⟨between, arguments⟩⟩

theorem toList_typeName_of_isGeneric {t : TypeRef} (h : t.isGeneric = true) :
    (typeName t).toList = (bareName t.name).toList ++
      '<' :: ((joined listSeparator (t.arguments.map typeName)).toList ++ ['>']) := by
  rw [typeName_eq, if_pos h]
  simp [String.toList_append]

theorem not_isGeneric {t : TypeRef} (h : ¬ t.isGeneric = true) :
    typeName t = t.name ∧ t.arguments = [] := by
  refine ⟨by rw [typeName_eq, if_neg h], ?_⟩
  simp only [TypeRef.isGeneric, Bool.or_eq_true, Bool.not_eq_true', List.isEmpty_eq_false_iff, not_or,
    not_not] at h
  exact h.1

theorem typeName_eq_empty_iff {t : TypeRef} : typeName t = "" ↔ Nameless t := by
  by_cases hgeneric : t.isGeneric = true
  · refine iff_of_false (fun h => ?_) ?_
    · have htext := toList_typeName_of_isGeneric hgeneric
      simp [h] at htext
    · rintro ⟨hname, harguments⟩
      simp [TypeRef.isGeneric, hname, harguments] at hgeneric
  · obtain ⟨htext, harguments⟩ := not_isGeneric hgeneric
    simp [Nameless, htext, harguments]

theorem name_mem_names (t : TypeRef) : t.name ∈ t.names := by
  rw [TypeRef.names_eq]
  exact List.mem_cons_self

theorem unpadded_typeName {t : TypeRef} (h : ' ' ∉ t.name.toList) : Unpadded (typeName t).toList := by
  by_cases hgeneric : t.isGeneric = true
  · have hbare : ' ' ∉ (bareName t.name).toList := fun hx => h (mem_of_mem_bareName hx)
    rw [toList_typeName_of_isGeneric hgeneric]
    exact (spacing_bracketed hbare (by decide) (by decide)).1
  · rw [(not_isGeneric hgeneric).1]
    exact unpadded_of_not_mem h

/-- Two spaces are next to each other in a type name only where an argument between two others is
nameless. -/
theorem singleSpaced_typeName (t : TypeRef) (h : ∀ name ∈ t.names, ' ' ∉ name.toList) :
    SingleSpaced (typeName t).toList ↔ Gapless t := by
  induction t using TypeRef.byArguments with
  | h t ih =>
    rw [TypeRef.names_eq, List.forall_mem_cons] at h
    obtain ⟨hname, hnames⟩ := h
    by_cases hgeneric : t.isGeneric = true
    · have hbare : ' ' ∉ (bareName t.name).toList := fun hx => hname (mem_of_mem_bareName hx)
      have harguments : ∀ a ∈ t.arguments, ∀ name ∈ a.names, ' ' ∉ name.toList := fun a ha name hn =>
        hnames name (List.mem_flatMap.mpr ⟨a, ha, hn⟩)
      have hunpadded : ∀ a ∈ t.arguments, Unpadded (typeName a).toList := fun a ha =>
        unpadded_typeName (harguments a ha _ (name_mem_names a))
      rw [toList_typeName_of_isGeneric hgeneric, (spacing_bracketed hbare (by decide) (by decide)).2,
        singleSpaced_joined, gapless_iff]
      simp only [← List.map_tail, ← List.map_dropLast, List.forall_mem_map, ne_eq, typeName_eq_empty_iff]
      constructor
      · rintro ⟨hall, -, -, hbetween⟩
        exact ⟨hbetween, fun a ha => (ih a ha (harguments a ha)).mp (hall a ha)⟩
      · rintro ⟨hbetween, hall⟩
        exact ⟨fun a ha => (ih a ha (harguments a ha)).mpr (hall a ha),
          fun a ha => (hunpadded a (List.mem_of_mem_tail ha)).front,
          fun a ha => (hunpadded a (List.dropLast_subset _ ha)).back, hbetween⟩
    · obtain ⟨htext, harguments⟩ := not_isGeneric hgeneric
      rw [htext, gapless_iff, harguments]
      simp [singleSpaced_of_not_mem hname]

/-! ## Parameters -/

/-- Only the first type and the last name of a list of parameters may be missing, and no type has an
argument between two others that is nameless. -/
structure GaplessParameters (parameters : List Parameter) : Prop where
  types : ∀ p ∈ parameters, Gapless p.type
  typed : ∀ p ∈ parameters.tail, ¬ Nameless p.type
  named : ∀ p ∈ parameters.dropLast, p.name ≠ ""

theorem toList_parameterText (p : Parameter) :
    (parameterText p).toList = (typeName p.type).toList ++ ' ' :: p.name.toList := by
  simp [parameterText, String.toList_append]

/-- A parameter begins with a space if nothing is shown of its type, and ends with one if it has no
name. -/
theorem spacing_parameterText {p : Parameter} (hname : ' ' ∉ p.name.toList)
    (htype : ∀ name ∈ p.type.names, ' ' ∉ name.toList) :
    (SingleSpaced (parameterText p).toList ↔ Gapless p.type) ∧
      (SpaceFirst (parameterText p).toList ↔ Nameless p.type) ∧
      (SpaceLast (parameterText p).toList ↔ p.name = "") := by
  have hunpadded := unpadded_typeName (htype _ (name_mem_names p.type))
  have hname' := unpadded_of_not_mem hname
  rw [toList_parameterText, ← typeName_eq_empty_iff]
  refine ⟨?_, ?_, ?_⟩
  · rw [singleSpaced_append, singleSpaced_space_cons, singleSpaced_typeName _ htype]
    simp [hunpadded.back, hname'.front, singleSpaced_of_not_mem hname]
  · simp [spaceFirst_append, spaceFirst_cons, hunpadded.front]
  · rw [List.append_cons, spaceLast_append, spaceLast_concat]
    simp [hname'.back]

theorem singleSpaced_parametersText {parameters : List Parameter}
    (h : ∀ p ∈ parameters, ' ' ∉ p.name.toList ∧ ∀ name ∈ p.type.names, ' ' ∉ name.toList) :
    SingleSpaced (parametersText parameters).toList ↔ GaplessParameters parameters := by
  have hspacing := fun p hp => spacing_parameterText (h p hp).1 (h p hp).2
  have htail : ∀ p ∈ parameters.tail, p ∈ parameters := fun p => List.mem_of_mem_tail
  have hfront : ∀ p ∈ parameters.dropLast, p ∈ parameters := fun p hp => List.dropLast_subset _ hp
  have hsome : ∀ p : Parameter, parameterText p ≠ "" := fun p hp => by
    have := toList_parameterText p
    simp [hp] at this
  rw [parametersText, singleSpaced_joined]
  simp only [← List.map_tail, ← List.map_dropLast, List.forall_mem_map]
  constructor
  · rintro ⟨hall, hbegins, hends, -⟩
    exact ⟨fun p hp => (hspacing p hp).1.mp (hall p hp),
      fun p hp => mt (hspacing p (htail p hp)).2.1.mpr (hbegins p hp),
      fun p hp => mt (hspacing p (hfront p hp)).2.2.mpr (hends p hp)⟩
  · rintro ⟨htypes, htyped, hnamed⟩
    exact ⟨fun p hp => (hspacing p hp).1.mpr (htypes p hp),
      fun p hp => mt (hspacing p (htail p hp)).2.1.mp (htyped p hp),
      fun p hp => mt (hspacing p (hfront p hp)).2.2.mp (hnamed p hp), fun p _ => hsome p⟩

/-! ## Lines -/

/-- What is shown of the result, if anything is, has the spaces of its type. -/
theorem spacing_resultText {m : Method}
    (h : ∀ t, shownResult m = some t → ∀ name ∈ t.names, ' ' ∉ name.toList) :
    Unpadded (resultText m).toList ∧
      (SingleSpaced (resultText m).toList ↔ ∀ t, shownResult m = some t → Gapless t) := by
  rw [resultText_eq]
  cases ht : shownResult m with
  | none => exact ⟨unpadded_of_not_mem (by simp), by simp [SingleSpaced]⟩
  | some t =>
    refine ⟨unpadded_typeName (h t ht _ (name_mem_names t)), ?_⟩
    simpa using singleSpaced_typeName t (h t ht)

/-- A signature has the spaces of its parameters. -/
theorem spacing_signature {m : Method} (hname : ' ' ∉ m.name.toList) :
    Unpadded (signature m).toList ∧
      (SingleSpaced (signature m).toList ↔ SingleSpaced (parametersText m.parameters).toList) := by
  rw [signature_append, ← parametersText_eq]
  exact spacing_bracketed hname (by decide) (by decide)

theorem space_not_mem_modifiers {flags : Flags} : ∀ word ∈ modifiers flags, ' ' ∉ word.toList := by
  intro word hword
  rcases mem_modifiers hword with rfl | hword
  · simp
  · exact (by decide : ∀ word ∈ modifierWords, ' ' ∉ word.toList) word hword

/-- In the line of a method only its types and its list of parameters can bring two spaces together. -/
theorem spacing_methodLine {m : Method} (h : ∀ name ∈ shownNames m, ' ' ∉ name.toList) :
    Unpadded (methodLine m).toList ∧
      (SingleSpaced (methodLine m).toList ↔
        (∀ t, shownResult m = some t → Gapless t) ∧ GaplessParameters m.parameters) := by
  obtain ⟨hname, hresult, hparameters⟩ := forall_mem_shownNames.mp h
  obtain ⟨hsignature, hsingle⟩ := spacing_signature hname
  obtain ⟨hresult, hsingle'⟩ := spacing_resultText hresult
  obtain ⟨hunpadded, hline⟩ := @spacing_line (modifiers m.flags ++ [resultText m, signature m]) <| by
    rw [List.forall_mem_append, List.forall_mem_cons, List.forall_mem_singleton]
    exact ⟨fun word hword => unpadded_of_not_mem (space_not_mem_modifiers word hword), hresult, hsignature⟩
  refine ⟨hunpadded, hline.trans ?_⟩
  rw [List.forall_mem_append, List.forall_mem_cons, List.forall_mem_singleton, hsingle', hsingle,
    singleSpaced_parametersText hparameters]
  exact and_iff_right fun word hword => singleSpaced_of_not_mem (space_not_mem_modifiers word hword)

/-- In the line of a property or field only its type can bring two spaces together. -/
theorem spacing_dataLine {flags : Flags} {type : TypeRef} {name : String}
    (h : ∀ known ∈ name :: type.names, ' ' ∉ known.toList) :
    Unpadded (dataLine flags type name).toList ∧
      (SingleSpaced (dataLine flags type name).toList ↔ Gapless type) := by
  rw [List.forall_mem_cons] at h
  have hstatic : ' ' ∉ (wordIf flags.isStatic "static").toList := by
    cases flags.isStatic <;> decide
  have hpublic : ' ' ∉ "public".toList := by decide
  obtain ⟨hunpadded, hline⟩ :=
    @spacing_line ["public", wordIf flags.isStatic "static", typeName type, name] <| by
      simp only [List.forall_mem_cons, List.not_mem_nil, false_imp_iff, implies_true, and_true]
      exact ⟨unpadded_of_not_mem hpublic, unpadded_of_not_mem hstatic,
        unpadded_typeName (h.2 _ (name_mem_names type)), unpadded_of_not_mem h.1⟩
  refine ⟨hunpadded, hline.trans ?_⟩
  simp only [List.forall_mem_cons, List.not_mem_nil, false_imp_iff, implies_true, and_true,
    singleSpaced_of_not_mem hpublic, singleSpaced_of_not_mem hstatic, singleSpaced_of_not_mem h.1,
    true_and]
  exact singleSpaced_typeName type h.2

/-- Where no name is empty there is no gap in a type. -/
theorem gapless_of_named (t : TypeRef) (h : ∀ name ∈ t.names, name ≠ "") : Gapless t := by
  induction t using TypeRef.byArguments with
  | h t ih =>
    rw [TypeRef.names_eq, List.forall_mem_cons] at h
    have harguments : ∀ a ∈ t.arguments, ∀ name ∈ a.names, name ≠ "" := fun a ha name hn =>
      h.2 name (List.mem_flatMap.mpr ⟨a, ha, hn⟩)
    refine .intro (fun a ha hnone => ?_) fun a ha => ih a ha (harguments a ha)
    have ha' := List.mem_of_mem_tail (List.dropLast_subset _ ha)
    exact harguments a ha' _ (name_mem_names a) hnone.1

/-- The line of a method, a property or a field whose names have no spaces does not begin or end with a
space. It has two spaces next to each other exactly if there is an argument without a name between two
others in one of its types, or, among parameters, a type without a name that is not in the first or a
missing name that is not in the last; so it has none if no name is empty. -/
theorem lines_spaced (m : Method) (flags : Flags) (type : TypeRef) (name : String) :
    ((∀ known ∈ shownNames m, ' ' ∉ known.toList) →
        Unpadded (methodLine m).toList ∧
          (SingleSpaced (methodLine m).toList ↔
            (∀ t, shownResult m = some t → Gapless t) ∧ GaplessParameters m.parameters) ∧
          ((∀ known ∈ shownNames m, known ≠ "") → SingleSpaced (methodLine m).toList)) ∧
      ((∀ known ∈ name :: type.names, ' ' ∉ known.toList) →
        Unpadded (dataLine flags type name).toList ∧
          (SingleSpaced (dataLine flags type name).toList ↔ Gapless type) ∧
          ((∀ known ∈ type.names, known ≠ "") → SingleSpaced (dataLine flags type name).toList)) := by
  refine ⟨fun h => ?_, fun h => ?_⟩
  · obtain ⟨hunpadded, hline⟩ := spacing_methodLine h
    refine ⟨hunpadded, hline, fun hnamed => hline.mpr ?_⟩
    obtain ⟨-, hresult, hparameters⟩ := forall_mem_shownNames.mp hnamed
    refine ⟨fun t ht => gapless_of_named t (hresult t ht),
      ⟨fun p hp => gapless_of_named _ (hparameters p hp).2, fun p hp hnone => ?_, fun p hp => ?_⟩⟩
    · exact (hparameters p (List.mem_of_mem_tail hp)).2 _ (name_mem_names p.type) hnone.1
    · exact (hparameters p (List.dropLast_subset _ hp)).1
  · obtain ⟨hunpadded, hline⟩ := @spacing_dataLine flags type name h
    exact ⟨hunpadded, hline, fun hnamed => hline.mpr (gapless_of_named type hnamed)⟩

/-- Names may be missing at the ends of lists, and what is missing in between shows in the line. -/
theorem lines_spaced_of_unnamed :
    let m : Method := ⟨"", some (.applied "T`3" [.simple "", .simple "A", .simple ""]), .none,
      [⟨"a", .simple ""⟩, ⟨"", .simple "B"⟩], none⟩
    let type : TypeRef := .applied "T" [.simple "A", .simple "", .simple "B"]
    (∀ name ∈ shownNames m, ' ' ∉ name.toList) ∧ methodLine m = "T< , A , > ( a , B )" ∧
      GaplessParameters m.parameters ∧
      (∀ known ∈ "x" :: type.names, ' ' ∉ known.toList) ∧
      dataLine .none type "x" = "public T<A ,  , B> x" ∧ ¬ Gapless type := by
  intro m type
  have hm : ∀ name ∈ shownNames m, ' ' ∉ name.toList := by decide
  have htype : ∀ known ∈ "x" :: type.names, ' ' ∉ known.toList := by decide
  obtain ⟨hmethod, hdata⟩ := lines_spaced m .none type "x"
  obtain ⟨-, hgapless, -⟩ := hmethod hm
  obtain ⟨-, hgapless', -⟩ := hdata htype
  exact ⟨hm, by decide, (hgapless.mp (by decide)).2, htype, by decide, mt hgapless'.mpr (by decide)⟩

/-- A catalog with a method of two parameters, the first of which has an empty name. -/
def unnamedText : String :=
  "\x7b\"modules\":[\x7b\"name\":\"M\",\"types\":[\x7b\"name\":\"T\",\"methods\":[\x7b\"name\":\"F\"," ++
    "\"parameters\":[[\"\",[\"A\"]],[\"b\",[\"B\"]]]\x7d]\x7d]\x7d]\x7d"

/-- The method comes out of the catalog, none of its names has a space, and two spaces are next to each
other in its line. -/
theorem unnamed_parameter_doubles_space :
    ∃ document, parse .json unnamedText = .ok document ∧
      ∃ x ∈ document.modules, ∃ t ∈ x.types, ∃ m ∈ t.methods,
        (∀ name ∈ shownNames m, ' ' ∉ name.toList) ∧ methodLine m = "F(A  , B b)" ∧
          ¬ SingleSpaced (methodLine m).toList := by
  have hline : ((parse .json unnamedText).toOption.any fun document =>
      document.modules.any fun x => x.types.any fun t => t.methods.any fun m =>
        (∀ name ∈ shownNames m, ' ' ∉ name.toList) ∧ methodLine m = "F(A  , B b)") = true := by
    decide +kernel
  cases hparse : parse .json unnamedText with
  | error cause =>
    rw [hparse] at hline
    cases hline
  | ok document =>
    rw [hparse] at hline
    simp only [Except.toOption, Option.any_some, List.any_eq_true, decide_eq_true_eq] at hline
    obtain ⟨x, hx, t, ht, m, hm, hnames, htext⟩ := hline
    exact ⟨document, rfl, x, hx, t, ht, m, hm, hnames, htext, by rw [htext]; decide⟩

end StubListing.Stub
