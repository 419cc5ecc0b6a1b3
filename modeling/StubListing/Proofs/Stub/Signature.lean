import Mathlib.Data.List.Forall2
import StubListing.Proofs.Stub.Shape
/-!
# What the line of a method shows

The line of a method is made of words of which some may be missing, and its types hold spaces and commas
themselves. Still the parts can be told from the line: a modifier is told by the text in front of the
first space, for no modifier begins as a result type or a signature does, and a type is told from what
follows it.
-/
namespace StubListing.Stub
open StubListing.Catalog StubListing.Text

/-! ## Words and spaces -/

/-- A word with the space behind it. A word that is missing has none. -/
def spaced (word : String) : List Char := if word = "" then [] else word.toList ++ [' ']

theorem spaced_of_ne {word : String} (h : word ≠ "") : spaced word = word.toList ++ [' '] := if_neg h

theorem toList_line_concat (words : List String) {last : String} (h : last ≠ "") :
    (line (words ++ [last])).toList = words.flatMap spaced ++ last.toList := by
  have hlast : last.isEmpty = false := by simpa using h
  induction words with
  | nil => simp [line, hlast]
  | cons word rest ih =>
    by_cases hword : word = ""
    · subst hword
      exact ih
    · have hkept : word.isEmpty = false := by simpa using hword
      have hmore : (rest ++ [last]).filter (fun word => !word.isEmpty) ≠ [] := by
        simp [List.filter_append, hlast]
      obtain ⟨next, more, hnext⟩ := List.exists_cons_of_ne_nil hmore
      rw [line, hnext] at ih
      rw [line, List.cons_append, List.filter_cons_of_pos (by simp [hkept]), hnext, joined_cons_cons,
        String.toList_append, String.toList_append, ih, List.flatMap_cons, spaced_of_ne hword]
      simp

/-- The text in front of the first space. -/
def lead (r : List Char) : String := String.ofList (r.takeWhile (· != ' '))

theorem lead_append {a : List Char} (ha : ' ' ∉ a) (r : List Char) :
    lead (a ++ r) = String.ofList a ++ lead r := by
  have hall : ∀ c ∈ a, (c != ' ') = true := fun c hc => by
    rw [bne_iff_ne]
    rintro rfl
    exact ha hc
  rw [lead, List.takeWhile_append_of_pos hall, String.ofList_append, lead]

theorem lead_spaced {word : String} (hword : ' ' ∉ word.toList) (hne : word ≠ "") (r : List Char) :
    lead (spaced word ++ r) = word := by
  rw [spaced_of_ne hne, List.append_assoc, lead_append hword, String.ofList_toList]
  simp [lead]

/-- What comes before the first space is in front of it. -/
theorem mem_lead {a r : List Char} {c : Char} (ha : ' ' ∉ a) (hc : c ≠ ' ') :
    c ∈ (lead (a ++ c :: r)).toList := by
  rw [lead_append ha, String.toList_append, lead, List.takeWhile_cons_of_pos (by simpa using hc)]
  simp

/-! ## Words that may be missing -/

/-- The word is one of these or missing. -/
def OneOf (word : String) (kind : List String) : Prop := word = "" ∨ word ∈ kind

theorem OneOf.mem {word : String} {kind : List String} (h : OneOf word kind) (hne : word ≠ "") :
    word ∈ kind := h.resolve_left hne

/-- Whether there is a word, and which, is told by the text in front of the first space, if what
follows does not look like such a word. -/
theorem spaced_append_inj {kind : List String} (hkind : ∀ w ∈ kind, ' ' ∉ w.toList)
    {word word' : String} (hw : OneOf word kind) (hw' : OneOf word' kind) {r r' : List Char}
    (hr : lead r ∉ kind) (hr' : lead r' ∉ kind) (h : spaced word ++ r = spaced word' ++ r') :
    word = word' ∧ r = r' := by
  by_cases hne : word = ""
  · by_cases hne' : word' = ""
    · subst hne hne'
      exact ⟨rfl, h⟩
    · have hlead := lead_spaced (hkind _ (hw'.mem hne')) hne' r'
      rw [← h, hne] at hlead
      exact absurd (hlead ▸ hw'.mem hne') hr
  · have hlead := lead_spaced (hkind _ (hw.mem hne)) hne r
    by_cases hne' : word' = ""
    · rw [h, hne'] at hlead
      exact absurd (hlead ▸ hw.mem hne) hr'
    · rw [h, lead_spaced (hkind _ (hw'.mem hne')) hne' r'] at hlead
      subst hlead
      exact ⟨rfl, List.append_cancel_left h⟩

theorem lead_words {kinds : List (List String)} (hkinds : ∀ w ∈ kinds.flatten, ' ' ∉ w.toList)
    {words : List String} (hwords : List.Forall₂ OneOf words kinds) (r : List Char) :
    lead (words.flatMap spaced ++ r) = lead r ∨ lead (words.flatMap spaced ++ r) ∈ kinds.flatten := by
  induction hwords with
  | nil => exact Or.inl rfl
  | @cons word kind words kinds hword _ ih =>
    rw [List.flatten_cons, List.forall_mem_append] at hkinds
    rw [List.flatMap_cons, List.append_assoc, List.flatten_cons, List.mem_append]
    by_cases hne : word = ""
    · subst hne
      exact (ih hkinds.2).imp id Or.inr
    · rw [lead_spaced (hkinds.1 _ (hword.mem hne)) hne]
      exact Or.inr (Or.inl (hword.mem hne))

/-- So it is with several words, if no two kinds have a word in common. -/
theorem words_append_inj {kinds : List (List String)} (hkinds : ∀ w ∈ kinds.flatten, ' ' ∉ w.toList)
    (hdistinct : kinds.flatten.Nodup) {words words' : List String}
    (hwords : List.Forall₂ OneOf words kinds) (hwords' : List.Forall₂ OneOf words' kinds)
    {r r' : List Char} (hr : lead r ∉ kinds.flatten) (hr' : lead r' ∉ kinds.flatten)
    (h : words.flatMap spaced ++ r = words'.flatMap spaced ++ r') : words = words' ∧ r = r' := by
  induction hwords generalizing words' with
  | nil =>
    cases hwords'
    exact ⟨rfl, h⟩
  | @cons word kind words kinds hword hrest ih =>
    cases hwords' with
    | @cons word' _ words' _ hword' hrest' =>
      rw [List.flatten_cons, List.forall_mem_append] at hkinds
      rw [List.flatten_cons, List.mem_append, not_or] at hr hr'
      rw [List.flatten_cons, List.nodup_append] at hdistinct
      obtain ⟨-, hnodup, hapart⟩ := hdistinct
      -- the next word does not look like one of this kind
      have hnext : ∀ {ws : List String} {r : List Char}, List.Forall₂ OneOf ws kinds →
          lead r ∉ kind → lead (ws.flatMap spaced ++ r) ∉ kind := by
        intro ws r hws hr hm
        rcases lead_words hkinds.2 hws r with hlead | hlead
        · exact hr (hlead ▸ hm)
        · exact hapart _ hm _ hlead rfl
      rw [List.flatMap_cons, List.flatMap_cons, List.append_assoc, List.append_assoc] at h
      obtain ⟨rfl, htail⟩ := spaced_append_inj hkinds.1 hword hword' (hnext hrest hr.1)
        (hnext hrest' hr'.1) h
      obtain ⟨rfl, hend⟩ := ih hkinds.2 hnodup hrest' hr.2 hr'.2 htail
      exact ⟨rfl, hend⟩

/-! ## The parts of a line -/

/-- The modifiers of a member, in their order. -/
def modifiers (flags : Flags) : List String :=
  [visibility flags, wordIf flags.isStatic "static", wordIf flags.isVirtual "virtual",
    wordIf flags.isAbstract "abstract"]

/-- The words that may stand in the place of each modifier. -/
def modifierKinds : List (List String) := [["private", "public"], ["static"], ["virtual"], ["abstract"]]

/-- All words that are modifiers. -/
def modifierWords : List String := modifierKinds.flatten

/-- The name of a method with its parameters. -/
def signature (m : Method) : String := m.name ++ "(" ++ parametersText m.parameters ++ ")"

/-- The result type that is shown, if any is. -/
def shownResult (m : Method) : Option TypeRef := if m.flags.isConstructor then none else m.result

/-- The types of the parameters as they are shown, with the names of the parameters. -/
def shownParameters (m : Method) : List (String × String) :=
  m.parameters.map fun p => (typeName p.type, p.name)

/-- The names that are in the line of a method, those inside of types too. -/
def shownNames (m : Method) : List String :=
  m.name :: ((shownResult m).toList.flatMap TypeRef.names ++
    m.parameters.flatMap fun p => p.name :: p.type.names)

theorem forall_mem_shownNames {P : String → Prop} {m : Method} :
    (∀ name ∈ shownNames m, P name) ↔
      P m.name ∧ (∀ t, shownResult m = some t → ∀ name ∈ t.names, P name) ∧
        ∀ p ∈ m.parameters, P p.name ∧ ∀ name ∈ p.type.names, P name := by
  simp only [shownNames, List.forall_mem_cons, List.forall_mem_append, List.forall_mem_flatMap,
    Option.mem_toList]

/-- The characters that stand between the parts of a line. -/
def lineMarks : List Char := typeMarks ++ ['(', ')']

/-- No name is empty or has a mark of the notation, and the result type does not look like a modifier. -/
structure Legible (m : Method) : Prop where
  names : ∀ name ∈ shownNames m, Unmarked lineMarks name
  result : ∀ t, shownResult m = some t → typeName t ∉ modifierWords

/-- The methods have everything in common that is shown of them. Whether a private one is public too is
not shown. -/
structure SameShown (m m' : Method) : Prop where
  isPrivate : m.flags.isPrivate = m'.flags.isPrivate
  isPublic : m.flags.isPrivate = false → m.flags.isPublic = m'.flags.isPublic
  isStatic : m.flags.isStatic = m'.flags.isStatic
  isVirtual : m.flags.isVirtual = m'.flags.isVirtual
  isAbstract : m.flags.isAbstract = m'.flags.isAbstract
  result : (shownResult m).map typeName = (shownResult m').map typeName
  name : m.name = m'.name
  parameters : shownParameters m = shownParameters m'

variable {m m' : Method}

theorem wordIf_inj {word : String} (hne : word ≠ "") {a b : Bool} :
    wordIf a word = wordIf b word ↔ a = b := by
  cases a <;> cases b <;> simp [wordIf, hne, hne.symm]

theorem visibility_inj {a b : Flags} : visibility a = visibility b ↔
    a.isPrivate = b.isPrivate ∧ (a.isPrivate = false → a.isPublic = b.isPublic) := by
  unfold visibility
  cases a.isPrivate <;> cases b.isPrivate <;> cases a.isPublic <;> cases b.isPublic <;> decide

theorem modifiers_oneOf (flags : Flags) : List.Forall₂ OneOf (modifiers flags) modifierKinds := by
  have hword : ∀ (b : Bool) (word : String), OneOf (wordIf b word) [word] := by
    intro b word
    cases b <;> simp [OneOf, wordIf]
  refine .cons ?_ (.cons (hword _ _) (.cons (hword _ _) (.cons (hword _ _) .nil)))
  unfold visibility
  cases flags.isPrivate <;> cases flags.isPublic <;> simp [OneOf, wordIf]

theorem mem_modifiers {flags : Flags} {word : String} (h : word ∈ modifiers flags) :
    word = "" ∨ word ∈ modifierWords := by
  obtain ⟨isPublic, isPrivate, isStatic, isVirtual, isAbstract, _⟩ := flags
  simp only [modifiers, visibility, wordIf, List.mem_cons, List.not_mem_nil, or_false] at h
  rcases h with rfl | rfl | rfl | rfl <;> (repeat' split) <;> simp [modifierWords, modifierKinds]

theorem modifiers_inj {a b : Flags} :
    modifiers a = modifiers b ↔
      (a.isPrivate = b.isPrivate ∧ (a.isPrivate = false → a.isPublic = b.isPublic)) ∧
        a.isStatic = b.isStatic ∧ a.isVirtual = b.isVirtual ∧ a.isAbstract = b.isAbstract := by
  simp only [modifiers, List.cons.injEq, and_true]
  rw [visibility_inj, wordIf_inj (by decide), wordIf_inj (by decide), wordIf_inj (by decide)]

theorem resultText_eq (m : Method) : resultText m = ((shownResult m).map typeName).getD "" := by
  unfold resultText shownResult
  cases m.result <;> cases m.flags.isConstructor <;> rfl

theorem signature_ne_empty (m : Method) : signature m ≠ "" := by
  intro h
  have := congrArg String.toList h
  simp [signature, String.toList_append] at this

theorem toList_methodLine (m : Method) :
    (methodLine m).toList =
      (modifiers m.flags).flatMap spaced ++ (spaced (resultText m) ++ (signature m).toList) := by
  have hline := toList_line_concat (modifiers m.flags ++ [resultText m]) (signature_ne_empty m)
  rw [List.flatMap_append, List.flatMap_singleton] at hline
  rw [← List.append_assoc]
  exact hline

/-- What a parameter shows. -/
def pairText (shown : String × String) : String := shown.1 ++ " " ++ shown.2

theorem parametersText_eq (m : Method) :
    parametersText m.parameters = joined listSeparator ((shownParameters m).map pairText) := by
  rw [parametersText, shownParameters, List.map_map]
  rfl

theorem pairText_append (shown : String × String) (r : List Char) :
    (pairText shown).toList ++ r = shown.1.toList ++ ' ' :: (shown.2.toList ++ r) := by
  simp [pairText, String.toList_append]

theorem signature_append (m : Method) : (signature m).toList = m.name.toList ++
    '(' :: ((joined listSeparator ((shownParameters m).map pairText)).toList ++ [')']) := by
  rw [signature, parametersText_eq]
  simp [String.toList_append]

/-! ## Reading a line back -/

theorem Legible.name (h : Legible m) : Unmarked lineMarks m.name := h.names _ List.mem_cons_self

theorem Legible.plain_result (h : Legible m) {t : TypeRef} (ht : shownResult m = some t) :
    Plain lineMarks t.shape :=
  plain_shape t fun name hname => h.names name (List.mem_cons_of_mem _
    (List.mem_append_left _ (List.mem_flatMap.mpr ⟨t, by simp [ht], hname⟩)))

/-- What is shown of a parameter is a type that can be read back, and a name without marks. -/
theorem Legible.plain_parameter (h : Legible m) {shown : String × String}
    (hshown : shown ∈ shownParameters m) :
    ∃ s, Plain lineMarks s ∧ shown.1 = shapeText s ∧ Unmarked lineMarks shown.2 := by
  obtain ⟨p, hp, rfl⟩ := List.mem_map.mp hshown
  have hnames : ∀ name ∈ p.name :: p.type.names, Unmarked lineMarks name := fun name hname =>
    h.names name (List.mem_cons_of_mem _ (List.mem_append_right _ (List.mem_flatMap.mpr ⟨p, hp, hname⟩)))
  rw [List.forall_mem_cons] at hnames
  exact ⟨_, plain_shape p.type hnames.2, typeName_eq_shapeText _, hnames.1⟩

theorem typeMarks_subset_lineMarks : typeMarks ⊆ lineMarks := List.subset_append_left _ _

/-- A modifier is a word of letters. -/
theorem not_mem_modifierWords {c : Char} {word : String} (hc : c ∈ word.toList) (hmark : c ∈ lineMarks) :
    word ∉ modifierWords := by
  have hletters : ∀ w ∈ modifierWords, Unmarked lineMarks w := by decide
  exact fun hword => (hletters word hword).2 c hc hmark

theorem Unmarked.space_not_mem {name : String} (h : Unmarked lineMarks name) : ' ' ∉ name.toList :=
  fun hspace => h.2 _ hspace (by decide)

theorem Legible.typeName_ne (h : Legible m) {t : TypeRef} (ht : shownResult m = some t) :
    typeName t ≠ "" := by
  obtain ⟨name, more, htext, -, hmore⟩ := (h.plain_result ht).text_eq
  rw [← typeName_eq_shapeText] at htext
  intro he
  rw [he] at htext
  obtain ⟨rfl, rfl⟩ := List.append_eq_nil_iff.mp htext.symm
  simp at hmore

theorem spaced_resultText_of_none (ht : shownResult m = none) (r : List Char) :
    spaced (resultText m) ++ r = r := by
  rw [resultText_eq, ht]
  rfl

theorem Legible.spaced_resultText (h : Legible m) {t : TypeRef} (ht : shownResult m = some t)
    (r : List Char) : spaced (resultText m) ++ r = (typeName t).toList ++ ' ' :: r := by
  rw [resultText_eq, ht, Option.map_some, Option.getD_some, spaced_of_ne (h.typeName_ne ht),
    List.append_assoc]
  rfl

/-- What follows the modifiers does not begin like one. -/
theorem Legible.lead_not_mem (h : Legible m) :
    lead (spaced (resultText m) ++ (signature m).toList) ∉ modifierWords := by
  cases ht : shownResult m with
  | none =>
    rw [spaced_resultText_of_none ht, signature_append]
    exact not_mem_modifierWords (mem_lead h.name.space_not_mem (by decide)) (by decide)
  | some t =>
    obtain ⟨name, more, htext, hname, hmore⟩ := (h.plain_result ht).text_eq
    rw [← typeName_eq_shapeText] at htext
    have hspace : ' ' ∉ name := fun hc => hname _ hc (by decide)
    rw [h.spaced_resultText ht, htext, List.append_assoc]
    rcases hmore with ⟨rfl, -⟩ | hopen
    · rw [List.append_nil] at htext
      rw [List.nil_append, lead_append hspace, ← htext, String.ofList_toList]
      simpa [lead] using h.result t ht
    · obtain ⟨more, rfl⟩ := List.head?_eq_some_iff.mp hopen
      rw [List.cons_append]
      exact not_mem_modifierWords (mem_lead hspace (by decide)) (by decide)

/-- A type name is no beginning of a signature. -/
theorem typeName_append_ne (h : Legible m) (h' : Legible m') {t : TypeRef}
    (ht : shownResult m = some t) (r : List Char) :
    (typeName t).toList ++ ' ' :: r ≠ (signature m').toList := by
  obtain ⟨name, more, htext, hname, hmore⟩ := (h.plain_result ht).text_eq
  rw [typeName_eq_shapeText, htext, signature_append, List.append_assoc]
  intro heq
  have hmark : ∀ c ∈ (more ++ ' ' :: r).head?, c ∈ lineMarks := by
    rcases hmore with ⟨rfl, -⟩ | hopen
    · simp [lineMarks, typeMarks]
    · simp [hopen, lineMarks, typeMarks]
  obtain ⟨-, hrest⟩ := word_append_inj hname h'.name.2 hmark (by simp [lineMarks]) heq
  have hfirst := congrArg List.head? hrest
  rcases hmore with ⟨rfl, -⟩ | hopen
  · simp at hfirst
  · simp [hopen] at hfirst

/-- Which result type is shown, and whether one is, is told by the line. -/
theorem result_append_inj (h : Legible m) (h' : Legible m')
    (heq : spaced (resultText m) ++ (signature m).toList =
      spaced (resultText m') ++ (signature m').toList) :
    (shownResult m).map typeName = (shownResult m').map typeName ∧
      (signature m).toList = (signature m').toList := by
  cases ht : shownResult m with
  | none =>
    rw [spaced_resultText_of_none ht] at heq
    cases ht' : shownResult m' with
    | none =>
      rw [spaced_resultText_of_none ht'] at heq
      exact ⟨rfl, heq⟩
    | some t' =>
      rw [h'.spaced_resultText ht'] at heq
      exact absurd heq.symm (typeName_append_ne h' h ht' _)
  | some t =>
    rw [h.spaced_resultText ht] at heq
    cases ht' : shownResult m' with
    | none =>
      rw [spaced_resultText_of_none ht'] at heq
      exact absurd heq (typeName_append_ne h h' ht _)
    | some t' =>
      rw [h'.spaced_resultText ht', typeName_eq_shapeText, typeName_eq_shapeText] at heq
      obtain ⟨hshape, hrest⟩ := (h.plain_result ht).text_append_inj typeMarks_subset_lineMarks
        (h'.plain_result ht') (follows_space _) (follows_space _) heq
      rw [Option.map_some, Option.map_some, typeName_eq_shapeText, typeName_eq_shapeText, hshape]
      exact ⟨rfl, (List.cons.inj hrest).2⟩

/-- What is shown of a parameter can be cancelled in front of what may follow it in a list. -/
theorem pairText_append_inj {a b : String × String} {s t : Shape} (hs : Plain lineMarks s)
    (ht : Plain lineMarks t) (ha : a.1 = shapeText s) (hb : b.1 = shapeText t)
    (haname : Unmarked lineMarks a.2) (hbname : Unmarked lineMarks b.2) {r r' : List Char}
    (hr : Follows r) (hr' : Follows r') (h : (pairText a).toList ++ r = (pairText b).toList ++ r') :
    a = b ∧ r = r' := by
  rw [pairText_append, pairText_append, ha, hb] at h
  obtain ⟨hshape, hrest⟩ := hs.text_append_inj typeMarks_subset_lineMarks ht (follows_space _)
    (follows_space _) h
  obtain ⟨hname, hend⟩ := word_append_inj haname.2 hbname.2
    (hr.mem_marks typeMarks_subset_lineMarks) (hr'.mem_marks typeMarks_subset_lineMarks)
    (List.cons.inj hrest).2
  exact ⟨Prod.ext (by rw [ha, hb, hshape]) (String.toList_inj.mp hname), hend⟩

theorem Legible.pairText_not_closes (h : Legible m) {shown : String × String}
    (hshown : shown ∈ shownParameters m) (r : List Char) : ¬ Closes ((pairText shown).toList ++ r) := by
  obtain ⟨s, hs, hfst, -⟩ := h.plain_parameter hshown
  rw [pairText_append, hfst]
  exact hs.not_closes typeMarks_subset_lineMarks _

/-- A signature shows the name of the method and its parameters. -/
theorem signature_inj (h : Legible m) (h' : Legible m')
    (heq : (signature m).toList = (signature m').toList) :
    m.name = m'.name ∧ shownParameters m = shownParameters m' := by
  rw [signature_append, signature_append] at heq
  obtain ⟨hname, hrest⟩ := word_append_inj h.name.2 h'.name.2 (by simp [lineMarks])
    (by simp [lineMarks]) heq
  have hlist := List.append_cancel_right (List.cons.inj hrest).2
  have hend : Closes [] := by simp [Closes]
  obtain ⟨hparameters, -⟩ := joined_append_inj
    (fun a ha b hb r r' hr hr' heq => by
      obtain ⟨s, hs, has, haname⟩ := h.plain_parameter ha
      obtain ⟨t, ht, hbt, hbname⟩ := h'.plain_parameter hb
      exact pairText_append_inj hs ht has hbt haname hbname hr hr' heq)
    (fun a ha => h.pairText_not_closes ha) (fun b hb => h'.pairText_not_closes hb) hend hend
    (by rw [hlist])
  exact ⟨String.toList_inj.mp hname, hparameters⟩

/-- The lines of two methods are the same if and only if the methods have everything in common that is
shown of them. -/
theorem methodLine_eq_iff (h : Legible m) (h' : Legible m') :
    methodLine m = methodLine m' ↔ SameShown m m' := by
  constructor
  · intro heq
    have hlist := congrArg String.toList heq
    rw [toList_methodLine, toList_methodLine] at hlist
    obtain ⟨hmodifiers, htail⟩ := words_append_inj (by decide) (by decide) (modifiers_oneOf m.flags)
      (modifiers_oneOf m'.flags) h.lead_not_mem h'.lead_not_mem hlist
    obtain ⟨⟨hprivate, hpublic⟩, hstatic, hvirtual, habstract⟩ := modifiers_inj.mp hmodifiers
    obtain ⟨hresult, hsignature⟩ := result_append_inj h h' htail
    obtain ⟨hname, hparameters⟩ := signature_inj h h' hsignature
    exact ⟨hprivate, hpublic, hstatic, hvirtual, habstract, hresult, hname, hparameters⟩
  · intro hsame
    have hmodifiers : modifiers m.flags = modifiers m'.flags :=
      modifiers_inj.mpr ⟨⟨hsame.isPrivate, hsame.isPublic⟩, hsame.isStatic, hsame.isVirtual,
        hsame.isAbstract⟩
    have hresult : resultText m = resultText m' := by
      rw [resultText_eq, resultText_eq, hsame.result]
    have hsignature : (signature m).toList = (signature m').toList := by
      rw [signature_append, signature_append, hsame.name, hsame.parameters]
    rw [← String.toList_inj, toList_methodLine, toList_methodLine, hmodifiers, hresult, hsignature]

/-- Methods named like a modifier: one with a hidden visibility and an arity marker more than another has
the same line, and one that is public has a line of its own. -/
theorem methodLine_eq_iff_of_lookup :
    let parameters : List Parameter :=
      [⟨"keys", .applied "List`1" [.simple "Int32"]⟩, ⟨"n", .simple "Int32"⟩]
    let arguments := [TypeRef.simple "String", .applied "List`1" [.simple "Int32"]]
    let flags : Flags := ⟨false, true, true, false, false, false⟩
    let m : Method := ⟨"static", some (.applied "Dictionary`2" arguments),
      { flags with isPublic := true }, parameters, none⟩
    let m' : Method := ⟨"static", some (.applied "Dictionary" arguments), flags, parameters, some "N.A"⟩
    let overt : Method := { m with flags := { flags with isPublic := true, isPrivate := false } }
    Legible m ∧ Legible m' ∧ Legible overt ∧ (methodLine m = methodLine m' ↔ SameShown m m') ∧
      (methodLine m = methodLine overt ↔ SameShown m overt) ∧ SameShown m m' ∧ ¬ SameShown m overt ∧
      methodLine m =
        "private static Dictionary<String , List<Int32>> static(List<Int32> keys , Int32 n)" ∧
      methodLine overt =
        "public static Dictionary<String , List<Int32>> static(List<Int32> keys , Int32 n)" := by
  intro parameters arguments flags m m' overt
  have hlegible : Legible m := ⟨by decide, by rintro t ⟨⟩; decide⟩
  have hlegible' : Legible m' := ⟨by decide, by rintro t ⟨⟩; decide⟩
  have hovert : Legible overt := ⟨by decide, by rintro t ⟨⟩; decide⟩
  have hsame := methodLine_eq_iff hlegible hlegible'
  have hother := methodLine_eq_iff hlegible hovert
  exact ⟨hlegible, hlegible', hovert, hsame, hother, hsame.mp (by decide),
    fun h => Bool.noConfusion h.isPrivate, by decide, by decide⟩

end StubListing.Stub
