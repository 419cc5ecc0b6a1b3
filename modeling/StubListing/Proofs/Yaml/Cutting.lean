import StubListing.Proofs.Json.Measure
import StubListing.Proofs.Yaml.Scanning
import StubListing.Yaml.Token
/-!
# Cutting texts of JSON

A text of JSON in one line is cut into the tokens of brackets and words. Nothing in it has to be a key
because of its place, so a place where a key could begin is given up without harm.
-/
namespace StubListing.Yaml
open StubListing.Json (Value writtenText writtenChar)

namespace Cutting

/-- A text in the course of being cut, in its first line and outside of indented notation. -/
def inLine (rest : List Char) (i : Nat) (candidates : List (Option Candidate)) (allowed : Bool)
    (reversed : List Token) : Cutting :=
  ⟨.inLine rest i, 0, [], candidates, allowed, reversed, reversed.length⟩

/-- The second state is come to from the first one, and enough steps for the first one leave enough
for the second. -/
def Cuts (s s' : Cutting) : Prop :=
  ∀ n, s.cursor.rest.length < n →
    ∃ n', s'.cursor.rest.length < n' ∧ s.finish n = s'.finish n'

theorem Cuts.trans {s₁ s₂ s₃ : Cutting} (h : Cuts s₁ s₂) (h' : Cuts s₂ s₃) : Cuts s₁ s₃ := by
  intro n hn
  obtain ⟨n', hn', heq⟩ := h n hn
  obtain ⟨n'', hn'', heq'⟩ := h' n' hn'
  exact ⟨n'', hn'', heq.trans heq'⟩

/-- There need not be a key at the place, so that it may be given up. -/
def Loose (candidate : Option Candidate) : Prop := ∀ c, candidate = some c → c.required = false

theorem loose_none : Loose none := nofun

variable {c : Char} {rest : List Char} {i : Nat} {head : Option Candidate}
  {outer candidates : List (Option Candidate)} {allowed : Bool} {reversed : List Token}

@[simp] theorem cursor_inLine :
    (inLine rest i candidates allowed reversed).cursor = .inLine rest i := rfl

@[simp] theorem margin_inLine : (inLine rest i candidates allowed reversed).margin = 0 := rfl

theorem unindent_inLine (margin : Nat) :
    (inLine rest i candidates allowed reversed).unindent margin =
      inLine rest i candidates allowed reversed := by
  unfold unindent
  split <;> rfl

theorem dropCandidate_inLine (h : Loose head) :
    (inLine rest i (head :: outer) allowed reversed).dropCandidate =
      some (inLine rest i (none :: outer) allowed reversed) := by
  cases head with
  | none => rfl
  | some c => simp [dropCandidate, inLine, h c rfl]

theorem saveCandidate_allowed (h : Loose head) :
    (inLine rest i (head :: outer) true reversed).saveCandidate =
      some (inLine rest i (some ⟨reversed.length, ⟨i, 0, i⟩, false⟩ :: outer) true reversed) := by
  have hmargin : ¬ (0 = i + 1) := by omega
  have hrequired : (!(inLine rest i (none :: outer) true reversed).inside &&
      decide (0 = i + 1)) = false := by
    rw [decide_eq_false hmargin, Bool.and_false]
  unfold saveCandidate
  rw [dropCandidate_inLine h, ← hrequired]
  rfl

theorem saveCandidate_inLine (rest : List Char) (i : Nat) (outer : List (Option Candidate))
    (allowed : Bool) (reversed : List Token) (h : Loose head) :
    ∃ head', Loose head' ∧ (inLine rest i (head :: outer) allowed reversed).saveCandidate =
      some (inLine rest i (head' :: outer) allowed reversed) := by
  cases allowed with
  | false => exact ⟨head, h, rfl⟩
  | true =>
    refine ⟨_, ?_, saveCandidate_allowed h⟩
    rintro _ ⟨⟩
    rfl

/-- No white space, no comment and no byte order mark. -/
def BeginsToken (c : Char) : Prop := isSpace c = false ∧ c ≠ '#' ∧ c ≠ '\ufeff'

theorem skipSpace_inLine (h : BeginsToken c) (n : Nat) :
    (inLine (c :: rest) i candidates allowed reversed).skipSpace n =
      inLine (c :: rest) i candidates allowed reversed := by
  cases n with
  | zero => rfl
  | succ n =>
    obtain ⟨hspace, hcomment, horder⟩ := h
    simp only [isSpace, isGap, Bool.or_eq_false_iff, decide_eq_false_iff_not] at hspace
    have hline := Cursor.lineEnd?_inLine hspace.2 rest i
    have hblank : ∀ tabs : Bool, (Cursor.inLine (c :: rest) i).skipWhile
        (fun x => x = ' ' || (tabs && x = '\t')) = .inLine (c :: rest) i := by
      intro tabs
      simp [Cursor.skipWhile, hspace.1, Cursor.forward, Mark.forward, Cursor.inLine]
    have horder' : ¬ (c :: rest).head? = some '\ufeff' := by simpa using horder
    have hcomment' : ¬ (c :: rest).head? = some '#' := by simpa using hcomment
    simp only [skipSpace, inLine, Cursor.rest_inLine, horder', decide_false, Bool.and_false,
      Bool.false_eq_true, if_false, hblank, hcomment', hline]

/-- One token more is cut. -/
theorem cuts_of_next (h : BeginsToken c) {s' : Cutting}
    (hnext : (inLine (c :: rest) i candidates allowed reversed).next = some s')
    (hless : s'.cursor.rest.length ≤ rest.length) :
    Cuts (inLine (c :: rest) i candidates allowed reversed) s' := by
  intro n hn
  obtain ⟨n, rfl⟩ : ∃ k, n = k + 1 := ⟨n - 1, by simp [inLine] at hn; omega⟩
  refine ⟨n, Nat.lt_of_le_of_lt hless (Nat.lt_of_succ_lt_succ hn), ?_⟩
  rw [finish, skipSpace_inLine h, hnext]
  rfl

theorem inside_inLine (h : outer ≠ []) :
    (inLine rest i (head :: outer) allowed reversed).inside = true := by
  obtain ⟨x, outer, rfl⟩ := List.exists_cons_of_ne_nil h
  simp [inside, inLine]

/-! ## Brackets and commas -/

section
variable {t : Token}

theorem next_opening (hc : (c = '[' ∧ t = .listOpen) ∨ (c = '\x7b' ∧ t = .objectOpen)) :
    (inLine (c :: rest) i candidates allowed reversed).next =
      (inLine (c :: rest) i candidates allowed reversed).openBracket t := by
  simp only [next, cursor_inLine, Cursor.rest_inLine, unindent_inLine]
  rcases hc with ⟨rfl, rfl⟩ | ⟨rfl, rfl⟩ <;> simp [Cursor.atDocumentMark]

theorem next_closing (hc : (c = ']' ∧ t = .listClose) ∨ (c = '\x7d' ∧ t = .objectClose)) :
    (inLine (c :: rest) i candidates allowed reversed).next =
      (inLine (c :: rest) i candidates allowed reversed).closeBracket t := by
  simp only [next, cursor_inLine, Cursor.rest_inLine, unindent_inLine]
  rcases hc with ⟨rfl, rfl⟩ | ⟨rfl, rfl⟩ <;> simp [Cursor.atDocumentMark]

/-- An opening bracket: within it a key may begin. -/
theorem cuts_opening (hc : (c = '[' ∧ t = .listOpen) ∨ (c = '\x7b' ∧ t = .objectOpen))
    (h : Loose head) : ∃ head', Loose head' ∧
      Cuts (inLine (c :: rest) i (head :: outer) allowed reversed)
        (inLine rest (i + 1) (none :: head' :: outer) true (t :: reversed)) := by
  obtain ⟨head', hloose, hsave⟩ := saveCandidate_inLine (c :: rest) i outer allowed reversed h
  have hbegins : BeginsToken c := by
    rcases hc with ⟨rfl, -⟩ | ⟨rfl, -⟩ <;> exact ⟨rfl, by decide, by decide⟩
  refine ⟨head', hloose, cuts_of_next hbegins ?_ (Nat.le_refl _)⟩
  rw [next_opening hc, openBracket, hsave]
  rfl

/-- A closing bracket: what was open around it is open again. -/
theorem cuts_closing (hc : (c = ']' ∧ t = .listClose) ∨ (c = '\x7d' ∧ t = .objectClose))
    (h : Loose head) (houter : outer ≠ []) :
    Cuts (inLine (c :: rest) i (head :: outer) allowed reversed)
      (inLine rest (i + 1) outer false (t :: reversed)) := by
  have hbegins : BeginsToken c := by
    rcases hc with ⟨rfl, -⟩ | ⟨rfl, -⟩ <;> exact ⟨rfl, by decide, by decide⟩
  refine cuts_of_next hbegins ?_ (Nat.le_refl _)
  rw [next_closing hc, closeBracket, dropCandidate_inLine h, Option.bind_eq_bind, Option.bind_some,
    inside_inLine houter]
  rfl

end

/-- A comma: behind it a key may begin. -/
theorem cuts_comma (h : Loose head) :
    Cuts (inLine (',' :: rest) i (head :: outer) allowed reversed)
      (inLine rest (i + 1) (none :: outer) true (.comma :: reversed)) := by
  refine cuts_of_next ⟨rfl, by decide, by decide⟩ ?_ (Nat.le_refl _)
  have hnext : (inLine (',' :: rest) i (head :: outer) allowed reversed).next =
      (inLine (',' :: rest) i (head :: outer) allowed reversed).comma := by
    simp only [next, cursor_inLine, Cursor.rest_inLine, unindent_inLine]
    simp [Cursor.atDocumentMark]
  rw [hnext, comma, dropCandidate_inLine h]
  rfl

/-! ## Texts and words -/

theorem writtenText_append (s : String) (rest : List Char) :
    writtenText s ++ rest = '"' :: (s.toList.flatMap writtenChar ++ '"' :: rest) := by
  simp [writtenText]

/-- A text in quotes. -/
theorem cuts_text {s : String} (hs : ∀ c ∈ s.toList, c.toNat < 0x7F) {head' : Option Candidate}
    (hsave : (inLine (writtenText s ++ rest) i (head :: outer) allowed reversed).saveCandidate =
      some (inLine (writtenText s ++ rest) i (head' :: outer) allowed reversed)) :
    Cuts (inLine (writtenText s ++ rest) i (head :: outer) allowed reversed)
      (inLine rest (i + (writtenText s).length) (head' :: outer) false
        (.scalar s .quoted :: reversed)) := by
  have hlength : (writtenText s).length = (s.toList.flatMap writtenChar).length + 2 := by
    simp [writtenText]
  rw [writtenText_append] at hsave ⊢
  rw [hlength]
  generalize hbody : s.toList.flatMap writtenChar ++ '"' :: rest = body at hsave ⊢
  have hshort : (s.toList.flatMap writtenChar).length + rest.length < body.length := by
    rw [← hbody, List.length_append, List.length_cons]
    omega
  have hread : quoted '"' (body.length + 1 + 1) (.inLine body (i + 1)) [] .none =
      some (s, .inLine rest (i + ((s.toList.flatMap writtenChar).length + 2))) := by
    have hwritten := quoted_written (i := i + 1) (n := body.length + 1 + 1) hs (Nat.succ_pos i)
      (by omega) rest (show [] ++ [] = [] from rfl)
    rw [hbody, List.append_nil, ofReversed, List.reverse_reverse, String.ofList_toList] at hwritten
    rw [show i + ((s.toList.flatMap writtenChar).length + 2) =
      i + 1 + (s.toList.flatMap writtenChar).length + 1 by omega]
    exact hwritten
  have hnext : (inLine ('"' :: body) i (head :: outer) allowed reversed).next =
      (inLine ('"' :: body) i (head :: outer) allowed reversed).quotedText '"' := by
    simp only [next, cursor_inLine, Cursor.rest_inLine, unindent_inLine]
    simp [Cursor.atDocumentMark]
  refine cuts_of_next ⟨rfl, by decide, by decide⟩ ?_ ?_
  · rw [hnext, quotedText, begun, hsave, Option.bind_eq_bind, Option.bind_some]
    simp only [cursor_inLine, Cursor.rest_inLine, Cursor.forward_cons, List.length_cons, hread]
    rfl
  · simp only [cursor_inLine, Cursor.rest_inLine]
    omega

theorem isSign_of_isAlphanum (h : c.isAlphanum = true) : isSign c = false := by
  have hne : ∀ x : Char, x.isAlphanum = false → c ≠ x := fun x => ne_of_isAlphanum h
  simp [isSign, hne]

theorem next_word (h : c.isAlphanum = true) :
    (inLine (c :: rest) i candidates allowed reversed).next =
      (inLine (c :: rest) i candidates allowed reversed).plainText := by
  have hne : ∀ x : Char, x.isAlphanum = false → c ≠ x := fun x => ne_of_isAlphanum h
  have hplain : ∀ inside, beginsPlain inside c rest = true := by
    intro inside
    simp [beginsPlain, isSpace_of_isAlphanum h, isSign_of_isAlphanum h]
  simp only [next, cursor_inLine, Cursor.rest_inLine, unindent_inLine]
  simp [Cursor.atDocumentMark, hne, hplain]

/-- A word without quotes, in brackets. -/
theorem cuts_word (word : List Char) (hempty : word ≠ []) (hword : word.all Char.isAlphanum = true)
    (hplace : 0 < i ∧ outer ≠ [] ∧ AtFlowMark rest) (h : Loose head) :
    ∃ j head', 0 < j ∧ Loose head' ∧ Cuts (inLine (word ++ rest) i (head :: outer) allowed reversed)
      (inLine rest j (head' :: outer) false
        ([.scalar (String.ofList word) .plain].reverse ++ reversed)) := by
  obtain ⟨hi, houter, hrest⟩ := hplace
  rw [List.all_eq_true] at hword
  obtain ⟨c, tail, rfl⟩ := List.exists_cons_of_ne_nil hempty
  obtain ⟨head', hloose, hsave⟩ :=
    saveCandidate_inLine (c :: tail ++ rest) i outer allowed reversed h
  have hc : c.isAlphanum = true := hword c List.mem_cons_self
  have hbegins : BeginsToken c :=
    ⟨isSpace_of_isAlphanum hc, ne_of_isAlphanum hc (by decide), ne_of_isAlphanum hc (by decide)⟩
  have hread := plain_word (n := (c :: tail ++ rest).length + 1) hword hrest hi
    (by simp only [List.length_append]; omega) []
  rw [List.append_nil, ofReversed, List.reverse_reverse] at hread
  rw [List.cons_append] at hsave hread ⊢
  refine ⟨i + (c :: tail).length, head', Nat.add_pos_left hi _, hloose,
    cuts_of_next hbegins ?_ (by simp)⟩
  rw [next_word hc, plainText, hsave, Option.bind_eq_bind, Option.bind_some, inside_inLine houter]
  simp only [cursor_inLine, Cursor.rest_inLine, margin_inLine, hread]
  rfl

theorem insert_before (t last : Token) :
    (inLine rest i candidates allowed (last :: reversed)).insert reversed.length t =
      inLine rest i candidates allowed (last :: t :: reversed) := by
  simp [insert, inLine]

theorem indent_inside (houter : outer ≠ []) (column count : Nat) (t : Token) :
    (inLine rest i (head :: outer) allowed reversed).indent column count t =
      inLine rest i (head :: outer) allowed reversed := by
  rw [indent, inside_inLine houter]
  rfl

/-- The colon belongs to the text before it, which turns out to be a key. -/
theorem value_behind_key (houter : outer ≠ []) {j : Nat} (hnear : j ≤ i + keyReach) (last : Token) :
    (inLine (':' :: rest) j (some ⟨reversed.length, ⟨i, 0, i⟩, false⟩ :: outer) false
        (last :: reversed)).value =
      some (inLine rest (j + 1) (none :: outer) false (.value :: last :: .key :: reversed)) := by
  let s := inLine (':' :: rest) j (some ⟨reversed.length, ⟨i, 0, i⟩, false⟩ :: outer) false
    (last :: reversed)
  have hreach : s.reaches ⟨reversed.length, ⟨i, 0, i⟩, false⟩ = true := by
    simpa [s, reaches, inLine, Cursor.inLine] using hnear
  show (if s.reaches ⟨reversed.length, ⟨i, 0, i⟩, false⟩ then _ else _) = _
  rw [if_pos hreach, insert_before, indent_inside houter]
  rfl

/-- A key with its colon. -/
theorem cuts_key {key : String} (hkey : ∀ c ∈ key.toList, c.toNat < 0x7F)
    (hshort : (writtenText key).length ≤ keyReach) (h : Loose head) (houter : outer ≠ []) :
    Cuts (inLine (writtenText key ++ ':' :: rest) i (head :: outer) true reversed)
      (inLine rest (i + (writtenText key).length + 1) (none :: outer) false
        (.value :: .scalar key .quoted :: .key :: reversed)) := by
  -- the text was cut like any other; only the colon tells that a key token goes in front of it
  refine (cuts_text hkey (saveCandidate_allowed h)).trans ?_
  refine cuts_of_next ⟨rfl, by decide, by decide⟩ ?_ (Nat.le_refl _)
  simp only [next, cursor_inLine, Cursor.rest_inLine, unindent_inLine, inside_inLine houter]
  simp only [Cursor.atDocumentMark]
  simpa using value_behind_key houter (Nat.add_le_add_left hshort i) (.scalar key .quoted)

/-! ## Values -/

mutual

/-- The tokens that the compact text of a value is cut into. -/
def tokensOf : Value → List Token
  | .null => [.scalar "null" .plain]
  | .boolean true => [.scalar "true" .plain]
  | .boolean false => [.scalar "false" .plain]
  | .number n => [.scalar (String.ofList (Nat.toDigits 10 n)) .plain]
  | .text s => [.scalar s .quoted]
  | .array [] => [.listOpen, .listClose]
  | .array (item :: items) => .listOpen :: (tokensOf item ++ itemTokens items)
  | .object [] => [.objectOpen, .objectClose]
  | .object ((key, value) :: members) =>
    .objectOpen :: .key :: .scalar key .quoted :: .value :: (tokensOf value ++ memberTokens members)

/-- The tokens of the further elements of an array and of its end. -/
def itemTokens : List Value → List Token
  | [] => [.listClose]
  | item :: items => .comma :: (tokensOf item ++ itemTokens items)

/-- The tokens of the further members of an object and of its end. -/
def memberTokens : List (String × Value) → List Token
  | [] => [.objectClose]
  | (key, value) :: members =>
    .comma :: .key :: .scalar key .quoted :: .value :: (tokensOf value ++ memberTokens members)

end

/-- Texts of ASCII characters without DEL, and keys of such characters that are short enough. -/
structure Legible (texts keys : List String) : Prop where
  text : ∀ s ∈ texts, ∀ c ∈ s.toList, c.toNat < 0x7F
  key : ∀ s ∈ keys, ∀ c ∈ s.toList, c.toNat < 0x7F
  short : ∀ s ∈ keys, (writtenText s).length ≤ keyReach

theorem Legible.subset {texts keys texts' keys' : List String} (h : Legible texts keys)
    (htexts : texts' ⊆ texts) (hkeys : keys' ⊆ keys) : Legible texts' keys' :=
  ⟨fun s hs => h.text s (htexts hs), fun s hs => h.key s (hkeys hs), fun s hs => h.short s (hkeys hs)⟩

theorem atFlowMark_compactItems (items : List Value) (rest : List Char) :
    AtFlowMark (Value.compactItems items ++ rest) := by
  cases items with
  | nil => exact ⟨_, _, rfl, rfl⟩
  | cons item items => exact ⟨_, _, rfl, rfl⟩

theorem atFlowMark_compactMembers (members : List (String × Value)) (rest : List Char) :
    AtFlowMark (Value.compactMembers members ++ rest) := by
  cases members with
  | nil => exact ⟨_, _, rfl, rfl⟩
  | cons x members => exact ⟨_, _, rfl, rfl⟩

theorem all_isAlphanum_toDigits (n : Nat) : (Nat.toDigits 10 n).all Char.isAlphanum = true := by
  rw [List.all_eq_true]
  intro c hc
  rw [Char.isAlphanum, Nat.isDigit_of_mem_toDigits (b := 10) (by decide) (by decide) hc, Bool.or_true]

/-- The compact text of the value is cut into its tokens. What is no list and no object has to stand in
brackets for that. -/
def ValueIsCut (v : Value) : Prop :=
  ∀ {rest : List Char} {i : Nat} {head : Option Candidate} {outer : List (Option Candidate)}
    {allowed : Bool} {reversed : List Token}, Legible v.strings v.keys →
    (v.depth = 0 → 0 < i ∧ outer ≠ [] ∧ AtFlowMark rest) → Loose head →
      ∃ j head', 0 < j ∧ Loose head' ∧
        Cuts (inLine (v.compactChars ++ rest) i (head :: outer) allowed reversed)
          (inLine rest j (head' :: outer) false ((tokensOf v).reverse ++ reversed))

/-- Further elements and the end of their array are cut. -/
def ItemsAreCut (items : List Value) : Prop :=
  ∀ {rest : List Char} {i : Nat} {head : Option Candidate} {outer : List (Option Candidate)}
    {allowed : Bool} {reversed : List Token},
    Legible (Value.itemStrings items) (Value.itemKeys items) → outer ≠ [] → Loose head →
      ∃ j, 0 < j ∧ Cuts (inLine (Value.compactItems items ++ rest) i (head :: outer) allowed reversed)
        (inLine rest j outer false ((itemTokens items).reverse ++ reversed))

/-- Further members and the end of their object are cut. -/
def MembersAreCut (members : List (String × Value)) : Prop :=
  ∀ {rest : List Char} {i : Nat} {head : Option Candidate} {outer : List (Option Candidate)}
    {allowed : Bool} {reversed : List Token},
    Legible (Value.memberStrings members) (Value.memberKeys members) → outer ≠ [] → Loose head →
      ∃ j, 0 < j ∧
        Cuts (inLine (Value.compactMembers members ++ rest) i (head :: outer) allowed reversed)
          (inLine rest j outer false ((memberTokens members).reverse ++ reversed))

/-- An element behind an opening bracket or a comma, and those behind it. -/
theorem cuts_item {v : Value} {items : List Value} (hv : ValueIsCut v) (hitems : ItemsAreCut items)
    (hlegible : Legible (v.strings ++ Value.itemStrings items) (v.keys ++ Value.itemKeys items))
    (hi : 0 < i) (houter : outer ≠ []) :
    ∃ j, 0 < j ∧
      Cuts (inLine (v.compactChars ++ (Value.compactItems items ++ rest)) i (none :: outer) true reversed)
        (inLine rest j outer false
          ((itemTokens items).reverse ++ ((tokensOf v).reverse ++ reversed))) := by
  obtain ⟨_, _, -, hloose, hvalue⟩ := hv
    (hlegible.subset (List.subset_append_left _ _) (List.subset_append_left _ _))
    (fun _ => ⟨hi, houter, atFlowMark_compactItems items rest⟩) loose_none
  obtain ⟨j, hj, hrest⟩ := hitems
    (hlegible.subset (List.subset_append_right _ _) (List.subset_append_right _ _)) houter hloose
  exact ⟨j, hj, hvalue.trans hrest⟩

/-- A member behind an opening bracket or a comma, and those behind it. -/
theorem cuts_member {key : String} {v : Value} {members : List (String × Value)} (hv : ValueIsCut v)
    (hmembers : MembersAreCut members)
    (hlegible : Legible (v.strings ++ Value.memberStrings members)
      (key :: (v.keys ++ Value.memberKeys members))) (houter : outer ≠ []) :
    ∃ j, 0 < j ∧
      Cuts (inLine (writtenText key ++ ':' :: (v.compactChars ++ (Value.compactMembers members ++ rest)))
          i (none :: outer) true reversed)
        (inLine rest j outer false ((memberTokens members).reverse ++ ((tokensOf v).reverse ++
          .value :: .scalar key .quoted :: .key :: reversed))) := by
  obtain ⟨_, _, -, hloose, hvalue⟩ := hv
    (hlegible.subset (List.subset_append_left _ _) (fun k hk => by simp [hk]))
    (fun _ => ⟨Nat.succ_pos _, houter, atFlowMark_compactMembers members rest⟩) loose_none
  obtain ⟨j, hj, hrest⟩ := hmembers
    (hlegible.subset (List.subset_append_right _ _) (fun k hk => by simp [hk])) houter hloose
  refine ⟨j, hj, (cuts_key ?_ ?_ loose_none houter).trans (hvalue.trans hrest)⟩
  · exact hlegible.key key List.mem_cons_self
  · exact hlegible.short key List.mem_cons_self

mutual

theorem cuts_value : ∀ v : Value, ValueIsCut v
  | .null => fun _ hplace h => cuts_word "null".toList (by decide) (by decide) (hplace rfl) h
  | .boolean true => fun _ hplace h => cuts_word "true".toList (by decide) (by decide) (hplace rfl) h
  | .boolean false => fun _ hplace h =>
    cuts_word "false".toList (by decide) (by decide) (hplace rfl) h
  | .number n => fun _ hplace h =>
    cuts_word (Nat.toDigits 10 n) Nat.toDigits_ne_nil (all_isAlphanum_toDigits n) (hplace rfl) h
  | .text s => by
    rename_i rest i head outer allowed reversed
    intro hlegible hplace h
    obtain ⟨hi, -, -⟩ := hplace rfl
    obtain ⟨head', hloose, hsave⟩ :=
      saveCandidate_inLine (writtenText s ++ rest) i outer allowed reversed h
    exact ⟨_, head', Nat.add_pos_left hi _, hloose,
      cuts_text (hlegible.text s (List.mem_singleton_self s)) hsave⟩
  | .array [] => by
    intro _ _ h
    obtain ⟨head', hloose, hopen⟩ := cuts_opening (.inl ⟨rfl, rfl⟩) h
    exact ⟨_, head', Nat.succ_pos _, hloose,
      hopen.trans (cuts_closing (.inl ⟨rfl, rfl⟩) loose_none (List.cons_ne_nil _ _))⟩
  | .array (item :: items) => by
    intro hlegible _ h
    obtain ⟨head', hloose, hopen⟩ := cuts_opening (.inl ⟨rfl, rfl⟩) h
    obtain ⟨j, hj, hitems⟩ := cuts_item (cuts_value item) (cuts_items items) hlegible
      (Nat.succ_pos _) (List.cons_ne_nil _ _)
    refine ⟨j, head', hj, hloose, ?_⟩
    simp only [Value.compactChars, tokensOf, List.cons_append, List.append_assoc, List.reverse_cons,
      List.reverse_append]
    exact hopen.trans hitems
  | .object [] => by
    intro _ _ h
    obtain ⟨head', hloose, hopen⟩ := cuts_opening (.inr ⟨rfl, rfl⟩) h
    exact ⟨_, head', Nat.succ_pos _, hloose,
      hopen.trans (cuts_closing (.inr ⟨rfl, rfl⟩) loose_none (List.cons_ne_nil _ _))⟩
  | .object ((key, v) :: members) => by
    intro hlegible _ h
    obtain ⟨head', hloose, hopen⟩ := cuts_opening (.inr ⟨rfl, rfl⟩) h
    obtain ⟨j, hj, hmembers⟩ := cuts_member (cuts_value v) (cuts_members members) hlegible
      (List.cons_ne_nil _ _)
    refine ⟨j, head', hj, hloose, ?_⟩
    simp only [Value.compactChars, tokensOf, List.cons_append, List.append_assoc, List.reverse_cons,
      List.reverse_append]
    exact hopen.trans hmembers

theorem cuts_items : ∀ items : List Value, ItemsAreCut items
  | [] => fun _ houter h => ⟨_, Nat.succ_pos _, cuts_closing (.inl ⟨rfl, rfl⟩) h houter⟩
  | item :: items => by
    intro hlegible houter h
    obtain ⟨j, hj, hitems⟩ := cuts_item (cuts_value item) (cuts_items items) hlegible
      (Nat.succ_pos _) houter
    refine ⟨j, hj, ?_⟩
    simp only [Value.compactItems, itemTokens, List.cons_append, List.append_assoc, List.reverse_cons,
      List.reverse_append]
    exact (cuts_comma h).trans hitems

theorem cuts_members : ∀ members : List (String × Value), MembersAreCut members
  | [] => fun _ houter h => ⟨_, Nat.succ_pos _, cuts_closing (.inr ⟨rfl, rfl⟩) h houter⟩
  | (key, v) :: members => by
    intro hlegible houter h
    obtain ⟨j, hj, hmembers⟩ := cuts_member (cuts_value v) (cuts_members members) hlegible houter
    refine ⟨j, hj, ?_⟩
    simp only [Value.compactMembers, memberTokens, List.cons_append, List.append_assoc,
      List.reverse_cons, List.reverse_append]
    exact (cuts_comma h).trans hmembers

end

/-! ## Allowed characters -/

theorem all_isAllowed_writtenChar {c : Char} (h : c.toNat < 0x7F) :
    (writtenChar c).all isAllowed = true := by
  have hall : ∀ n < 0x7F, (writtenChar (Char.ofNat n)).all isAllowed = true := by decide +kernel
  have hc := hall c.toNat h
  rwa [Char.ofNat_toNat] at hc

theorem all_isAllowed_writtenText {s : String} (h : ∀ c ∈ s.toList, c.toNat < 0x7F) :
    (writtenText s).all isAllowed = true := by
  have hchars : (s.toList.flatMap writtenChar).all isAllowed = true := by
    rw [List.all_flatMap, List.all_eq_true]
    exact fun c hc => all_isAllowed_writtenChar (h c hc)
  simp [writtenText, List.all_append, hchars, isAllowed]

theorem all_isAllowed_toDigits (n : Nat) : (Nat.toDigits 10 n).all isAllowed = true := by
  rw [List.all_eq_true]
  intro c hc
  have hdigit := Nat.isDigit_of_mem_toDigits (b := 10) (by decide) (by decide) hc
  simp only [Char.isDigit, Bool.and_eq_true, decide_eq_true_eq, UInt32.le_iff_toNat_le] at hdigit
  obtain ⟨hlow, hhigh⟩ := hdigit
  have hlow' : 0x20 ≤ c.toNat := Nat.le_trans (by decide) hlow
  have hhigh' : c.toNat ≤ 0x7E := Nat.le_trans hhigh (by decide)
  simp [isAllowed, hlow', hhigh']

mutual

theorem all_isAllowed_compactChars : ∀ v : Value, Legible v.strings v.keys →
    v.compactChars.all isAllowed = true
  | .null, _ => by decide
  | .boolean true, _ => by decide
  | .boolean false, _ => by decide
  | .number n, _ => all_isAllowed_toDigits n
  | .text s, h => all_isAllowed_writtenText (h.text s (List.mem_singleton_self s))
  | .array [], _ => by decide
  | .array (item :: items), h => by
    have hitem := all_isAllowed_compactChars item
      (h.subset (List.subset_append_left _ _) (List.subset_append_left _ _))
    have hitems := all_isAllowed_compactItems items
      (h.subset (List.subset_append_right _ _) (List.subset_append_right _ _))
    simp [Value.compactChars, List.all_append, hitem, hitems, isAllowed]
  | .object [], _ => by decide
  | .object ((key, v) :: members), h => by
    have hkey := all_isAllowed_writtenText (h.key key List.mem_cons_self)
    have hvalue := all_isAllowed_compactChars v
      (h.subset (List.subset_append_left _ _) (fun k hk => by simp [Value.keys, Value.memberKeys, hk]))
    have hmembers := all_isAllowed_compactMembers members
      (h.subset (List.subset_append_right _ _) (fun k hk => by simp [Value.keys, Value.memberKeys, hk]))
    simp [Value.compactChars, List.all_append, hkey, hvalue, hmembers, isAllowed]

theorem all_isAllowed_compactItems : ∀ items : List Value,
    Legible (Value.itemStrings items) (Value.itemKeys items) →
      (Value.compactItems items).all isAllowed = true
  | [], _ => by decide
  | item :: items, h => by
    have hitem := all_isAllowed_compactChars item
      (h.subset (List.subset_append_left _ _) (List.subset_append_left _ _))
    have hitems := all_isAllowed_compactItems items
      (h.subset (List.subset_append_right _ _) (List.subset_append_right _ _))
    simp [Value.compactItems, List.all_append, hitem, hitems, isAllowed]

theorem all_isAllowed_compactMembers : ∀ members : List (String × Value),
    Legible (Value.memberStrings members) (Value.memberKeys members) →
      (Value.compactMembers members).all isAllowed = true
  | [], _ => by decide
  | (key, v) :: members, h => by
    have hkey := all_isAllowed_writtenText (h.key key List.mem_cons_self)
    have hvalue := all_isAllowed_compactChars v
      (h.subset (List.subset_append_left _ _) (fun k hk => by simp [Value.memberKeys, hk]))
    have hmembers := all_isAllowed_compactMembers members
      (h.subset (List.subset_append_right _ _) (fun k hk => by simp [Value.memberKeys, hk]))
    simp [Value.compactMembers, List.all_append, hkey, hvalue, hmembers, isAllowed]

end

/-! ## The whole text -/

theorem finish_end {n : Nat} (hn : 0 < n) (h : Loose head) :
    (inLine [] i [head] false reversed).finish n = some (reversed.reverse ++ [.textEnd]) := by
  obtain ⟨n, rfl⟩ : ∃ k, n = k + 1 := ⟨n - 1, by omega⟩
  have hspace : (inLine [] i [head] false reversed).skipSpace 1 = inLine [] i [head] false reversed := by
    simp [skipSpace, inLine, Cursor.inLine, Cursor.skipWhile, Cursor.lineEnd?, Cursor.forward,
      Mark.forward]
  have hnext : (inLine [] i [head] false reversed).next =
      some (inLine [] i [none] false (.textEnd :: reversed)) := by
    simp only [next, cursor_inLine, Cursor.rest_inLine, outermost, unindent_inLine,
      dropCandidate_inLine h]
    rfl
  simp only [finish, cursor_inLine, Cursor.rest_inLine, List.length_nil, hspace, hnext]
  simp [inLine]

end Cutting

/-- The compact text of a list or an object is cut into its tokens. -/
theorem tokens_compactChars {v : Value} (h : Cutting.Legible v.strings v.keys) (hdepth : v.depth ≠ 0) :
    tokens v.compactChars = some (Cutting.tokensOf v ++ [.textEnd]) := by
  obtain ⟨j, head, -, hloose, hcuts⟩ : ∃ j head, 0 < j ∧ Cutting.Loose head ∧
      Cutting.Cuts (Cutting.inLine (v.compactChars ++ []) 0 [none] true [])
        (Cutting.inLine [] j [head] false ((Cutting.tokensOf v).reverse ++ [])) :=
    Cutting.cuts_value v h (fun hzero => absurd hzero hdepth) Cutting.loose_none
  rw [List.append_nil, List.append_nil] at hcuts
  obtain ⟨n, hn, hfinish⟩ := hcuts (v.compactChars.length + 1) (Nat.lt_succ_self _)
  rw [tokens, if_pos (Cutting.all_isAllowed_compactChars v h)]
  show (Cutting.inLine v.compactChars 0 [none] true []).finish (v.compactChars.length + 1) = _
  rw [hfinish, Cutting.finish_end (Nat.zero_lt_of_lt hn) hloose, List.reverse_reverse]

end StubListing.Yaml
