import Mathlib.Data.List.DropRight
import StubListing.Json.Source
import StubListing.Proofs.Json.Scanning
/-!
# The grammar of texts

What a text has to look like to hold one value, told without the reader: words, numbers, texts, arrays
and objects, with white space between their parts. Every such text is read to its end, as the tree that
the grammar gives it, and whatever it holds may be passed over.
-/
namespace StubListing.Json
open StubListing.Text

/-- White space and nothing else. -/
def Gap (s : List Char) : Prop := ∀ c ∈ s, isSpace c = true

mutual

/-- The text denotes the tree, with no white space around it. -/
inductive Denotes : Node → List Char → Prop
  | null : Denotes .null ['n', 'u', 'l', 'l']
  | yes : Denotes (.boolean true) ['t', 'r', 'u', 'e']
  | no : Denotes (.boolean false) ['f', 'a', 'l', 's', 'e']
  | number {n : Numeral} {s : List Char} : SpellsNumeral n s → Denotes (.number n) s
  | text {text : Option String} {s : List Char} : SpellsText text s → Denotes (.text text) s
  | emptyArray {gap : List Char} : Gap gap → Denotes (.array [] none) ('[' :: (gap ++ [']']))
  | array {items : List Node} {s : List Char} :
      DenotesItems items s → Denotes (.array items none) ('[' :: s)
  | emptyObject {gap : List Char} :
      Gap gap → Denotes (.object [] none) ('\x7b' :: (gap ++ ['\x7d']))
  | object {members : List (Node × Node)} {s : List Char} :
      DenotesMembers members s → Denotes (.object members none) ('\x7b' :: s)

/-- The text denotes the elements of an array, at least one, and its end. -/
inductive DenotesItems : List Node → List Char → Prop
  | last {item : Node} {before s after : List Char} : Gap before → Denotes item s → Gap after →
      DenotesItems [item] (before ++ (s ++ (after ++ [']'])))
  | more {item : Node} {items : List Node} {before s after t : List Char} : Gap before →
      Denotes item s → Gap after → DenotesItems items t →
      DenotesItems (item :: items) (before ++ (s ++ (after ++ ',' :: t)))

/-- The text denotes the members of an object, at least one, and its end. -/
inductive DenotesMembers : List (Node × Node) → List Char → Prop
  | last {key : Option String} {value : Node} {front k behind before s after : List Char} :
      Gap front → SpellsText key k → Gap behind → Gap before → Denotes value s → Gap after →
      DenotesMembers [(.text key, value)]
        (front ++ (k ++ (behind ++ ':' :: (before ++ (s ++ (after ++ ['\x7d']))))))
  | more {key : Option String} {value : Node} {members : List (Node × Node)}
      {front k behind before s after t : List Char} : Gap front → SpellsText key k → Gap behind →
      Gap before → Denotes value s → Gap after → DenotesMembers members t →
      DenotesMembers ((.text key, value) :: members)
        (front ++ (k ++ (behind ++ ':' :: (before ++ (s ++ (after ++ ',' :: t))))))

end

/-! ## White space -/

theorem gap_nil : Gap [] := by
  intro c h
  cases h

theorem skipSpace_gap {gap : List Char} (h : Gap gap) (s : List Char) :
    skipSpace (gap ++ s) = skipSpace s := List.dropWhile_append_of_pos h

theorem skipSpace_cons {c : Char} (h : isSpace c = false) (s : List Char) :
    skipSpace (c :: s) = c :: s := by
  simp [skipSpace, h]

theorem ends_cons {c : Char} {s : List Char}
    (h : isDigit c = false ∧ c ≠ '.' ∧ c ≠ 'e' ∧ c ≠ 'E') : Ends (c :: s) := by
  rintro _ ⟨⟩
  exact h

/-- White space ends a number, and so does a mark behind it. -/
theorem ends_gap {gap s : List Char} (hgap : Gap gap) (h : Ends s) : Ends (gap ++ s) := by
  cases gap with
  | nil => exact h
  | cons c gap =>
    have hc := hgap c (by simp)
    simp only [isSpace, Bool.or_eq_true, decide_eq_true_eq] at hc
    refine ends_cons ?_
    rcases hc with ((rfl | rfl) | rfl) | rfl <;> decide

/-! ## Reading -/

theorem word_front (expected : List Char) (node : Node) (rest : List Char) :
    word expected node (expected ++ rest) = (node, .ok rest) := by
  unfold word
  rw [if_pos (by simp [List.isPrefixOf_iff_prefix]), List.drop_left]

theorem skipSpace_skipSpace (s : List Char) : skipSpace (skipSpace s) = skipSpace s := by
  unfold skipSpace
  exact List.dropWhile_idempotent _ _

theorem value_skipSpace (fuel : Nat) (s : List Char) :
    value fuel (skipSpace s) = value fuel s := by
  cases fuel with
  | zero => rfl
  | succ fuel => rw [value, value, skipSpace_skipSpace]

theorem items_skipSpace (fuel : Nat) (s : List Char) :
    items fuel (skipSpace s) = items fuel s := by
  cases fuel with
  | zero => rfl
  | succ fuel => rw [items, items, value_skipSpace]

theorem members_skipSpace (fuel : Nat) (s : List Char) :
    members fuel (skipSpace s) = members fuel s := by
  cases fuel with
  | zero => rfl
  | succ fuel => rw [members, members, skipSpace_skipSpace]

theorem isSpace_of_isDigit {c : Char} (h : isDigit c = true) : isSpace c = false := by
  cases hs : isSpace c with
  | false => rfl
  | true =>
    simp only [isSpace, Bool.or_eq_true, decide_eq_true_eq] at hs
    rcases hs with ((rfl | rfl) | rfl) | rfl <;> exact absurd h (by decide)

theorem SpellsText.first {text : Option String} {s : List Char} (h : SpellsText text s) :
    ∃ t, s = '"' :: t := by
  obtain ⟨-⟩ := h
  exact ⟨_, rfl⟩

/-- A text begins with no white space, and with no closing bracket. -/
theorem Denotes.first {node : Node} {s : List Char} (h : Denotes node s) :
    ∃ c t, s = c :: t ∧ isSpace c = false ∧ c ≠ ']' := by
  cases h with
  | null => exact ⟨_, _, rfl, rfl, by decide⟩
  | yes => exact ⟨_, _, rfl, rfl, by decide⟩
  | no => exact ⟨_, _, rfl, rfl, by decide⟩
  | number hnumber =>
    obtain ⟨c, t, rfl, rfl | hc⟩ := hnumber.first
    · exact ⟨_, _, rfl, rfl, by decide⟩
    · refine ⟨c, t, rfl, isSpace_of_isDigit hc, ?_⟩
      rintro rfl
      exact absurd hc (by decide)
  | text htext =>
    obtain ⟨t, rfl⟩ := htext.first
    exact ⟨_, _, rfl, rfl, by decide⟩
  | emptyArray _ => exact ⟨_, _, rfl, rfl, by decide⟩
  | array _ => exact ⟨_, _, rfl, rfl, by decide⟩
  | emptyObject _ => exact ⟨_, _, rfl, rfl, by decide⟩
  | object _ => exact ⟨_, _, rfl, rfl, by decide⟩

theorem DenotesItems.first {items : List Node} {s : List Char} (h : DenotesItems items s)
    (rest : List Char) : ∃ c t, skipSpace (s ++ rest) = c :: t ∧ c ≠ ']' := by
  cases h with
  | last hbefore hitem _ =>
    obtain ⟨c, t, rfl, hspace, hc⟩ := hitem.first
    rw [List.append_assoc, skipSpace_gap hbefore]
    exact ⟨c, _, skipSpace_cons hspace _, hc⟩
  | more hbefore hitem _ _ =>
    obtain ⟨c, t, rfl, hspace, hc⟩ := hitem.first
    rw [List.append_assoc, skipSpace_gap hbefore]
    exact ⟨c, _, skipSpace_cons hspace _, hc⟩

theorem DenotesMembers.first {members : List (Node × Node)} {s : List Char}
    (h : DenotesMembers members s) (rest : List Char) :
    ∃ t, skipSpace (s ++ rest) = '"' :: t := by
  cases h with
  | last hfront hkey _ _ _ _ =>
    obtain ⟨t, rfl⟩ := hkey.first
    rw [List.append_assoc, skipSpace_gap hfront]
    exact ⟨_, skipSpace_cons rfl _⟩
  | more hfront hkey _ _ _ _ _ =>
    obtain ⟨t, rfl⟩ := hkey.first
    rw [List.append_assoc, skipSpace_gap hfront]
    exact ⟨_, skipSpace_cons rfl _⟩

/-! ## Reading -/

/-- A number at the front is read, behind white space. -/
theorem value_number {fuel : Nat} {c : Char} {s gap : List Char} (hgap : Gap gap)
    (hc : c = '-' ∨ isDigit c = true) {n : Numeral} {rest : List Char}
    (h : numeral (c :: s) = .ok (n, rest)) :
    value (fuel + 1) (gap ++ c :: s) = (.number n, .ok rest) := by
  have hne : ∀ x : Char, x ≠ '-' → isDigit x = false → c ≠ x := by
    rintro x hminus hdigit rfl
    rcases hc with hc | hc
    · exact hminus hc
    · rw [hdigit] at hc
      cases hc
  have hspace : isSpace c = false := by
    rcases hc with rfl | hc
    · rfl
    · exact isSpace_of_isDigit hc
  have hfirst : (c = '-' || isDigit c) = true := by simpa using hc
  rw [value, skipSpace_gap hgap, skipSpace_cons hspace]
  split
  · rename_i heq
    cases heq
  · rename_i heq
    exact absurd (List.cons.inj heq).1 (hne _ (by decide) (by decide))
  · rename_i heq
    exact absurd (List.cons.inj heq).1 (hne _ (by decide) (by decide))
  · rename_i heq
    exact absurd (List.cons.inj heq).1 (hne _ (by decide) (by decide))
  · rename_i heq
    obtain ⟨rfl, rfl⟩ := List.cons.inj heq
    simp only [if_neg (hne 'n' (by decide) (by decide)), if_neg (hne 't' (by decide) (by decide)),
      if_neg (hne 'f' (by decide) (by decide)), hfirst, if_true, h]

/-- An array with something in it is read element by element. -/
theorem value_array {fuel : Nat} {gap s : List Char} (hgap : Gap gap) {c : Char} {t : List Char}
    (hfirst : skipSpace s = c :: t) (hc : c ≠ ']') {found : List Node} {rest : List Char}
    (h : items fuel s = (found, .ok rest)) :
    value (fuel + 1) (gap ++ '[' :: s) = (.array found none, .ok rest) := by
  rw [← items_skipSpace, hfirst] at h
  rw [value, skipSpace_gap hgap, skipSpace_cons rfl]
  simp only [hfirst]
  split
  · rename_i heq
    exact absurd (List.cons.inj heq).1 hc
  · rw [h]
    rfl

/-- An object with something in it is read member by member. -/
theorem value_object {fuel : Nat} {gap s : List Char} (hgap : Gap gap) {t : List Char}
    (hfirst : skipSpace s = '"' :: t) {found : List (Node × Node)} {rest : List Char}
    (h : members fuel s = (found, .ok rest)) :
    value (fuel + 1) (gap ++ '\x7b' :: s) = (.object found none, .ok rest) := by
  rw [← members_skipSpace, hfirst] at h
  rw [value, skipSpace_gap hgap, skipSpace_cons rfl]
  simp only [hfirst]
  split
  · rename_i heq
    exact absurd (List.cons.inj heq).1 (by decide)
  · rw [h]
    rfl

mutual

/-- What denotes a tree is read as that tree, and what follows is left. -/
theorem value_of_denotes : ∀ {node : Node} {s : List Char}, Denotes node s →
    ∀ (fuel : Nat) (rest : List Char) {gap : List Char}, Gap gap → Ends rest →
      2 * s.length + 1 ≤ fuel →
      value fuel (gap ++ (s ++ rest)) = (node, .ok rest) := by
  intro node s h fuel rest gap hgap hrest hfuel
  obtain ⟨fuel, rfl⟩ : ∃ n, fuel = n + 1 := ⟨fuel - 1, by omega⟩
  match h with
  | .null =>
    rw [value, skipSpace_gap hgap]
    exact word_front ['n', 'u', 'l', 'l'] .null rest
  | .yes =>
    rw [value, skipSpace_gap hgap]
    exact word_front ['t', 'r', 'u', 'e'] (.boolean true) rest
  | .no =>
    rw [value, skipSpace_gap hgap]
    exact word_front ['f', 'a', 'l', 's', 'e'] (.boolean false) rest
  | .number hnumber =>
    obtain ⟨c, t, rfl, hc⟩ := hnumber.first
    exact value_number hgap hc (numeral_of_spells hnumber hrest)
  | .text htext =>
    obtain ⟨body, hbody, hquote⟩ := quote_of_spellsText htext rest
    rw [value, skipSpace_gap hgap, hbody, skipSpace_cons rfl]
    simp only [hquote]
  | .emptyArray hinner =>
    rename_i inner
    rw [value, skipSpace_gap hgap, List.cons_append, skipSpace_cons rfl]
    simp only [List.append_assoc, List.singleton_append, skipSpace_gap hinner]
    rfl
  | .emptyObject hinner =>
    rename_i inner
    rw [value, skipSpace_gap hgap, List.cons_append, skipSpace_cons rfl]
    simp only [List.append_assoc, List.singleton_append, skipSpace_gap hinner]
    rfl
  | .array hitems =>
    rename_i items s
    obtain ⟨c, t, hfirst, hc⟩ := hitems.first rest
    simp only [List.length_cons] at hfuel
    exact value_array hgap hfirst hc (items_of_denotes hitems fuel rest (by omega))
  | .object hmembers =>
    rename_i members s
    obtain ⟨t, hfirst⟩ := hmembers.first rest
    simp only [List.length_cons] at hfuel
    exact value_object hgap hfirst (members_of_denotes hmembers fuel rest (by omega))

theorem items_of_denotes : ∀ {nodes : List Node} {s : List Char}, DenotesItems nodes s →
    ∀ (fuel : Nat) (rest : List Char), 2 * s.length + 2 ≤ fuel →
      items fuel (s ++ rest) = (nodes, .ok rest) := by
  intro nodes s h fuel rest hfuel
  obtain ⟨fuel, rfl⟩ : ∃ n, fuel = n + 1 := ⟨fuel - 1, by omega⟩
  match h with
  | .last hbefore hitem hafter =>
    rename_i item before s after
    simp only [List.length_append] at hfuel
    have hvalue := value_of_denotes hitem fuel (after ++ ']' :: rest) hbefore
      (ends_gap hafter (ends_cons (by decide))) (by omega)
    simp only [List.append_assoc, List.singleton_append, items, hvalue, skipSpace_gap hafter,
      skipSpace_cons (c := ']') rfl]
  | .more hbefore hitem hafter hitems =>
    rename_i item nodes before s after t
    simp only [List.length_append, List.length_cons] at hfuel
    have hvalue := value_of_denotes hitem fuel (after ++ ',' :: (t ++ rest)) hbefore
      (ends_gap hafter (ends_cons (by decide))) (by omega)
    have hmore := items_of_denotes hitems fuel rest (by omega)
    simp only [List.append_assoc, List.cons_append, items, hvalue, skipSpace_gap hafter,
      skipSpace_cons (c := ',') rfl, hmore]

theorem members_of_denotes : ∀ {nodes : List (Node × Node)} {s : List Char},
    DenotesMembers nodes s → ∀ (fuel : Nat) (rest : List Char), 2 * s.length + 2 ≤ fuel →
      members fuel (s ++ rest) = (nodes, .ok rest) := by
  intro nodes s h fuel rest hfuel
  obtain ⟨fuel, rfl⟩ : ∃ n, fuel = n + 1 := ⟨fuel - 1, by omega⟩
  match h with
  | .last hfront hkey hbehind hbefore hvalue hafter =>
    rename_i key v front k behind before s after
    obtain ⟨body, hbody, hquote⟩ := quote_of_spellsText hkey
      (behind ++ ':' :: (before ++ (s ++ (after ++ '\x7d' :: rest))))
    simp only [List.length_append, List.length_cons] at hfuel
    have hread := value_of_denotes hvalue fuel (after ++ '\x7d' :: rest) hbefore
      (ends_gap hafter (ends_cons (by decide))) (by omega)
    simp only [List.append_assoc, List.cons_append, List.nil_append, members,
      skipSpace_gap hfront, hbody, skipSpace_cons (c := '"') rfl, hquote, skipSpace_gap hbehind,
      skipSpace_cons (c := ':') rfl, hread, skipSpace_gap hafter, skipSpace_cons (c := '\x7d') rfl]
  | .more hfront hkey hbehind hbefore hvalue hafter hmembers =>
    rename_i key v nodes front k behind before s after t
    obtain ⟨body, hbody, hquote⟩ := quote_of_spellsText hkey
      (behind ++ ':' :: (before ++ (s ++ (after ++ ',' :: (t ++ rest)))))
    simp only [List.length_append, List.length_cons] at hfuel
    have hread := value_of_denotes hvalue fuel (after ++ ',' :: (t ++ rest)) hbefore
      (ends_gap hafter (ends_cons (by decide))) (by omega)
    have hmore := members_of_denotes hmembers fuel rest (by omega)
    simp only [List.append_assoc, List.cons_append, members, skipSpace_gap hfront, hbody,
      skipSpace_cons (c := '"') rfl, hquote, skipSpace_gap hbehind, skipSpace_cons (c := ':') rfl,
      hread, skipSpace_gap hafter, skipSpace_cons (c := ',') rfl, hmore]

end

/-- A text gives the data that its tree gives. -/
theorem decode_of_denotes {α : Type}
    {readData : Decode.Source (Except Fault) Node → Nat → Node → Except Fault α} {text : String}
    {node : Node} {before s after : List Char} (htext : text.toList = before ++ (s ++ after))
    (hbefore : Gap before) (h : Denotes node s) (hafter : Gap after) {a : α}
    (ha : readData source nesting node = .ok a) : decode readData text = .ok a := by
  have hends : Ends after := by
    have := ends_gap hafter ends_nil
    rwa [List.append_nil] at this
  have hread : read text.toList = (node, .ok after) := by
    rw [read, htext]
    refine value_of_denotes h _ after hbefore hends ?_
    simp only [fuelFor, List.length_append]
    omega
  have hnothing : skipSpace after = [] := by
    have := skipSpace_gap hafter []
    rwa [List.append_nil] at this
  simp only [decode, hread, ha, hnothing]
  rfl

/-- Whatever a text denotes may be passed over, also where it could not be used. -/
theorem asSkipped_of_denotes {node : Node} {s : List Char} (h : Denotes node s) :
    asSkipped node = .ok () := by
  cases h <;> rfl

end StubListing.Json
