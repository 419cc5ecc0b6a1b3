import StubListing.Json.Value
import StubListing.Proofs.Json.Scanning
import StubListing.Yaml.Flowing
/-!
# Texts in the first line of a YAML document

A text as it is written in JSON, read where YAML allows texts in double quotes, and words that stand in
brackets without quotes. Nothing but ASCII characters is looked at here, and no DEL, which YAML allows
nowhere.
-/
namespace StubListing.Yaml
open StubListing.Json (writtenChar)
open StubListing.Text

/-- A place in the first line. -/
def Cursor.inLine (rest : List Char) (i : Nat) : Cursor := ⟨rest, ⟨i, 0, i⟩⟩

namespace Cursor

variable {c : Char} {rest : List Char} {i : Nat}

@[simp] theorem rest_inLine : (inLine rest i).rest = rest := rfl

theorem forward_append (front : List Char) :
    (inLine (front ++ rest) i).forward front.length = inLine rest (i + front.length) := by
  simp [forward, inLine, Mark.forward]

theorem forward_cons : (inLine (c :: rest) i).forward 1 = inLine rest (i + 1) := rfl

theorem atAnyDocumentMark_inLine (hi : 0 < i) : (inLine rest i).atAnyDocumentMark = false := by
  have hcolumn : ¬ i = 0 := by omega
  simp [atAnyDocumentMark, atDocumentMark, inLine, hcolumn]

theorem lineEnd?_inLine (h : isBreak c = false) (rest : List Char) (i : Nat) :
    (inLine (c :: rest) i).lineEnd? = none := by
  simp only [isBreak, Bool.or_eq_false_iff, decide_eq_false_iff_not] at h
  obtain ⟨⟨⟨⟨hline, hreturn⟩, hnext⟩, hseparator⟩, hparagraph⟩ := h
  unfold lineEnd? inLine
  split
  · rename_i heq
    exact absurd (List.cons.inj heq).1 hreturn
  · rename_i heq
    obtain ⟨rfl, rfl⟩ := List.cons.inj heq
    simp [hline, hreturn, hnext, hseparator, hparagraph]
  · rfl

end Cursor

/-! ## Texts in quotes -/

/-- The white space of a line. -/
def Gap.ofBlanks (blanks : List Char) : Gap := ⟨blanks, Option.none, [], false⟩

/-- How a character is written between double quotes: as it is, by a letter behind a backslash, or by the
four digits of its number. -/
inductive SpellsChar : Char → List Char → Prop
  | blank : SpellsChar ' ' [' ']
  | plain {c : Char} : 0x20 < c.toNat → c.toNat < 0x7F → c ≠ '"' → c ≠ '\\' → SpellsChar c [c]
  | letter {letter c : Char} : escaped? letter = some c → escapeWidth? letter = none →
      isBreak letter = false → SpellsChar c ['\\', letter]
  | unit {digits : List Char} {c : Char} : digits.length = 4 →
      (numeralValue? 16 hexValue? digits).bind scalar? = some c →
      SpellsChar c ('\\' :: 'u' :: digits)

theorem spellsChar_writtenChar {c : Char} (h : c.toNat < 0x7F) : SpellsChar c (writtenChar c) := by
  by_cases hquote : c = '"'
  · subst hquote
    exact .letter rfl rfl rfl
  by_cases hslash : c = '\\'
  · subst hslash
    exact .letter rfl rfl rfl
  by_cases hback : c = '\x08'
  · subst hback
    exact .letter rfl rfl rfl
  by_cases hform : c = '\x0c'
  · subst hform
    exact .letter rfl rfl rfl
  by_cases hline : c = '\n'
  · subst hline
    exact .letter rfl rfl rfl
  by_cases hreturn : c = '\r'
  · subst hreturn
    exact .letter rfl rfl rfl
  by_cases htab : c = '\t'
  · subst htab
    exact .letter rfl rfl rfl
  by_cases hblank : c = ' '
  · subst hblank
    exact .blank
  unfold writtenChar
  rw [if_neg hquote, if_neg hslash, if_neg hback, if_neg hform, if_neg hline, if_neg hreturn,
    if_neg htab]
  split
  · rename_i hsmall
    refine .unit rfl ?_
    rw [Json.numeralValue?_unit c.toNat hsmall, Option.bind_some, scalar?, if_pos (Or.inl (by omega)),
      Char.ofNat_toNat]
  · rename_i hlarge
    have hne : c.toNat ≠ 0x20 := fun heq => hblank (Char.toNat_inj.mp heq)
    exact .plain (by omega) h hquote hslash

/-- No visible character is white space. -/
theorem isSpace_of_visible {c : Char} (hlarge : 0x20 < c.toNat) (hsmall : c.toNat < 0x7F) :
    isSpace c = false := by
  have hne : ∀ x : Char, x.toNat ≤ 0x20 ∨ 0x7F ≤ x.toNat → c ≠ x := by
    rintro x hx rfl
    omega
  simp [isSpace, isGap, isBreak, hne]

theorem SpellsChar.length_pos {c : Char} {s : List Char} (h : SpellsChar c s) : 0 < s.length := by
  cases h <;> simp

variable {c : Char} {s rest blanks reversed : List Char} {n i : Nat}

/-- Behind a backslash a character is told. -/
theorem quoted_backslash {letter : Char} {width : Nat} (hi : 0 < i) (hbreak : isBreak letter = false)
    (hescape : escape ('\\' :: letter :: rest) = some (c, width)) :
    quoted '"' (n + 1) (.inLine ('\\' :: letter :: rest) i) reversed (.ofBlanks blanks) =
      quoted '"' n ((Cursor.inLine ('\\' :: letter :: rest) i).forward width)
        (c :: (blanks ++ reversed)) .none := by
  have hletter := Cursor.lineEnd?_inLine hbreak rest (i + 1)
  rw [quoted, Cursor.atAnyDocumentMark_inLine hi]
  simp only [Cursor.lineEnd?_inLine (c := '\\') rfl, Cursor.forward_cons, hletter]
  simp [Cursor.inLine, isGap, hescape, Gap.onto, Gap.ofBlanks]

/-- One written character is read. -/
theorem quoted_spellsChar (h : SpellsChar c s) (hi : 0 < i) :
    ∃ sofar blanks', blanks' ++ sofar = c :: (blanks ++ reversed) ∧
      quoted '"' (n + 1) (.inLine (s ++ rest) i) reversed (.ofBlanks blanks) =
        quoted '"' n (.inLine rest (i + s.length)) sofar (.ofBlanks blanks') := by
  cases h with
  | blank =>
    -- a blank is only put by, and joins the text with the next character that is none
    refine ⟨reversed, ' ' :: blanks, rfl, ?_⟩
    rw [quoted, Cursor.atAnyDocumentMark_inLine hi]
    rfl
  | plain hlarge hsmall hquote hslash =>
    refine ⟨c :: (blanks ++ reversed), [], rfl, ?_⟩
    have hspace := isSpace_of_visible hlarge hsmall
    simp only [isSpace, Bool.or_eq_false_iff] at hspace
    rw [quoted, Cursor.atAnyDocumentMark_inLine hi]
    simp only [List.cons_append, List.nil_append, Cursor.lineEnd?_inLine hspace.2]
    simp [Cursor.inLine, hspace.1, hquote, hslash, Gap.onto, Gap.ofBlanks, Gap.none, Cursor.forward,
      Mark.forward]
  | @letter letter _ hletter hwidth hbreak =>
    refine ⟨c :: (blanks ++ reversed), [], rfl, ?_⟩
    have hescape : escape ('\\' :: letter :: rest) = some (c, 2) := by
      simp [escape, hwidth, hletter]
    exact quoted_backslash hi hbreak hescape
  | @unit digits _ hlength hvalue =>
    refine ⟨c :: (blanks ++ reversed), [], rfl, ?_⟩
    have htake : (digits ++ rest).take 4 = digits := by rw [← hlength, List.take_left]
    have hescape : escape ('\\' :: 'u' :: (digits ++ rest)) = some (c, 6) := by
      simp [escape, escapeWidth?, htake, hlength, hvalue]
    have hwidth : ('\\' :: 'u' :: digits).length = 6 := by simp [hlength]
    rw [← Cursor.forward_append, hwidth]
    exact quoted_backslash hi rfl hescape

/-- A written text is read up to its closing quote. -/
theorem quoted_written {s : List Char} (h : ∀ c ∈ s, c.toNat < 0x7F) {n i : Nat} (hi : 0 < i)
    (hn : (s.flatMap writtenChar).length < n) (rest : List Char) {blanks reversed sofar : List Char}
    (hsofar : blanks ++ reversed = sofar) :
    quoted '"' n (.inLine (s.flatMap writtenChar ++ '"' :: rest) i) reversed (.ofBlanks blanks) =
      some (ofReversed (s.reverse ++ sofar),
        .inLine rest (i + (s.flatMap writtenChar).length + 1)) := by
  induction s generalizing n i blanks reversed sofar with
  | nil =>
    obtain ⟨n, rfl⟩ : ∃ k, n = k + 1 := ⟨n - 1, by simp at hn; omega⟩
    subst hsofar
    rw [quoted, Cursor.atAnyDocumentMark_inLine hi]
    rfl
  | cons c s ih =>
    rw [List.forall_mem_cons] at h
    have hc := spellsChar_writtenChar h.1
    have hpos := hc.length_pos
    rw [List.flatMap_cons, List.length_append] at hn ⊢
    obtain ⟨n, rfl⟩ : ∃ k, n = k + 1 := ⟨n - 1, by omega⟩
    obtain ⟨next, blanks', hnext, hread⟩ := quoted_spellsChar (n := n) (i := i) hc hi
    rw [List.append_assoc, hread, ih h.2 (by omega) (by omega) (hnext.trans (by rw [hsofar]))]
    simp [List.append_assoc, Nat.add_assoc]

/-! ## Words -/

theorem ne_of_isAlphanum (h : c.isAlphanum = true) {x : Char} (hx : x.isAlphanum = false) : c ≠ x := by
  rintro rfl
  rw [h] at hx
  cases hx

theorem isSpace_of_isAlphanum (h : c.isAlphanum = true) : isSpace c = false := by
  have hne : ∀ x : Char, x.isAlphanum = false → c ≠ x := fun x => ne_of_isAlphanum h
  simp [isSpace, isGap, isBreak, hne]

/-- A mark that parts the elements of lists and objects comes next. -/
def AtFlowMark (rest : List Char) : Prop := ∃ c t, rest = c :: t ∧ isFlowMark c = true

theorem isSpace_of_isFlowMark (h : isFlowMark c = true) : isSpace c = false := by
  simp only [isFlowMark, Bool.or_eq_true, decide_eq_true_eq] at h
  rcases h with (((rfl | rfl) | rfl) | rfl) | rfl <;> decide

theorem plainEnd_word (hi : 0 < i) (h : c.isAlphanum = true) :
    plainEnd true 0 (.inLine (c :: rest) i) .none c rest = .further := by
  have hne : ∀ x : Char, x.isAlphanum = false → c ≠ x := fun x => ne_of_isAlphanum h
  simp [plainEnd, Gap.none, Gap.isNone, Cursor.atAnyDocumentMark_inLine hi, isFlowMark, hne]

theorem plainEnd_flowMark (hi : 0 < i) (h : isFlowMark c = true) :
    plainEnd true 0 (.inLine (c :: rest) i) .none c rest = .here := by
  have hcolon : c ≠ ':' := by
    rintro rfl
    exact absurd h (by decide)
  simp [plainEnd, Gap.none, Gap.isNone, Cursor.atAnyDocumentMark_inLine hi, hcolon, h]

/-- A word in brackets is read up to the mark behind it. -/
theorem plain_word {word : List Char} (hword : ∀ c ∈ word, c.isAlphanum = true)
    (hrest : AtFlowMark rest) {n i : Nat} (hi : 0 < i) (hn : word.length < n) (reversed : List Char) :
    plain true 0 n (.inLine (word ++ rest) i) reversed .none =
      some (ofReversed (word.reverse ++ reversed), .inLine rest (i + word.length), false) := by
  induction word generalizing n i reversed with
  | nil =>
    obtain ⟨n, rfl⟩ : ∃ k, n = k + 1 := ⟨n - 1, by simp at hn; omega⟩
    obtain ⟨c, t, rfl, hc⟩ := hrest
    have hspace := isSpace_of_isFlowMark hc
    simp only [isSpace, Bool.or_eq_false_iff] at hspace
    simp only [List.nil_append, plain, Cursor.rest_inLine, hspace.1, Cursor.lineEnd?_inLine hspace.2,
      plainEnd_flowMark hi hc]
    rfl
  | cons c word ih =>
    obtain ⟨n, rfl⟩ : ∃ k, n = k + 1 := ⟨n - 1, by simp at hn; omega⟩
    rw [List.forall_mem_cons] at hword
    have hspace := isSpace_of_isAlphanum hword.1
    simp only [isSpace, Bool.or_eq_false_iff] at hspace
    have hread := ih hword.2 (Nat.succ_pos i) (Nat.lt_of_succ_lt_succ hn) (c :: reversed)
    simp only [List.cons_append, plain, Cursor.rest_inLine, hspace.1, Cursor.lineEnd?_inLine hspace.2,
      plainEnd_word hi hword.1, Cursor.forward_cons, Gap.onto_none, hread]
    simp [Nat.add_assoc, Nat.add_comm 1]

end StubListing.Yaml
