import StubListing.Json.Reader
import StubListing.Json.Value
import StubListing.Text.Hex
import StubListing.Proofs.Text.Digits
/-!
# Reading texts and numbers

What spells a text between quotes and what spells a number, told without the reader, and that the
reader takes each of them to its end. Every text can be spelt, whatever characters it has, and the
digits of a number spell it.
-/
namespace StubListing.Json
open StubListing.Text

/-! ## Texts -/

/-- A part of a text between quotes: a character, or a code unit that is told by its number. -/
inductive Piece where
  | char (c : Char)
  | unit (n : Nat)

def Quote.add (q : Quote) : Piece → Quote
  | .char c => q.push c
  | .unit n => q.pushUnit n

/-- The text that pieces make up, unless a surrogate lacks its other half. -/
def textOf (pieces : List Piece) : Option String := (pieces.foldl Quote.add .start).finish

/-- The spelling of pieces: characters as they are, behind a backslash the letter for one, or the four
hexadecimal digits of a code unit. -/
inductive SpellsPieces : List Piece → List Char → Prop
  | nil : SpellsPieces [] []
  | plain {c : Char} {pieces : List Piece} {s : List Char} : c ≠ '"' → c ≠ '\\' → 0x20 ≤ c.toNat →
      SpellsPieces pieces s → SpellsPieces (.char c :: pieces) (c :: s)
  | letter {letter c : Char} {pieces : List Piece} {s : List Char} : escaped? letter = some c →
      SpellsPieces pieces s → SpellsPieces (.char c :: pieces) ('\\' :: letter :: s)
  | unit {digits : List Char} {n : Nat} {pieces : List Piece} {s : List Char} : digits.length = 4 →
      numeralValue? 16 hexValue? digits = some n → SpellsPieces pieces s →
      SpellsPieces (.unit n :: pieces) ('\\' :: 'u' :: (digits ++ s))

/-- The spelling of a text with its quotes. -/
inductive SpellsText : Option String → List Char → Prop
  | quoted {pieces : List Piece} {s : List Char} : SpellsPieces pieces s →
      SpellsText (textOf pieces) ('"' :: (s ++ ['"']))

theorem length_le_utf8ByteSize (s : List Char) : s.length ≤ (String.ofList s).utf8ByteSize := by
  induction s with
  | nil => simp
  | cons c s ih =>
    have := c.utf8Size_pos
    rw [String.ofList_cons, String.utf8ByteSize_append, String.utf8ByteSize_singleton, List.length_cons]
    omega

theorem codeUnit_of_digits {digits : List Char} {n : Nat} (hlength : digits.length = 4)
    (hvalue : numeralValue? 16 hexValue? digits = some n) (rest : List Char) :
    codeUnit (digits ++ rest) = .ok (n, rest) := by
  have htake : (digits ++ rest).take 4 = digits := by rw [← hlength, List.take_left]
  have hdrop : (digits ++ rest).drop 4 = rest := by rw [← hlength, List.drop_left]
  have hsize : ¬ (String.ofList digits).utf8ByteSize < 4 := by
    have := length_le_utf8ByteSize digits
    omega
  simp only [codeUnit, htake, hdrop, if_neg hsize, hvalue, if_pos hlength]

/-- Pieces are read one by one, up to the closing quote. -/
theorem quote_of_pieces {pieces : List Piece} {s : List Char} (h : SpellsPieces pieces s)
    {fuel : Nat} (hfuel : s.length < fuel) (rest : List Char) (q : Quote) :
    quote fuel (s ++ '"' :: rest) q = .ok ((pieces.foldl Quote.add q).finish, rest) := by
  induction h generalizing fuel q with
  | nil =>
    obtain ⟨fuel, rfl⟩ : ∃ k, fuel = k + 1 := ⟨fuel - 1, by omega⟩
    rfl
  | plain hquote hslash hlarge _ ih =>
    obtain ⟨fuel, rfl⟩ : ∃ k, fuel = k + 1 := ⟨fuel - 1, by omega⟩
    simp only [List.cons_append, quote, if_neg hquote, if_neg hslash, if_neg (Nat.not_lt.mpr hlarge)]
    exact ih (Nat.lt_of_succ_lt_succ hfuel) _
  | @letter letter c pieces s hletter _ ih =>
    obtain ⟨fuel, rfl⟩ : ∃ k, fuel = k + 1 := ⟨fuel - 1, by omega⟩
    have hu : letter ≠ 'u' := by
      rintro rfl
      cases hletter
    have hlength : s.length < fuel := by
      simp only [List.length_cons] at hfuel
      omega
    have hread := ih hlength (q.push c)
    simp [quote, hletter, hread, Quote.add]
  | @unit digits n pieces s hfour hvalue _ ih =>
    obtain ⟨fuel, rfl⟩ : ∃ k, fuel = k + 1 := ⟨fuel - 1, by omega⟩
    have hlength : s.length < fuel := by
      simp only [List.length_cons, List.length_append] at hfuel
      omega
    have hunit := codeUnit_of_digits hfour hvalue
    have hread := ih hlength (q.pushUnit n)
    simp [quote, hunit, hread, Quote.add]

/-- What spells a text begins with a quote, and behind that it is read. -/
theorem quote_of_spellsText {text : Option String} {s : List Char} (h : SpellsText text s)
    (rest : List Char) :
    ∃ body, s ++ rest = '"' :: body ∧
      quote (body.length + 1) body .start = .ok (text, rest) := by
  obtain ⟨hpieces⟩ := h
  rename_i pieces s
  refine ⟨s ++ '"' :: rest, by simp, quote_of_pieces hpieces ?_ rest .start⟩
  rw [List.length_append]
  omega

/-! ### Written texts -/

theorem pushUnit_small {n : Nat} (hn : n < 0x20) (q : Quote) :
    q.pushUnit n = q.push (Char.ofNat n) := by
  unfold Quote.pushUnit
  rw [if_neg (by omega), if_neg (by omega)]

theorem numeralValue?_unit : ∀ n < 0x20,
    numeralValue? 16 hexValue? ['0', '0', hexDigit (n / 16), hexDigit (n % 16)] = some n := by
  decide

/-- A written character spells a piece that adds that character. -/
theorem spellsPieces_writtenChar (c : Char) : ∃ piece, (∀ q : Quote, q.add piece = q.push c) ∧
    ∀ {pieces : List Piece} {s : List Char}, SpellsPieces pieces s →
      SpellsPieces (piece :: pieces) (writtenChar c ++ s) := by
  have hletter : ∀ letter, escaped? letter = some c → writtenChar c = ['\\', letter] →
      ∃ piece, (∀ q : Quote, q.add piece = q.push c) ∧
        ∀ {pieces : List Piece} {s : List Char}, SpellsPieces pieces s →
          SpellsPieces (piece :: pieces) (writtenChar c ++ s) := fun letter hc hw =>
    ⟨.char c, fun _ => rfl, fun h => hw ▸ .letter hc h⟩
  by_cases hquote : c = '"'
  · exact hletter '"' (by rw [hquote]; rfl) (by rw [hquote]; rfl)
  by_cases hslash : c = '\\'
  · exact hletter '\\' (by rw [hslash]; rfl) (by rw [hslash]; rfl)
  by_cases hback : c = '\x08'
  · exact hletter 'b' (by rw [hback]; rfl) (by rw [hback]; rfl)
  by_cases hform : c = '\x0c'
  · exact hletter 'f' (by rw [hform]; rfl) (by rw [hform]; rfl)
  by_cases hline : c = '\n'
  · exact hletter 'n' (by rw [hline]; rfl) (by rw [hline]; rfl)
  by_cases hreturn : c = '\r'
  · exact hletter 'r' (by rw [hreturn]; rfl) (by rw [hreturn]; rfl)
  by_cases htab : c = '\t'
  · exact hletter 't' (by rw [htab]; rfl) (by rw [htab]; rfl)
  unfold writtenChar
  simp only [if_neg hquote, if_neg hslash, if_neg hback, if_neg hform, if_neg hline, if_neg hreturn,
    if_neg htab]
  split
  · rename_i hsmall
    refine ⟨.unit c.toNat, fun q => ?_, fun h => .unit rfl (numeralValue?_unit _ hsmall) h⟩
    rw [Quote.add, pushUnit_small hsmall, Char.ofNat_toNat]
  · rename_i hlarge
    exact ⟨.char c, fun _ => rfl, fun h => .plain hquote hslash (Nat.not_lt.mp hlarge) h⟩

theorem spellsPieces_written (chars : List Char) : ∃ pieces,
    SpellsPieces pieces (chars.flatMap writtenChar) ∧
      ∀ q : Quote, pieces.foldl Quote.add q = chars.foldl Quote.push q := by
  induction chars with
  | nil => exact ⟨[], .nil, fun _ => rfl⟩
  | cons c chars ih =>
    obtain ⟨pieces, hspells, hadd⟩ := ih
    obtain ⟨piece, hpush, hfirst⟩ := spellsPieces_writtenChar c
    refine ⟨piece :: pieces, hfirst hspells, fun q => ?_⟩
    rw [List.foldl_cons, List.foldl_cons, hpush, hadd]

theorem foldl_push (chars reversed : List Char) :
    chars.foldl Quote.push ⟨reversed, none, false⟩ = ⟨chars.reverse ++ reversed, none, false⟩ := by
  induction chars generalizing reversed with
  | nil => rfl
  | cons c chars ih => simpa [Quote.push] using ih (c :: reversed)

/-- A text as it is written spells that text. -/
theorem spellsText_writtenText (s : String) : SpellsText (some s) (writtenText s) := by
  obtain ⟨pieces, hspells, hadd⟩ := spellsPieces_written s.toList
  have htext : textOf pieces = some s := by
    rw [textOf, hadd, Quote.start, foldl_push]
    simp [Quote.finish]
  exact htext ▸ .quoted hspells

/-! ## Numbers -/

theorem isDigit_eq (c : Char) : isDigit c = (digitValue? c).isSome := by
  unfold isDigit digitValue?
  split
  · rename_i h
    simp [h.1, h.2]
  · rename_i h
    simpa only [Option.isSome_none, Bool.and_eq_false_iff, decide_eq_false_iff_not,
      Decidable.not_and_iff_not_or_not] using h

/-- What can follow a number without being part of it. -/
def Ends (rest : List Char) : Prop :=
  ∀ c, rest.head? = some c → isDigit c = false ∧ c ≠ '.' ∧ c ≠ 'e' ∧ c ≠ 'E'

theorem ends_nil : Ends [] := by
  intro c h
  cases h

/-- Digits, at least one of them. -/
structure IsDigits (s : List Char) : Prop where
  ne_nil : s ≠ []
  all : ∀ c ∈ s, isDigit c = true

inductive SpellsPart : Option (List Char) → List Char → Prop
  | none : SpellsPart none []
  | digits {digits : List Char} : IsDigits digits → SpellsPart (some digits) ('.' :: digits)

/-- The sign that may stand before the digits of an exponent. -/
inductive SpellsSign : Bool → List Char → Prop
  | none : SpellsSign false []
  | plus : SpellsSign false ['+']
  | minus : SpellsSign true ['-']

inductive SpellsExponent : Option (Bool × List Char) → List Char → Prop
  | none : SpellsExponent none []
  | digits {e : Char} {negative : Bool} {sign digits : List Char} : e = 'e' ∨ e = 'E' →
      SpellsSign negative sign → IsDigits digits →
      SpellsExponent (some (negative, digits)) (e :: (sign ++ digits))

def minusSign (negative : Bool) : List Char := if negative then ['-'] else []

/-- The spelling of a number. Zeros do not stand in front of other digits. -/
inductive SpellsNumeral : Numeral → List Char → Prop
  | parts {negative : Bool} {whole ps es : List Char} {part : Option (List Char)}
      {exponent : Option (Bool × List Char)} : IsDigits whole →
      (whole.head? = some '0' → whole = ['0']) → SpellsPart part ps → SpellsExponent exponent es →
      SpellsNumeral ⟨negative, whole, part, exponent⟩ (minusSign negative ++ (whole ++ (ps ++ es)))

theorem someDigits_append {digits rest : List Char} (h : IsDigits digits)
    (hrest : ∀ c, rest.head? = some c → isDigit c = false) :
    someDigits (digits ++ rest) = .ok (digits, rest) := by
  obtain ⟨htake, hdrop⟩ := takeWhile_digits h.all hrest
  obtain ⟨first, more, rfl⟩ := List.exists_cons_of_ne_nil h.ne_nil
  unfold someDigits
  rw [htake, hdrop]

theorem wholeDigits_append {digits rest : List Char} (h : IsDigits digits)
    (hzero : digits.head? = some '0' → digits = ['0'])
    (hrest : ∀ c, rest.head? = some c → isDigit c = false) :
    wholeDigits (digits ++ rest) = .ok (digits, rest) := by
  unfold wholeDigits
  rw [someDigits_append h hrest]
  split
  · rename_i heq
    obtain ⟨rfl, -⟩ := Prod.mk.inj (Except.ok.inj heq)
    cases hzero rfl
  · rfl

theorem exponentDigits_of_ends {rest : List Char} (hrest : Ends rest) :
    exponentDigits rest = .ok (none, rest) := by
  cases rest with
  | nil => rfl
  | cons c rest =>
    obtain ⟨-, -, hsmall, hlarge⟩ := hrest c rfl
    simp [exponentDigits, hsmall, hlarge]

theorem head?_toDigits {n : Nat} (hn : 0 < n) : (Nat.toDigits 10 n).head? ≠ some '0' := by
  have hfirst : ∀ d < 10, 0 < d → Nat.digitChar d ≠ '0' := by decide
  induction n using Nat.strongRecOn with
  | ind n ih =>
    rw [Nat.toDigits_eq_if (by decide)]
    split
    · rename_i hsmall
      simpa using hfirst n hsmall hn
    · have hfront := ih (n / 10) (by omega) (by omega)
      obtain ⟨first, more, heq⟩ :=
        List.exists_cons_of_ne_nil (Nat.toDigits_ne_nil (n := n / 10) (b := 10))
      rw [heq] at hfront ⊢
      exact hfront

theorem isDigit_of_mem_toDigits {n : Nat} {c : Char} (h : c ∈ Nat.toDigits 10 n) :
    isDigit c = true := by
  rw [isDigit_eq]
  exact allDigits_toDigits n c h

theorem exponentDigits_append {exponent : Option (Bool × List Char)} {es rest : List Char}
    (h : SpellsExponent exponent es) (hrest : Ends rest) :
    exponentDigits (es ++ rest) = .ok (exponent, rest) := by
  cases h with
  | none => exact exponentDigits_of_ends hrest
  | @digits e negative sign digits he hsign hdigits =>
    have hmark : (e = 'e' || e = 'E') = true := by simpa using he
    have hread := someDigits_append hdigits fun c hc => (hrest c hc).1
    have hshape : exponentDigits (e :: (sign ++ digits) ++ rest) =
        (someDigits (digits ++ rest)).map fun x => (some (negative, x.1), x.2) := by
      simp only [List.cons_append, List.append_assoc, exponentDigits, hmark, if_true]
      cases hsign with
      | plus => rfl
      | minus => rfl
      | none =>
        -- a digit is no sign
        obtain ⟨first, more, rfl⟩ := List.exists_cons_of_ne_nil hdigits.ne_nil
        have hfirst := hdigits.all first List.mem_cons_self
        simp only [List.nil_append, List.cons_append]
        split
        · rename_i heq
          rw [(List.cons.inj heq).1] at hfirst
          exact absurd hfirst (by decide)
        · rename_i heq
          rw [(List.cons.inj heq).1] at hfirst
          exact absurd hfirst (by decide)
        · rfl
    rw [hshape, hread]
    rfl

/-- Behind the digits of a number stands neither a digit nor a second point. -/
theorem head?_exponent {exponent : Option (Bool × List Char)} {es rest : List Char}
    (h : SpellsExponent exponent es) (hrest : Ends rest) :
    ∀ c, (es ++ rest).head? = some c → isDigit c = false ∧ c ≠ '.' := by
  intro c hc
  cases h with
  | none => exact ⟨(hrest c hc).1, (hrest c hc).2.1⟩
  | digits he _ _ =>
    cases hc
    rcases he with rfl | rfl <;> exact ⟨rfl, by decide⟩

theorem partDigits_append {part : Option (List Char)} {ps rest : List Char} (h : SpellsPart part ps)
    (hrest : ∀ c, rest.head? = some c → isDigit c = false ∧ c ≠ '.') :
    partDigits (ps ++ rest) = .ok (part, rest) := by
  cases h with
  | none =>
    unfold partDigits
    split
    · rename_i heq
      rw [List.nil_append] at heq
      exact absurd rfl (hrest '.' (by rw [heq]; rfl)).2
    · rfl
  | digits hdigits =>
    show (someDigits (_ ++ rest)).map _ = _
    rw [someDigits_append hdigits fun c hc => (hrest c hc).1]
    rfl

theorem numeral_of_spells {n : Numeral} {s rest : List Char} (h : SpellsNumeral n s)
    (hrest : Ends rest) : numeral (s ++ rest) = .ok (n, rest) := by
  obtain ⟨hwhole, hzero, hpart, hexponent⟩ := h
  rename_i negative whole ps es part exponent
  have hbehind := head?_exponent hexponent hrest
  have hfront : ∀ c, (ps ++ (es ++ rest)).head? = some c → isDigit c = false := by
    intro c hc
    cases hpart with
    | none => exact (hbehind c hc).1
    | digits _ =>
      cases hc
      rfl
  have hunsigned : unsignedNumeral negative (whole ++ (ps ++ (es ++ rest))) =
      .ok (⟨negative, whole, part, exponent⟩, rest) := by
    unfold unsignedNumeral
    rw [wholeDigits_append hwhole hzero hfront]
    show (partDigits (ps ++ (es ++ rest)) >>= _) = _
    rw [partDigits_append hpart hbehind]
    show (exponentDigits (es ++ rest) >>= _) = _
    rw [exponentDigits_append hexponent hrest]
    rfl
  simp only [List.append_assoc]
  cases negative with
  | true => exact hunsigned
  | false =>
    obtain ⟨first, more, rfl⟩ := List.exists_cons_of_ne_nil hwhole.ne_nil
    have hfirst := hwhole.all first List.mem_cons_self
    show numeral (first :: _) = _
    unfold numeral
    split
    · rename_i heq
      rw [(List.cons.inj heq).1] at hfirst
      exact absurd hfirst (by decide)
    · exact hunsigned

/-- A number begins with a minus sign or a digit. -/
theorem SpellsNumeral.first {n : Numeral} {s : List Char} (h : SpellsNumeral n s) :
    ∃ c t, s = c :: t ∧ (c = '-' ∨ isDigit c = true) := by
  obtain ⟨hwhole, -, -, -⟩ := h
  rename_i negative whole ps es part exponent
  cases negative with
  | true => exact ⟨'-', _, rfl, Or.inl rfl⟩
  | false =>
    obtain ⟨first, more, rfl⟩ := List.exists_cons_of_ne_nil hwhole.ne_nil
    exact ⟨first, _, rfl, Or.inr (hwhole.all first List.mem_cons_self)⟩

/-- The digits of a number spell it: only zero begins with a zero, and nothing follows that. -/
theorem spellsNumeral_toDigits (n : Nat) :
    SpellsNumeral ⟨false, Nat.toDigits 10 n, none, none⟩ (Nat.toDigits 10 n) := by
  have hdigits : IsDigits (Nat.toDigits 10 n) :=
    ⟨Nat.toDigits_ne_nil, fun _ => isDigit_of_mem_toDigits⟩
  have hzero : (Nat.toDigits 10 n).head? = some '0' → Nat.toDigits 10 n = ['0'] := by
    intro hfirst
    by_cases hn : 0 < n
    · exact absurd hfirst (head?_toDigits hn)
    · obtain rfl : n = 0 := by omega
      rfl
  have hspells : SpellsNumeral ⟨false, Nat.toDigits 10 n, none, none⟩
      (minusSign false ++ (Nat.toDigits 10 n ++ ([] ++ []))) := .parts hdigits hzero .none .none
  simpa [minusSign] using hspells

/-- Digits are collected as long as the number stays small enough. -/
theorem collect_eq {digits : List Char} {start n : Nat}
    (h : digits.foldlM (fun n c => (digitValue? c).map (10 * n + ·)) start = some n)
    (hn : n < UInt64.size) : start ≤ n ∧ Numeral.collect start digits = (n, digits.length) := by
  induction digits generalizing start with
  | nil =>
    simp only [List.foldlM_nil, Option.pure_def, Option.some.injEq] at h
    subst h
    exact ⟨Nat.le_refl _, rfl⟩
  | cons c digits ih =>
    rw [List.foldlM_cons, Option.bind_eq_bind, Option.bind_eq_some_iff] at h
    obtain ⟨next, hnext, hrest⟩ := h
    obtain ⟨d, hd, rfl⟩ := Option.map_eq_some_iff.mp hnext
    obtain ⟨hle, hcollect⟩ := ih hrest
    refine ⟨by omega, ?_⟩
    simp only [Numeral.collect, hd, Option.getD_some, if_pos (Nat.lt_of_le_of_lt hle hn), hcollect,
      List.length_cons]

theorem value_toDigits {n : Nat} (hn : n < UInt64.size) :
    Numeral.value ⟨false, Nat.toDigits 10 n, none, none⟩ = .natural n := by
  have h := (collect_eq (numeralValue?_toDigits n) hn).2
  simp [Numeral.value, h]

end StubListing.Json
