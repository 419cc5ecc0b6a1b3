import StubListing.Proofs.Json.Spelling
/-!
# Reading a text that goes on

A value that has been read from a text is read in the same way when more text follows, and what
follows is left with the rest. Only a number may grow when its text goes on, so for a number
something else has to stand behind it already. It follows that the text of an object is never read
before it is complete: what is left of the front part would be left of the whole as well.
-/
namespace StubListing.Json
open StubListing.Text

variable {s rest : List Char}

theorem skipSpace_append {c : Char} {t : List Char} (h : skipSpace s = c :: t) (more : List Char) :
    skipSpace (s ++ more) = c :: (t ++ more) := by
  unfold skipSpace at h ⊢
  rw [List.dropWhile_append, h]
  rfl

/-! ## Numbers -/

/-- What is read in front of something is read in the same way when more follows. -/
def Continues {α : Type} (read : List Char → Except Break (α × List Char)) : Prop :=
  ∀ s a rest, read s = .ok (a, rest) → rest ≠ [] → ∀ more, read (s ++ more) = .ok (a, rest ++ more)

theorem someDigits_continues : Continues someDigits := by
  intro s digits rest h hrest more
  unfold someDigits at h ⊢
  have hdrop : s.dropWhile isDigit = rest := by
    split at h
    · cases h
    · cases h
      rfl
  have hshort : ¬ (s.takeWhile isDigit).length = s.length := by
    intro hall
    have hwhole := List.takeWhile_append_dropWhile (p := isDigit) (l := s)
    have hlength := congrArg List.length hwhole
    rw [List.length_append, hdrop] at hlength
    exact hrest (List.eq_nil_of_length_eq_zero (by omega))
  have htake : (s ++ more).takeWhile isDigit = s.takeWhile isDigit := by
    rw [List.takeWhile_append, if_neg hshort]
  have hleft : (s ++ more).dropWhile isDigit = s.dropWhile isDigit ++ more := by
    rw [List.dropWhile_append, hdrop, if_neg (by simpa using hrest)]
  rw [htake, hleft]
  split at h
  · cases h
  · cases h
    rfl

theorem wholeDigits_continues : Continues wholeDigits := by
  intro s digits rest h hrest more
  unfold wholeDigits at h ⊢
  split at h
  · cases h
  · rename_i result hplain
    rw [someDigits_continues s digits rest h hrest more]
    split
    · rename_i first others left heq
      simp only [Except.ok.injEq, Prod.mk.injEq] at heq
      exact absurd (by rw [h, heq.1]) (hplain first others rest)
    · rfl

theorem Continues.map {α β : Type} {read : List Char → Except Break (α × List Char)}
    (h : Continues read) (f : α → β) :
    Continues fun s => (read s).map fun (a, rest) => (f a, rest) := by
  intro s b rest hread hrest more
  dsimp only at hread ⊢
  cases hfirst : read s with
  | error how =>
    rw [hfirst] at hread
    cases hread
  | ok found =>
    rw [hfirst] at hread
    cases hread
    rw [h s _ _ hfirst hrest more]
    rfl

theorem partDigits_continues : Continues partDigits := by
  intro s part rest h hrest more
  cases s with
  | nil =>
    cases h
    exact absurd rfl hrest
  | cons c s =>
    by_cases hpoint : c = '.'
    · subst hpoint
      exact someDigits_continues.map some s part rest h hrest more
    · have hnone : ∀ t, partDigits (c :: t) = .ok (none, c :: t) := by
        intro t
        unfold partDigits
        split
        · rename_i heq
          exact absurd (List.cons.inj heq).1 hpoint
        · rfl
      rw [hnone] at h
      cases h
      exact hnone (s ++ more)

theorem exponentDigits_continues : Continues exponentDigits := by
  intro s exponent rest h hrest more
  have hdigits := fun (negative : Bool) =>
    someDigits_continues.map fun digits => some (negative, digits)
  cases s with
  | nil =>
    cases h
    exact absurd rfl hrest
  | cons c s =>
    by_cases hletter : (c = 'e' || c = 'E') = true
    · cases s with
      | nil =>
        simp only [exponentDigits, hletter, if_true] at h
        cases h
      | cons sign s =>
        rw [List.cons_append, List.cons_append]
        by_cases hplus : sign = '+'
        · subst hplus
          simp only [exponentDigits, hletter, if_true] at h ⊢
          exact hdigits false s exponent rest h hrest more
        · by_cases hminus : sign = '-'
          · subst hminus
            simp only [exponentDigits, hletter, if_true] at h ⊢
            exact hdigits true s exponent rest h hrest more
          · have hplain : ∀ t, exponentDigits (c :: sign :: t) =
                (someDigits (sign :: t)).map fun x => (some (false, x.1), x.2) := by
              intro t
              simp [exponentDigits, hletter, hplus, hminus]
            rw [hplain] at h ⊢
            exact hdigits false (sign :: s) exponent rest h hrest more
    · have hnone : ∀ t, exponentDigits (c :: t) = .ok (none, c :: t) := by
        intro t
        simp only [exponentDigits, if_neg hletter]
      rw [hnone] at h
      cases h
      exact hnone (s ++ more)

theorem unsignedNumeral_continues (negative : Bool) : Continues (unsignedNumeral negative) := by
  intro s n rest h hrest more
  unfold unsignedNumeral at h ⊢
  cases hwhole : wholeDigits s with
  | error how =>
    rw [hwhole] at h
    cases h
  | ok found =>
    obtain ⟨whole, behindWhole⟩ := found
    rw [hwhole] at h
    simp only [bind, Except.bind] at h
    cases hpart : partDigits behindWhole with
    | error how =>
      rw [hpart] at h
      cases h
    | ok found =>
      obtain ⟨part, behindPart⟩ := found
      rw [hpart] at h
      simp only at h
      cases hexponent : exponentDigits behindPart with
      | error how =>
        rw [hexponent] at h
        cases h
      | ok found =>
        obtain ⟨exponent, behind⟩ := found
        rw [hexponent] at h
        cases h
        -- if nothing were left of a part, nothing would be left of what follows it
        have hbehindPart : behindPart ≠ [] := by
          rintro rfl
          cases hexponent
          exact hrest rfl
        have hbehindWhole : behindWhole ≠ [] := by
          rintro rfl
          cases hpart
          exact hbehindPart rfl
        simp only [bind, Except.bind, wholeDigits_continues s whole behindWhole hwhole hbehindWhole more,
          partDigits_continues behindWhole part behindPart hpart hbehindPart more,
          exponentDigits_continues behindPart exponent behind hexponent hrest more]
        rfl

theorem numeral_continues : Continues numeral := by
  intro s n rest h hrest more
  cases s with
  | nil => cases h
  | cons c s =>
    by_cases hminus : c = '-'
    · subst hminus
      exact unsignedNumeral_continues true s n rest h hrest more
    · have hplain : ∀ t, numeral (c :: t) = unsignedNumeral false (c :: t) := by
        intro t
        unfold numeral
        split
        · rename_i heq
          exact absurd (List.cons.inj heq).1 hminus
        · rfl
      rw [hplain] at h
      rw [List.cons_append, hplain]
      exact unsignedNumeral_continues false (c :: s) n rest h hrest more

/-! ## Texts -/

theorem codeUnit_append {unit : Nat} (h : codeUnit s = .ok (unit, rest)) (more : List Char) :
    codeUnit (s ++ more) = .ok (unit, rest ++ more) := by
  have hfour : (s.take 4).length = 4 := by
    unfold codeUnit at h
    dsimp only at h
    split at h
    · cases h
    · split at h
      · split at h
        · assumption
        · cases h
      · cases h
  have hlength : 4 ≤ s.length := by
    rw [List.length_take] at hfour
    omega
  unfold codeUnit at h ⊢
  rw [List.take_append_of_le_length hlength, List.drop_append_of_le_length hlength]
  dsimp only at h ⊢
  split at h
  · cases h
  · rename_i hbytes
    rw [if_neg hbytes]
    split at h
    · rename_i hvalue
      rw [if_pos hfour]
      cases h
      rfl
    · cases h

theorem quote_unit {unit : Nat} (h : codeUnit s = .ok (unit, rest)) (fuel : Nat) (q : Quote) :
    quote (fuel + 1) ('\\' :: 'u' :: s) q = quote fuel rest (q.pushUnit unit) := by
  conv_lhs => unfold quote
  rw [if_neg (by decide), if_pos rfl]
  simp only [h]

theorem quote_noUnit {stop : Stop} (h : codeUnit s = .error stop) (fuel : Nat) (q : Quote) :
    quote (fuel + 1) ('\\' :: 'u' :: s) q = .error (q.broken stop) := by
  conv_lhs => unfold quote
  rw [if_neg (by decide), if_pos rfl]
  simp only [h]

theorem quote_letter {letter : Char} (hletter : letter ≠ 'u') (fuel : Nat) (s : List Char)
    (q : Quote) :
    quote (fuel + 1) ('\\' :: letter :: s) q =
      match escaped? letter with
      | some c => quote fuel s (q.push c)
      | none => .error (.of .malformed) := by
  conv_lhs => unfold quote
  rw [if_neg (by decide), if_pos rfl]
  split
  · rename_i heq
    cases heq
  · rename_i heq
    cases heq
    exact absurd rfl hletter
  · rename_i heq
    cases heq
    rfl

/-- A text between quotes ends at its quote, whatever follows. -/
theorem quote_append {fuel room : Nat} {q : Quote} {text : Option String}
    (h : quote fuel s q = .ok (text, rest)) (hroom : fuel ≤ room) (more : List Char) :
    quote room (s ++ more) q = .ok (text, rest ++ more) := by
  induction fuel generalizing s q room with
  | zero => cases h
  | succ fuel ih =>
    obtain ⟨room, rfl⟩ : ∃ n, room = n + 1 := ⟨room - 1, by omega⟩
    have hnext := fun {s q} (h : quote fuel s q = .ok (text, rest)) =>
      ih h (Nat.le_of_succ_le_succ hroom)
    cases s with
    | nil => cases h
    | cons c s =>
      rw [List.cons_append]
      by_cases hslash : c = '\\'
      · subst hslash
        cases s with
        | nil => cases h
        | cons letter s =>
          rw [List.cons_append]
          by_cases hletter : letter = 'u'
          · subst hletter
            cases hunit : codeUnit s with
            | error stop =>
              rw [quote_noUnit hunit] at h
              cases h
            | ok found =>
              rw [quote_unit hunit] at h
              rw [quote_unit (codeUnit_append hunit more)]
              exact hnext h
          · rw [quote_letter hletter] at h ⊢
            cases hescaped : escaped? letter with
            | none =>
              rw [hescaped] at h
              cases h
            | some character =>
              rw [hescaped] at h
              exact hnext h
      · unfold quote at h ⊢
        rw [if_neg hslash] at h ⊢
        split at h
        · rename_i hquote
          rw [if_pos hquote]
          cases h
          rfl
        · rename_i hquote
          rw [if_neg hquote]
          split at h
          · cases h
          · rename_i hcontrol
            rw [if_neg hcontrol]
            exact hnext h

/-! ## Values -/

theorem word_append {expected : List Char} {node found : Node}
    (h : word expected node s = (found, .ok rest)) (more : List Char) :
    word expected node (s ++ more) = (found, .ok (rest ++ more)) := by
  unfold word at h
  split at h
  · rename_i hfront
    obtain ⟨left, rfl⟩ := List.isPrefixOf_iff_prefix.mp hfront
    rw [List.drop_left] at h
    cases h
    rw [List.append_assoc, word_front]
  · cases h

/-- The value at the front of the text cannot grow: it is no number, or something is left behind
it. -/
def Bounded (s rest : List Char) : Prop :=
  rest ≠ [] ∨ ∀ c t, skipSpace s = c :: t → (c = '-' || isDigit c) = false

/-- With a mark behind it a value cannot grow. -/
theorem bounded_of_mark {s left t : List Char} {c : Char} (h : skipSpace left = c :: t) :
    Bounded s left := by
  left
  rintro rfl
  cases h

theorem value_nil (fuel : Nat) (h : skipSpace s = []) {node : Node} :
    value fuel s ≠ (node, .ok rest) := by
  cases fuel with
  | zero => exact fun h => by cases h
  | succ fuel =>
    rw [value, h]
    exact fun h => by cases h

theorem items_nil (fuel : Nat) (h : skipSpace s = []) {found : List Node} :
    items fuel s ≠ (found, .ok rest) := by
  cases fuel with
  | zero => exact fun h => by cases h
  | succ fuel =>
    intro hread
    rw [items] at hread
    split at hread
    · cases hread
    · rename_i hvalue
      exact value_nil fuel h hvalue

/-- Members begin with a quote. -/
theorem members_first {fuel : Nat} {found : List (Node × Node)}
    (h : members fuel s = (found, .ok rest)) : ∃ t, skipSpace s = '"' :: t := by
  cases fuel with
  | zero => cases h
  | succ fuel =>
    rw [members] at h
    split at h
    · exact ⟨_, by assumption⟩
    · cases h

theorem value_text {fuel : Nat} {text : Option String}
    (h : quote (s.length + 1) s .start = .ok (text, rest)) :
    value (fuel + 1) ('"' :: s) = (.text text, .ok rest) := by
  rw [value, skipSpace_cons rfl]
  simp only [h]

theorem value_text_cases {fuel : Nat} {node : Node}
    (h : value (fuel + 1) ('"' :: s) = (node, .ok rest)) :
    ∃ text, quote (s.length + 1) s .start = .ok (text, rest) ∧ node = .text text := by
  rw [value, skipSpace_cons rfl] at h
  cases hquote : quote (s.length + 1) s .start with
  | error how =>
    simp only [hquote] at h
    cases h
  | ok found =>
    simp only [hquote] at h
    cases h
    exact ⟨_, rfl, rfl⟩

theorem value_bracket (fuel : Nat) (s : List Char) :
    value (fuel + 1) ('[' :: s) =
      match skipSpace s with
      | ']' :: rest => (.array [] none, .ok rest)
      | rest =>
        let (items, rest) := items fuel rest
        (.array items (stopOf rest), rest) := by
  rw [value, skipSpace_cons rfl]
  rfl

theorem value_brace (fuel : Nat) (s : List Char) :
    value (fuel + 1) ('\x7b' :: s) =
      match skipSpace s with
      | '\x7d' :: rest => (.object [] none, .ok rest)
      | rest =>
        let (members, rest) := members fuel rest
        (.object members (stopOf rest), rest) := by
  rw [value, skipSpace_cons rfl]
  rfl

theorem value_emptyArray {fuel : Nat} (h : skipSpace s = ']' :: rest) :
    value (fuel + 1) ('[' :: s) = (.array [] none, .ok rest) := by
  rw [value_bracket, h]
  rfl

theorem value_array_cases {fuel : Nat} {node : Node}
    (h : value (fuel + 1) ('[' :: s) = (node, .ok rest)) :
    (skipSpace s = ']' :: rest ∧ node = .array [] none) ∨
      ∃ c t found, skipSpace s = c :: t ∧ c ≠ ']' ∧ items fuel s = (found, .ok rest) ∧
        node = .array found none := by
  rw [value_bracket] at h
  split at h
  · rename_i heq
    cases h
    exact Or.inl ⟨heq, rfl⟩
  · rename_i hopen
    rw [items_skipSpace] at h
    rcases hitems : items fuel s with ⟨found, _ | left⟩
    · rw [hitems] at h
      cases h
    · rw [hitems] at h
      cases h
      cases hs : skipSpace s with
      | nil => exact absurd hitems (items_nil fuel hs)
      | cons c t =>
        refine Or.inr ⟨c, t, found, rfl, ?_, rfl, rfl⟩
        rintro rfl
        exact hopen t hs

theorem value_emptyObject {fuel : Nat} (h : skipSpace s = '\x7d' :: rest) :
    value (fuel + 1) ('\x7b' :: s) = (.object [] none, .ok rest) := by
  rw [value_brace, h]
  rfl

theorem value_object_cases {fuel : Nat} {node : Node}
    (h : value (fuel + 1) ('\x7b' :: s) = (node, .ok rest)) :
    (skipSpace s = '\x7d' :: rest ∧ node = .object [] none) ∨
      ∃ t found, skipSpace s = '"' :: t ∧ members fuel s = (found, .ok rest) ∧
        node = .object found none := by
  rw [value_brace] at h
  split at h
  · rename_i heq
    cases h
    exact Or.inl ⟨heq, rfl⟩
  · rw [members_skipSpace] at h
    rcases hmembers : members fuel s with ⟨found, _ | left⟩
    · rw [hmembers] at h
      cases h
    · rw [hmembers] at h
      cases h
      obtain ⟨t, hs⟩ := members_first hmembers
      exact Or.inr ⟨t, found, hs, rfl, rfl⟩

/-- A word or a number. -/
theorem value_plain {c : Char} (hspace : isSpace c = false) (hquote : c ≠ '"') (hbracket : c ≠ '[')
    (hbrace : c ≠ '\x7b') (fuel : Nat) (t : List Char) :
    value (fuel + 1) (c :: t) =
      if c = 'n' then word ['n', 'u', 'l', 'l'] .null (c :: t)
      else if c = 't' then word ['t', 'r', 'u', 'e'] (.boolean true) (c :: t)
      else if c = 'f' then word ['f', 'a', 'l', 's', 'e'] (.boolean false) (c :: t)
      else if c = '-' || isDigit c then
        match numeral (c :: t) with
        | .ok (n, rest) => (.number n, .ok rest)
        | .error how => unreadable how true
      else unreadable (.of .malformed) false := by
  rw [value, skipSpace_cons hspace]
  split
  · rename_i heq
    cases heq
  · rename_i heq
    exact absurd (List.cons.inj heq).1 hquote
  · rename_i heq
    exact absurd (List.cons.inj heq).1 hbracket
  · rename_i heq
    exact absurd (List.cons.inj heq).1 hbrace
  · rename_i heq
    obtain ⟨rfl, rfl⟩ := List.cons.inj heq
    rfl

theorem value_plain_append {c : Char} {t : List Char} (hspace : isSpace c = false)
    (hquote : c ≠ '"') (hbracket : c ≠ '[') (hbrace : c ≠ '\x7b') {fuel : Nat} {node : Node}
    (h : value (fuel + 1) (c :: t) = (node, .ok rest))
    (hbounded : rest ≠ [] ∨ (c = '-' || isDigit c) = false) (room : Nat) (more : List Char) :
    value (room + 1) (c :: (t ++ more)) = (node, .ok (rest ++ more)) := by
  rw [value_plain hspace hquote hbracket hbrace] at h ⊢
  rw [← List.cons_append]
  split at h
  · rename_i hn
    rw [if_pos hn]
    exact word_append h more
  rename_i hn
  rw [if_neg hn]
  split at h
  · rename_i ht
    rw [if_pos ht]
    exact word_append h more
  rename_i ht
  rw [if_neg ht]
  split at h
  · rename_i hf
    rw [if_pos hf]
    exact word_append h more
  rename_i hf
  rw [if_neg hf]
  split at h
  · rename_i hnumber
    rw [if_pos hnumber]
    have hleft : rest ≠ [] := hbounded.resolve_right (by rw [hnumber]; decide)
    cases hread : numeral (c :: t) with
    | error how =>
      rw [hread] at h
      cases h
    | ok found =>
      rw [hread] at h
      cases h
      rw [numeral_continues _ _ _ hread hleft more]
  · cases h

theorem items_cases {fuel : Nat} {found : List Node}
    (h : items (fuel + 1) s = (found, .ok rest)) :
    ∃ item left, value fuel s = (item, .ok left) ∧
      (skipSpace left = ']' :: rest ∧ found = [item] ∨
        ∃ behind others, skipSpace left = ',' :: behind ∧ items fuel behind = (others, .ok rest) ∧
          found = item :: others) := by
  rw [items] at h
  split at h
  · cases h
  · rename_i item left hvalue
    refine ⟨item, left, hvalue, ?_⟩
    split at h
    · rename_i hend
      cases h
      exact Or.inl ⟨hend, rfl⟩
    · rename_i behind hcomma
      rcases hothers : items fuel behind with ⟨others, rest'⟩
      rw [hothers] at h
      cases h
      exact Or.inr ⟨behind, others, hcomma, hothers, rfl⟩
    · cases h

theorem items_last {fuel : Nat} {item : Node} {left : List Char}
    (hvalue : value fuel s = (item, .ok left)) (hend : skipSpace left = ']' :: rest) :
    items (fuel + 1) s = ([item], .ok rest) := by
  simp only [items, hvalue, hend]

theorem items_more {fuel : Nat} {item : Node} {others : List Node} {left behind : List Char}
    (hvalue : value fuel s = (item, .ok left)) (hcomma : skipSpace left = ',' :: behind)
    (hothers : items fuel behind = (others, .ok rest)) :
    items (fuel + 1) s = (item :: others, .ok rest) := by
  simp only [items, hvalue, hcomma, hothers]

theorem members_cases {fuel : Nat} {found : List (Node × Node)}
    (h : members (fuel + 1) s = (found, .ok rest)) :
    ∃ t key behindKey u item left, skipSpace s = '"' :: t ∧
      quote (t.length + 1) t .start = .ok (key, behindKey) ∧ skipSpace behindKey = ':' :: u ∧
      value fuel u = (item, .ok left) ∧
      (skipSpace left = '\x7d' :: rest ∧ found = [(.text key, item)] ∨
        ∃ behind others, skipSpace left = ',' :: behind ∧ members fuel behind = (others, .ok rest) ∧
          found = (.text key, item) :: others) := by
  rw [members] at h
  split at h
  · rename_i t hfirst
    split at h
    · cases h
    · rename_i key behindKey hkey
      split at h
      · rename_i u hcolon
        split at h
        · cases h
        · rename_i item left hvalue
          refine ⟨t, key, behindKey, u, item, left, hfirst, hkey, hcolon, hvalue, ?_⟩
          split at h
          · rename_i hend
            cases h
            exact Or.inl ⟨hend, rfl⟩
          · rename_i behind hcomma
            rcases hothers : members fuel behind with ⟨others, rest'⟩
            rw [hothers] at h
            cases h
            exact Or.inr ⟨behind, others, hcomma, hothers, rfl⟩
          · cases h
      · cases h
  · cases h

theorem members_last {fuel : Nat} {key : Option String} {item : Node}
    {t behindKey u left : List Char} (hfirst : skipSpace s = '"' :: t)
    (hkey : quote (t.length + 1) t .start = .ok (key, behindKey))
    (hcolon : skipSpace behindKey = ':' :: u) (hvalue : value fuel u = (item, .ok left))
    (hend : skipSpace left = '\x7d' :: rest) :
    members (fuel + 1) s = ([(.text key, item)], .ok rest) := by
  simp only [members, hfirst, hkey, hcolon, hvalue, hend]

theorem members_more {fuel : Nat} {key : Option String} {item : Node}
    {others : List (Node × Node)} {t behindKey u left behind : List Char}
    (hfirst : skipSpace s = '"' :: t)
    (hkey : quote (t.length + 1) t .start = .ok (key, behindKey))
    (hcolon : skipSpace behindKey = ':' :: u) (hvalue : value fuel u = (item, .ok left))
    (hcomma : skipSpace left = ',' :: behind)
    (hothers : members fuel behind = (others, .ok rest)) :
    members (fuel + 1) s = ((.text key, item) :: others, .ok rest) := by
  simp only [members, hfirst, hkey, hcolon, hvalue, hcomma, hothers]

mutual

/-- A value that cannot grow is read in the same way when more text follows. -/
theorem value_append : ∀ (fuel : Nat) {room : Nat} {s rest : List Char} {node : Node},
    value fuel s = (node, .ok rest) → Bounded s rest → fuel ≤ room → ∀ more,
      value room (s ++ more) = (node, .ok (rest ++ more))
  | 0, _, _, _, _, h, _, _, _ => by cases h
  | fuel + 1, room, s, rest, node, h, hbounded, hroom, more => by
    obtain ⟨room, rfl⟩ : ∃ n, room = n + 1 := ⟨room - 1, by omega⟩
    have hroom := Nat.le_of_succ_le_succ hroom
    cases hs : skipSpace s with
    | nil => exact absurd h (value_nil _ hs)
    | cons c t =>
      have hspace : isSpace c = false := by
        have hhead := List.head?_dropWhile_not isSpace s
        rw [show s.dropWhile isSpace = c :: t from hs] at hhead
        simpa using hhead
      rw [← value_skipSpace, hs] at h
      rw [← value_skipSpace, skipSpace_append hs]
      by_cases hquote : c = '"'
      · subst hquote
        obtain ⟨text, hread, rfl⟩ := value_text_cases h
        have hlength : t.length + 1 ≤ (t ++ more).length + 1 := by simp
        exact value_text (quote_append hread hlength more)
      by_cases hbracket : c = '['
      · subst hbracket
        rcases value_array_cases h with ⟨hclosed, rfl⟩ | ⟨c, u, found, hfirst, hc, hitems, rfl⟩
        · exact value_emptyArray (skipSpace_append hclosed more)
        · exact value_array gap_nil (skipSpace_append hfirst more) hc
            (items_append fuel hitems hroom more)
      by_cases hbrace : c = '\x7b'
      · subst hbrace
        rcases value_object_cases h with ⟨hclosed, rfl⟩ | ⟨u, found, hfirst, hmembers, rfl⟩
        · exact value_emptyObject (skipSpace_append hclosed more)
        · exact value_object gap_nil (skipSpace_append hfirst more)
            (members_append fuel hmembers hroom more)
      · exact value_plain_append hspace hquote hbracket hbrace h
          (hbounded.imp id fun hno => hno c t hs) room more

theorem items_append : ∀ (fuel : Nat) {room : Nat} {s rest : List Char} {found : List Node},
    items fuel s = (found, .ok rest) → fuel ≤ room → ∀ more,
      items room (s ++ more) = (found, .ok (rest ++ more))
  | 0, _, _, _, _, h, _, _ => by cases h
  | fuel + 1, room, s, rest, found, h, hroom, more => by
    obtain ⟨room, rfl⟩ : ∃ n, room = n + 1 := ⟨room - 1, by omega⟩
    have hroom := Nat.le_of_succ_le_succ hroom
    obtain ⟨item, left, hvalue, h⟩ := items_cases h
    rcases h with ⟨hend, rfl⟩ | ⟨behind, others, hcomma, hothers, rfl⟩
    · have hitem := value_append fuel hvalue (bounded_of_mark hend) hroom more
      exact items_last hitem (skipSpace_append hend more)
    · have hitem := value_append fuel hvalue (bounded_of_mark hcomma) hroom more
      exact items_more hitem (skipSpace_append hcomma more)
        (items_append fuel hothers hroom more)

theorem members_append : ∀ (fuel : Nat) {room : Nat} {s rest : List Char}
    {found : List (Node × Node)}, members fuel s = (found, .ok rest) → fuel ≤ room → ∀ more,
      members room (s ++ more) = (found, .ok (rest ++ more))
  | 0, _, _, _, _, h, _, _ => by cases h
  | fuel + 1, room, s, rest, found, h, hroom, more => by
    obtain ⟨room, rfl⟩ : ∃ n, room = n + 1 := ⟨room - 1, by omega⟩
    have hroom := Nat.le_of_succ_le_succ hroom
    obtain ⟨t, key, behindKey, u, item, left, hfirst, hkey, hcolon, hvalue, h⟩ := members_cases h
    have hlength : t.length + 1 ≤ (t ++ more).length + 1 := by simp
    have hkey := quote_append hkey hlength more
    rcases h with ⟨hend, rfl⟩ | ⟨behind, others, hcomma, hothers, rfl⟩
    · have hitem := value_append fuel hvalue (bounded_of_mark hend) hroom more
      exact members_last (skipSpace_append hfirst more) hkey (skipSpace_append hcolon more) hitem
        (skipSpace_append hend more)
    · have hitem := value_append fuel hvalue (bounded_of_mark hcomma) hroom more
      exact members_more (skipSpace_append hfirst more) hkey (skipSpace_append hcolon more) hitem
        (skipSpace_append hcomma more) (members_append fuel hothers hroom more)

end

/-! ## Texts that break off -/

/-- A text that spells an object is not read before its end. -/
theorem read_front {members : List (String × Value)} {front more : List Char}
    (h : Spells (.object members) (front ++ more)) (hmore : more ≠ []) {node : Node}
    {rest : List Char} : read front ≠ (node, .ok rest) := by
  intro hread
  have hfront : front ≠ [] := by
    rintro rfl
    cases hread
  -- the text begins with a brace, so what was read of it is no number
  have hbounded : Bounded front rest := by
    right
    intro c t hfirst
    obtain ⟨c', front', rfl⟩ := List.exists_cons_of_ne_nil hfront
    have hbrace : c' = '\x7b' := by
      generalize hs : c' :: front' ++ more = s at h
      cases h <;> exact (List.cons.inj hs).1
    subst hbrace
    rw [skipSpace_cons rfl] at hfirst
    rw [← (List.cons.inj hfirst).1]
    rfl
  have hroom : fuelFor front ≤ fuelFor (front ++ more) := by
    simp only [fuelFor, List.length_append]
    omega
  have hlong := value_append _ hread hbounded hroom more
  have hwhole := value_of_spells h (fuelFor (front ++ more)) [] gap_nil ends_nil (by
    simp only [fuelFor]
    omega)
  rw [List.nil_append, List.append_nil, hlong] at hwhole
  simp only [Prod.mk.injEq, Except.ok.injEq, List.append_eq_nil_iff] at hwhole
  exact hmore hwhole.2.2

/-- No data is decoded from a text that breaks off within an object. -/
theorem decode_front {α : Type}
    {readData : Decode.Source (Except Fault) Node → Nat → Node → Except Fault α}
    {members : List (String × Value)} {front more : String}
    (h : (Value.object members).pretty = front ++ more) (hmore : more ≠ "") (a : α) :
    decode readData front ≠ .ok a := by
  have hspells : Spells (.object members) (front.toList ++ more.toList) := by
    have htext : front.toList ++ more.toList = (Value.object members).prettyChars 0 := by
      rw [← String.toList_append, ← h, Value.pretty, String.toList_ofList]
    rw [htext]
    exact spells_prettyChars _ 0
  have hne : more.toList ≠ [] := by simpa using hmore
  intro hdecode
  rcases hread : read front.toList with ⟨node, stop | rest⟩
  · simp only [decode, hread] at hdecode
    split at hdecode <;> cases hdecode
  · exact read_front hspells hne hread

end StubListing.Json
