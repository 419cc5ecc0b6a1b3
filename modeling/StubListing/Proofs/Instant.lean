import Mathlib.Data.List.TakeWhile
import StubListing.Instant
import StubListing.Proofs.Text.Digits
/-!
# Reading back a point in time

The text of a point in time tells that point in time, and whatever a text tells exists.
-/
namespace StubListing.Instant
open StubListing.Text

/-- A point in time that exists: leap seconds come at the end of a minute. -/
structure Valid (t : Instant) : Prop where
  date : t.date.isValid = true
  second : t.second < 86400
  nano : t.nano < 2 * 1000000000
  leap : 1000000000 ≤ t.nano → t.second % 60 = 59

/-! ## Readers -/

/-- The reader takes the part off the front and leaves the rest. -/
def Reads {α : Type} (r : Reader α) (s : List Char) (a : α) (rest : List Char) : Prop :=
  r.run s = .ok (a, rest)

variable {α β : Type} {s s' rest : List Char} {a : α} {b : β}

theorem reads_bind {r : Reader α} {next : α → Reader β} (h : Reads r s a s')
    (hnext : Reads (next a) s' b rest) : Reads (r >>= next) s b rest := by
  unfold Reads at *
  rw [StateT.run_bind, h]
  exact hnext

theorem reads_pure : Reads (pure a) s a s := rfl

theorem reads_get : Reads get s s s := rfl

theorem reads_set : Reads (set s') s () s' := rfl

theorem reads_blanks {c : Char} (h : isBlank c = false) : Reads blanks (c :: s) () (c :: s) := by
  have hdrop : dropBlank (c :: s) = c :: s := by simp [dropBlank, h]
  show Except.ok ((), dropBlank (c :: s)) = _
  rw [hdrop]

theorem reads_mark {c : Char} (h : isBlank c = false) : Reads (mark c) (c :: rest) () rest := by
  refine reads_bind (reads_blanks h) (reads_bind reads_get ?_)
  simp only [if_true]
  exact reads_set

theorem isBlank_of_digit {c : Char} (h : (digitValue? c).isSome = true) : isBlank c = false := by
  unfold digitValue? at h
  split at h
  · rename_i hc
    have hlow : 48 ≤ c.toNat := hc.1
    have hhigh : c.toNat ≤ 57 := hc.2
    simp only [isBlank, Bool.or_eq_false_iff, Bool.and_eq_false_iff, decide_eq_false_iff_not,
      beq_eq_false_iff_ne]
    omega
  · cases h

/-- Where digits stand no white space is passed over. -/
theorem reads_blanks_digits {digits : List Char} (rest : List Char) (h : AllDigits digits) (hne : digits ≠ []) :
    Reads blanks (digits ++ rest) () (digits ++ rest) := by
  obtain ⟨first, more, rfl⟩ := List.exists_cons_of_ne_nil hne
  exact reads_blanks (isBlank_of_digit (h first (by simp)))

/-- So many digits are read as a number. -/
theorem reads_digits {run : List Char} {n : Nat} (rest : List Char) (hrun : AllDigits run) (hne : run ≠ [])
    (hn : numeralValue? 10 digitValue? run = some n) (hsmall : n < 9223372036854775808) :
    Reads (digits (some run.length)) (run ++ rest) n rest := by
  have hfront : ((run ++ rest).take run.length).takeWhile (fun c => (digitValue? c).isSome) =
      run := by
    rw [List.take_left, List.takeWhile_eq_self_iff]
    exact hrun
  obtain ⟨first, more, rfl⟩ := List.exists_cons_of_ne_nil hne
  refine reads_bind reads_get ?_
  rw [List.cons_append] at hfront ⊢
  simp only [hfront, hn, Option.getD_some, if_neg (Nat.not_le.mpr hsmall)]
  refine reads_bind reads_set ?_
  rw [← List.cons_append, List.drop_left]
  exact reads_pure

/-- All digits that are there are read as a number. -/
theorem reads_allDigits {run : List Char} {n : Nat} (hrun : AllDigits run) (hne : run ≠ [])
    (hn : numeralValue? 10 digitValue? run = some n) (hsmall : n < 9223372036854775808)
    (hrest : ∀ c, rest.head? = some c → (digitValue? c).isSome = false) :
    Reads (digits none) (run ++ rest) n rest := by
  have hfront := (takeWhile_digits hrun hrest).1
  obtain ⟨first, more, rfl⟩ := List.exists_cons_of_ne_nil hne
  refine reads_bind reads_get ?_
  rw [List.cons_append] at hfront ⊢
  simp only [hfront, hn, Option.getD_some, if_neg (Nat.not_le.mpr hsmall)]
  refine reads_bind reads_set ?_
  rw [← List.cons_append, List.drop_left]
  exact reads_pure

theorem reads_padded {width n : Nat} (rest : List Char) (hwidth : 0 < width) (hn : n < Nat.pow 10 width)
    (hsmall : n < 9223372036854775808) :
    Reads (digits (some width)) ((padded width n).toList ++ rest) n rest := by
  have h := reads_digits rest (allDigits_padded width n) (padded_ne_nil width n)
    (numeralValue?_padded width n) hsmall
  rwa [length_padded hwidth hn] at h

theorem reads_twoDigits {low high n : Nat} (hlow : low ≤ n) (hhigh : n ≤ high) (hn : n < 100) :
    Reads (twoDigits low high) ((padded 2 n).toList ++ rest) n rest := by
  refine reads_bind (reads_blanks_digits rest (allDigits_padded 2 n) (padded_ne_nil 2 n)) ?_
  refine reads_bind (reads_padded rest (by decide) hn (by omega)) ?_
  rw [if_pos (by simp [hlow, hhigh])]
  exact reads_pure

/-! ## Parts of a time -/

theorem toList_sign_append (sign : Char) (digits : String) (rest : List Char) :
    (String.singleton sign ++ digits).toList ++ rest = sign :: (digits.toList ++ rest) := by
  simp [String.toList_append]

theorem reads_year {y : Int} (hlow : Date.firstYear ≤ y) (hhigh : y ≤ Date.lastYear) :
    Reads year ((yearText y).toList ++ '-' :: rest) y ('-' :: rest) := by
  simp only [Date.firstYear, Date.lastYear] at hlow hhigh
  have hbounds : (decide (-2147483648 ≤ y) && decide (y < 2147483648)) = true := by
    simp only [Bool.and_eq_true, decide_eq_true_eq]
    omega
  have hall : Reads (digits none) ((padded 4 y.natAbs).toList ++ '-' :: rest) y.natAbs
      ('-' :: rest) := by
    refine reads_allDigits (allDigits_padded 4 y.natAbs) (padded_ne_nil 4 y.natAbs)
      (numeralValue?_padded 4 y.natAbs) (by omega) ?_
    rintro _ ⟨⟩
    rfl
  have hbounded : Reads (if (decide (-2147483648 ≤ y) && decide (y < 2147483648)) = true then
      pure y else throw .outOfRange) ('-' :: rest) y ('-' :: rest) := by
    rw [if_pos hbounds]
    exact reads_pure
  unfold yearText
  split
  · rename_i hneg
    have hy : -Int.ofNat y.natAbs = y := by
      rw [Int.ofNat_eq_natCast]
      omega
    rw [show ("-" : String) = String.singleton '-' from rfl, toList_sign_append]
    refine reads_bind (reads_blanks (by decide)) (reads_bind reads_get ?_)
    split
    · rename_i more heq
      rw [← (List.cons.inj heq).2]
      exact reads_bind reads_set (reads_bind hall (reads_bind reads_pure (hy.symm ▸ hbounded)))
    · rename_i heq
      exact absurd (List.cons.inj heq).1 (by decide)
    · rename_i hdash _
      exact absurd rfl (hdash _)
  · split
    · rename_i hpos hfour
      have hy : Int.ofNat y.natAbs = y := Int.natAbs_of_nonneg (by omega)
      have hread := reads_padded ('-' :: rest) (by decide : 0 < 4) (by omega : y.natAbs < 10000)
        (by omega)
      have hblanks := reads_blanks_digits ('-' :: rest) (allDigits_padded 4 y.natAbs)
        (padded_ne_nil 4 y.natAbs)
      refine reads_bind hblanks (reads_bind reads_get ?_)
      obtain ⟨first, more, heq⟩ := List.exists_cons_of_ne_nil (padded_ne_nil 4 y.natAbs)
      have hfirst := allDigits_padded 4 y.natAbs first (by rw [heq]; simp)
      rw [heq, List.cons_append] at hread ⊢
      split
      · rename_i h
        rw [(List.cons.inj h).1] at hfirst
        cases hfirst
      · rename_i h
        rw [(List.cons.inj h).1] at hfirst
        cases hfirst
      · exact reads_bind hread (reads_bind reads_pure (hy.symm ▸ hbounded))
    · rename_i hpos hlong
      have hy : Int.ofNat y.natAbs = y := Int.natAbs_of_nonneg (by omega)
      rw [show ("+" : String) = String.singleton '+' from rfl, toList_sign_append]
      refine reads_bind (reads_blanks (by decide)) (reads_bind reads_get ?_)
      split
      · rename_i heq
        exact absurd (List.cons.inj heq).1 (by decide)
      · rename_i more heq
        rw [← (List.cons.inj heq).2]
        exact reads_bind reads_set (reads_bind hall (reads_bind reads_pure (hy.symm ▸ hbounded)))
      · rename_i hplus
        exact absurd rfl (hplus _)

/-- So many digits behind the point count for nanoseconds. -/
theorem reads_fraction {width n : Nat} (rest : List Char) (hwidth : 0 < width) (hnine : width ≤ 9)
    (hn : n < Nat.pow 10 width) :
    Reads fraction ('.' :: ((padded width n).toList ++ 'Z' :: rest)) (n * Nat.pow 10 (9 - width))
      ('Z' :: rest) := by
  have hlength : (padded width n).toList.length = width := length_padded hwidth hn
  have htake : ((padded width n).toList ++ 'Z' :: rest).take 9 =
      (padded width n).toList ++ ('Z' :: rest).take (9 - width) := by
    rw [List.take_append, hlength, List.take_of_length_le (by omega)]
  have hrun : (((padded width n).toList ++ 'Z' :: rest).take 9).takeWhile
      (fun c => (digitValue? c).isSome) = (padded width n).toList := by
    rw [htake]
    refine (takeWhile_digits (allDigits_padded width n) fun c hc => ?_).1
    have hmem := List.mem_of_mem_head? hc
    cases hk : 9 - width with
    | zero =>
      rw [hk] at hmem
      cases hmem
    | succ k =>
      rw [hk] at hc
      cases hc
      rfl
  obtain ⟨first, more, heq⟩ := List.exists_cons_of_ne_nil (padded_ne_nil width n)
  have hvalue := numeralValue?_padded width n
  rw [heq] at hrun hlength hvalue ⊢
  rw [List.cons_append] at hrun ⊢
  refine reads_bind reads_get ?_
  simp only [hrun, hvalue, hlength, Option.getD_some]
  refine reads_bind reads_set ?_
  rw [← hlength, ← List.cons_append, List.drop_left]
  exact reads_pure

theorem reads_fractionText {n : Nat} (hn : n < 1000000000) :
    Reads fraction ((fractionText n).toList ++ 'Z' :: rest) n ('Z' :: rest) := by
  unfold fractionText
  split
  · rename_i hzero
    rw [show n = 0 by simpa using hzero]
    refine reads_bind reads_get ?_
    exact reads_pure
  · rw [show ("." : String) = String.singleton '.' from rfl]
    split
    · rename_i hmilli
      have hmod : n % 1000000 = 0 := by simpa using hmilli
      have h := reads_fraction rest (by decide : 0 < 3) (by decide)
        (by omega : n / 1000000 < 1000)
      rw [toList_sign_append]
      rwa [show n / 1000000 * Nat.pow 10 (9 - 3) = n from
        Nat.div_mul_cancel (Nat.dvd_of_mod_eq_zero hmod)] at h
    · split
      · rename_i hmicro
        have hmod : n % 1000 = 0 := by simpa using hmicro
        have h := reads_fraction rest (by decide : 0 < 6) (by decide)
          (by omega : n / 1000 < 1000000)
        rw [toList_sign_append]
        rwa [show n / 1000 * Nat.pow 10 (9 - 6) = n from
          Nat.div_mul_cancel (Nat.dvd_of_mod_eq_zero hmod)] at h
      · have h := reads_fraction rest (by decide : 0 < 9) (by decide) hn
        rw [toList_sign_append]
        rwa [show n * Nat.pow 10 (9 - 9) = n from Nat.mul_one n] at h

theorem reads_zone : Reads zone ['Z'] 0 [] := rfl

/-! ## Times -/

theorem daysIn_le (y : Int) (month : Nat) : Date.daysIn y month ≤ 31 := by
  unfold Date.daysIn
  repeat' split
  all_goals decide

theorem reads_calendar {d : Date} (h : d.isValid = true) :
    Reads calendar ((yearText d.year).toList ++ '-' :: ((padded 2 d.month).toList ++
      '-' :: ((padded 2 d.day).toList ++ rest))) d rest := by
  simp only [Date.isValid, Bool.and_eq_true, decide_eq_true_eq] at h
  obtain ⟨⟨⟨⟨⟨hlow, hhigh⟩, hmonth⟩, htwelve⟩, hday⟩, hdays⟩ := h
  have := daysIn_le d.year d.month
  refine reads_bind (reads_year hlow hhigh) (reads_bind (reads_mark (by decide)) ?_)
  refine reads_bind (reads_twoDigits hmonth htwelve (by omega)) ?_
  refine reads_bind (reads_mark (by decide)) ?_
  exact reads_bind (reads_twoDigits hday (by omega) (by omega)) reads_pure

/-- The characters of a time of day. -/
def clockChars (hour minute second nano : Nat) : List Char :=
  (padded 2 hour).toList ++ ':' :: ((padded 2 minute).toList ++
    ':' :: ((padded 2 second).toList ++ (fractionText nano).toList))

/-- What the clock shows is the second of the day, and a sixtieth second is a leap second. -/
theorem reads_clock {hour minute second nano : Nat} (rest : List Char) (hhour : hour ≤ 23)
    (hminute : minute ≤ 59) (hsecond : second ≤ 60) (hnano : nano < 1000000000) :
    Reads clock (clockChars hour minute second nano ++ 'Z' :: rest)
      (if second = 60 then (3600 * hour + 60 * minute + 59, nano + 1000000000)
        else (3600 * hour + 60 * minute + second, nano)) ('Z' :: rest) := by
  simp only [clockChars, List.append_assoc, List.cons_append]
  refine reads_bind (reads_twoDigits (Nat.zero_le _) hhour (by omega)) ?_
  refine reads_bind (reads_mark (by decide)) ?_
  refine reads_bind (reads_twoDigits (Nat.zero_le _) hminute (by omega)) ?_
  refine reads_bind (reads_mark (by decide)) ?_
  refine reads_bind (reads_twoDigits (Nat.zero_le _) hsecond (by omega)) ?_
  refine reads_bind (reads_fractionText hnano) ?_
  split
  · exact reads_pure
  · exact reads_pure

theorem reads_reader {d : Date} {second nano : Nat} {clockText : List Char}
    (hdate : d.isValid = true) (hsecond : second < 86400)
    (hclock : Reads clock (clockText ++ ['Z']) (second, nano) ['Z']) :
    Reads reader ((yearText d.year).toList ++ '-' :: ((padded 2 d.month).toList ++
      '-' :: ((padded 2 d.day).toList ++ 'T' :: (clockText ++ ['Z'])))) ⟨d, second, nano⟩ [] := by
  have hseparator : Reads separator ('T' :: (clockText ++ ['Z'])) () (clockText ++ ['Z']) :=
    reads_bind reads_get reads_set
  have hend : Reads blanks [] () [] := rfl
  have hshifted : shifted d second nano 0 = ⟨d, second, nano⟩ := by
    unfold shifted
    simp only [Int.ofNat_eq_natCast, Int.mul_zero, Int.sub_zero]
    rw [if_neg (by omega), if_pos (by omega), Int.toNat_natCast]
  refine reads_bind (reads_calendar hdate) (reads_bind hseparator (reads_bind hclock ?_))
  refine reads_bind reads_zone (reads_bind hend (reads_bind reads_get ?_))
  simp only [hdate, hshifted]
  exact reads_pure

theorem toList_text {t : Instant} {second nano : Nat}
    (hsecond : (t.second % 60 + if 1000000000 ≤ t.nano then 1 else 0) = second)
    (hnano : (if 1000000000 ≤ t.nano then t.nano - 1000000000 else t.nano) = nano) :
    t.text.toList = (yearText t.date.year).toList ++ '-' :: ((padded 2 t.date.month).toList ++
      '-' :: ((padded 2 t.date.day).toList ++
        'T' :: (clockChars (t.second / 3600) (t.second / 60 % 60) second nano ++ ['Z']))) := by
  subst hsecond hnano
  simp [text, clockChars, String.toList_append]

/-- The text of a point in time tells it. -/
theorem parse_text {t : Instant} (h : t.Valid) : parse t.text = .ok t := by
  have hsecond := h.second
  have hnano := h.nano
  have hread : Reads reader t.text.toList t [] := by
    by_cases hleap : 1000000000 ≤ t.nano
    · have hlast := h.leap hleap
      have hclock := reads_clock [] (by omega : t.second / 3600 ≤ 23)
        (by omega : t.second / 60 % 60 ≤ 59) (Nat.le_refl 60) (by omega : t.nano - 1000000000 < 1000000000)
      rw [if_pos rfl, show 3600 * (t.second / 3600) + 60 * (t.second / 60 % 60) + 59 = t.second by
        omega, Nat.sub_add_cancel hleap] at hclock
      rw [toList_text (by rw [hlast, if_pos hleap]) (if_pos hleap)]
      exact reads_reader h.date hsecond hclock
    · have hclock := reads_clock [] (by omega : t.second / 3600 ≤ 23)
        (by omega : t.second / 60 % 60 ≤ 59) (by omega : t.second % 60 ≤ 60)
        (by omega : t.nano < 1000000000)
      rw [if_neg (by omega), show 3600 * (t.second / 3600) + 60 * (t.second / 60 % 60) +
        t.second % 60 = t.second by omega] at hclock
      rw [toList_text (by rw [if_neg hleap, Nat.add_zero]) (if_neg hleap)]
      exact reads_reader h.date hsecond hclock
  unfold Reads at hread
  rw [parse, hread]
  rfl

/-! ## What a text can tell -/

/-- Whatever the reader takes off a text has the property. -/
def Yields {α : Type} (r : Reader α) (P : α → Prop) : Prop := ∀ s a rest, Reads r s a rest → P a

section Yields

variable {r : Reader α} {P : α → Prop} {Q : β → Prop}

theorem yields_any (r : Reader α) : Yields r fun _ => True := fun _ _ _ _ => trivial

theorem yields_pure (h : P a) : Yields (pure a) P := by
  intro s b rest hread
  cases hread
  exact h

theorem yields_throw (fault : Fault) : Yields (throw fault) P := by
  intro s a rest hread
  cases hread

theorem Yields.bind {next : α → Reader β} (h : Yields r P) (hnext : ∀ a, P a → Yields (next a) Q) :
    Yields (r >>= next) Q := by
  intro s b rest hread
  unfold Reads at hread
  rw [StateT.run_bind] at hread
  cases hrun : r.run s with
  | error fault =>
    rw [hrun] at hread
    cases hread
  | ok taken =>
    rw [hrun] at hread
    exact hnext taken.1 (h _ _ _ hrun) _ _ _ hread

/-- What is thrown out in one case has been checked in the other. -/
theorem yields_unless {refused : Prop} [Decidable refused] {fault : Fault} {next : Unit → Reader α}
    (h : ¬ refused → Yields (next ()) P) :
    Yields (if refused then throw fault >>= next else next ()) P := by
  split
  · exact (yields_throw fault (P := fun _ => False)).bind fun _ hnever => hnever.elim
  · rename_i hkept
    exact h hkept

end Yields

theorem yields_twoDigits (low high : Nat) :
    Yields (twoDigits low high) fun n => low ≤ n ∧ n ≤ high := by
  refine (yields_any _).bind fun _ _ => ?_
  refine (yields_any _).bind fun n _ => ?_
  split
  · rename_i hbounds
    exact yields_pure (by simpa using hbounds)
  · exact yields_throw _

theorem yields_fraction : Yields fraction fun nano => nano < 1000000000 := by
  refine (yields_any _).bind fun s _ => ?_
  split
  · rename_i rest
    generalize hrun : (rest.take 9).takeWhile (fun c => (digitValue? c).isSome) = run
    have hlength : run.length ≤ 9 := by
      rw [← hrun]
      exact Nat.le_trans (List.takeWhile_prefix _).length_le (List.length_take_le 9 rest)
    dsimp only
    split
    · exact yields_throw _
    · exact yields_throw _
    · refine (yields_any _).bind fun _ _ => ?_
      apply yields_pure
      cases hvalue : numeralValue? 10 digitValue? run with
      | none => simp
      | some n =>
        calc n * 10 ^ (9 - run.length)
            < 10 ^ run.length * 10 ^ (9 - run.length) :=
              Nat.mul_lt_mul_of_pos_right (numeralValue?_lt hvalue) (Nat.pow_pos (by decide))
          _ = 10 ^ 9 := by rw [← Nat.pow_add, Nat.add_sub_of_le hlength]
  · exact yields_pure (by decide)

/-- The clock shows a second of the day, and a leap second only at the end of a minute. -/
theorem yields_clock :
    Yields clock fun t => t.1 < 86400 ∧ t.2 < 2 * 1000000000 ∧
      (1000000000 ≤ t.2 → t.1 % 60 = 59) := by
  refine (yields_twoDigits 0 23).bind fun hour hhour => ?_
  refine (yields_any _).bind fun _ _ => ?_
  refine (yields_twoDigits 0 59).bind fun minute hminute => ?_
  refine (yields_any _).bind fun _ _ => ?_
  refine (yields_twoDigits 0 60).bind fun second hsecond => ?_
  refine yields_fraction.bind fun nano hnano => ?_
  split
  · exact yields_pure (by dsimp only; omega)
  · exact yields_pure (by dsimp only; omega)

/-- An offset of less than a day changes the date, but not the second of the minute. -/
theorem shifted_clock (date : Date) (nano : Nat) {second : Nat} {minutes : Int}
    (hsecond : second < 86400) (hminutes : minutes.natAbs < 24 * 60) :
    (shifted date second nano minutes).second < 86400 ∧
      (shifted date second nano minutes).second % 60 = second % 60 ∧
      (shifted date second nano minutes).nano = nano := by
  unfold shifted
  simp only [Int.ofNat_eq_natCast]
  split
  · dsimp only
    omega
  · split
    · dsimp only
      omega
    · dsimp only
      omega

theorem yields_reader : Yields reader Valid := by
  refine (yields_any _).bind fun date _ => ?_
  refine (yields_any _).bind fun _ _ => ?_
  refine yields_clock.bind fun shown hshown => ?_
  obtain ⟨second, nano⟩ := shown
  obtain ⟨hsecond, hnano, hleap⟩ :
    second < 86400 ∧ nano < 2 * 1000000000 ∧ (1000000000 ≤ nano → second % 60 = 59) := hshown
  refine (yields_any _).bind fun minutes _ => ?_
  refine (yields_any _).bind fun _ _ => ?_
  refine (yields_any _).bind fun left _ => ?_
  refine yields_unless fun _ => ?_
  refine yields_unless fun hrange => ?_
  have hminutes : minutes.natAbs < 24 * 60 := by
    simp only [Bool.or_eq_true, decide_eq_true_eq] at hrange
    omega
  obtain ⟨hday, hminute, hsame⟩ := shifted_clock date nano hsecond hminutes
  dsimp only
  split
  · rename_i hdate
    apply yields_pure
    rw [← hsame] at hnano hleap
    exact ⟨hdate, hday, hnano, fun h => hminute.trans (hleap h)⟩
  · exact yields_throw _

/-- What a text tells exists. -/
theorem valid_of_parse {s : String} {t : Instant} (h : parse s = .ok t) : t.Valid := by
  unfold parse at h
  cases hrun : reader.run s.toList with
  | error fault =>
    rw [hrun] at h
    cases h
  | ok taken =>
    rw [hrun] at h
    cases h
    exact yields_reader _ _ _ hrun

end StubListing.Instant
