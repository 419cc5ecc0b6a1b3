import StubListing.Text.Ascii
/-!
# Decimal digits

A number written in decimal digits is the number that the digits spell, with zeros in front or
without.
-/
namespace StubListing.Text

/-- Every character is a decimal digit. -/
def AllDigits (digits : List Char) : Prop := ∀ c ∈ digits, (digitValue? c).isSome = true

theorem digitValue?_digitChar : ∀ n < 10, digitValue? (Nat.digitChar n) = some n := by decide

/-- One digit more behind those that were read. -/
theorem numeralValue?_append_digit {base n d : Nat} {digits : List Char} {c : Char}
    {value? : Char → Option Nat} (h : numeralValue? base value? digits = some n)
    (hc : value? c = some d) : numeralValue? base value? (digits ++ [c]) = some (base * n + d) := by
  unfold numeralValue? at h ⊢
  rw [List.foldlM_append, h]
  simp [hc]

theorem numeralValue?_toDigits (n : Nat) :
    numeralValue? 10 digitValue? (Nat.toDigits 10 n) = some n := by
  induction n using Nat.strongRecOn with
  | ind n ih =>
    rw [Nat.toDigits_eq_if (by decide)]
    split
    · rename_i hn
      have h := digitValue?_digitChar n hn
      simp [numeralValue?, h]
    · rename_i hn
      have hdigit := digitValue?_digitChar (n % 10) (Nat.mod_lt n (by decide))
      rw [numeralValue?_append_digit (ih (n / 10) (by omega)) hdigit]
      congr 1
      omega

theorem allDigits_toDigits (n : Nat) : AllDigits (Nat.toDigits 10 n) := by
  induction n using Nat.strongRecOn with
  | ind n ih =>
    rw [Nat.toDigits_eq_if (by decide)]
    split
    · rename_i hn
      simp [AllDigits, digitValue?_digitChar n hn]
    · rename_i hn
      intro c hc
      rcases List.mem_append.mp hc with hfront | hlast
      · exact ih (n / 10) (by omega) c hfront
      · rw [List.mem_singleton.mp hlast, digitValue?_digitChar _ (Nat.mod_lt n (by decide))]
        rfl

theorem digitValue?_le {c : Char} {d : Nat} (h : digitValue? c = some d) : d ≤ 9 := by
  unfold digitValue? at h
  split at h
  · rename_i hc
    have hhigh : c.toNat ≤ '9'.toNat := hc.2
    have hd := Option.some.inj h
    simp only [Char.reduceToNat] at hhigh hd
    omega
  · cases h

/-- So many digits spell no larger number. -/
theorem numeralValue?_lt {digits : List Char} {n : Nat}
    (h : numeralValue? 10 digitValue? digits = some n) : n < Nat.pow 10 digits.length := by
  have hfold : ∀ (digits : List Char) (front n : Nat),
      digits.foldlM (fun n c => (digitValue? c).map (10 * n + ·)) front = some n →
        n < (front + 1) * 10 ^ digits.length := by
    intro digits
    induction digits with
    | nil =>
      intro front n hn
      cases hn
      simp
    | cons c rest ih =>
      intro front n hn
      rw [List.foldlM_cons] at hn
      obtain ⟨next, hnext, hrest⟩ := Option.bind_eq_some_iff.mp hn
      obtain ⟨d, hd, rfl⟩ := Option.map_eq_some_iff.mp hnext
      have hle := digitValue?_le hd
      calc n < (10 * front + d + 1) * 10 ^ rest.length := ih _ _ hrest
        _ ≤ (front + 1) * 10 * 10 ^ rest.length := Nat.mul_le_mul_right _ (by omega)
        _ = (front + 1) * 10 ^ (rest.length + 1) := by rw [Nat.mul_assoc, Nat.pow_succ']
  simpa using hfold digits 0 n h

/-! ## Zeros in front -/

theorem toList_padded (width n : Nat) :
    (padded width n).toList =
      List.replicate (width - (Nat.toDigits 10 n).length) '0' ++ Nat.toDigits 10 n := by
  have hlength : n.repr.length = (Nat.toDigits 10 n).length := by
    rw [← String.length_toList, Nat.toList_repr]
  simp only [padded, Nat.toString_eq_repr, String.toList_append, String.toList_ofList,
    Nat.toList_repr, hlength]

theorem numeralValue?_padded (width n : Nat) :
    numeralValue? 10 digitValue? (padded width n).toList = some n := by
  have hzeros : ∀ (k : Nat) (digits : List Char),
      numeralValue? 10 digitValue? (List.replicate k '0' ++ digits) =
        numeralValue? 10 digitValue? digits := by
    intro k digits
    induction k with
    | zero => rfl
    | succ k ih => exact ih
  rw [toList_padded, hzeros, numeralValue?_toDigits]

theorem allDigits_padded (width n : Nat) : AllDigits (padded width n).toList := by
  intro c hc
  rw [toList_padded] at hc
  rcases List.mem_append.mp hc with hzero | hdigit
  · rw [List.eq_of_mem_replicate hzero]
    rfl
  · exact allDigits_toDigits n c hdigit

theorem length_padded {width n : Nat} (hwidth : 0 < width) (hn : n < Nat.pow 10 width) :
    (padded width n).toList.length = width := by
  have := (Nat.length_toDigits_le_iff (by decide : 1 < 10) hwidth).mpr hn
  rw [toList_padded, List.length_append, List.length_replicate]
  omega

theorem padded_ne_nil (width n : Nat) : (padded width n).toList ≠ [] := by
  rw [toList_padded]
  simp

/-- What stands behind digits when they have been read as far as they go. -/
theorem takeWhile_digits {digits rest : List Char} {p : Char → Bool}
    (h : ∀ c ∈ digits, p c = true) (hrest : ∀ c, rest.head? = some c → p c = false) :
    (digits ++ rest).takeWhile p = digits ∧ (digits ++ rest).dropWhile p = rest := by
  have htake : rest.takeWhile p = [] := by
    cases rest with
    | nil => rfl
    | cons c rest => simp [hrest c rfl]
  have hdrop : rest.dropWhile p = rest := by
    cases rest with
    | nil => rfl
    | cons c rest => simp [hrest c rfl]
  exact ⟨by rw [List.takeWhile_append_of_pos h, htake, List.append_nil],
    by rw [List.dropWhile_append_of_pos h, hdrop]⟩

end StubListing.Text
