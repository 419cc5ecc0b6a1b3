/-!
# Cutting a text at a character

The pieces of a text between the occurrences of one character. There is always at least one
piece, and putting the character back between the pieces gives the text again.
-/
namespace StubListing.Text

/-- The pieces between the occurrences of `mark`, empty ones included. -/
def pieces (mark : Char) : List Char → List (List Char)
  | [] => [[]]
  | c :: rest =>
    if c = mark then [] :: pieces mark rest
    else match pieces mark rest with
      | [] => [[c]]
      | first :: others => (c :: first) :: others

/-- The pieces with `mark` between neighbours. -/
def unpieces (mark : Char) : List (List Char) → List Char
  | [] => []
  | [piece] => piece
  | piece :: rest => piece ++ mark :: unpieces mark rest

theorem pieces_ne_nil (mark : Char) (s : List Char) : pieces mark s ≠ [] := by
  cases s with
  | nil => simp [pieces]
  | cons c rest =>
    simp only [pieces]
    split
    · simp
    · split <;> simp

theorem unpieces_pieces (mark : Char) (s : List Char) : unpieces mark (pieces mark s) = s := by
  induction s with
  | nil => rfl
  | cons c rest ih =>
    simp only [pieces]
    split
    next h =>
      subst h
      cases hp : pieces c rest with
      | nil => exact absurd hp (pieces_ne_nil c rest)
      | cons first others => rw [hp] at ih; simp [unpieces, ih]
    next h =>
      cases hp : pieces mark rest with
      | nil => exact absurd hp (pieces_ne_nil mark rest)
      | cons first others =>
        rw [hp] at ih
        cases others with
        | nil => simpa [unpieces] using ih
        | cons second more => simpa [unpieces] using ih

/-- No piece holds the character the text was cut at. -/
theorem mark_not_mem_of_mem_pieces {mark : Char} {s piece : List Char}
    (h : piece ∈ pieces mark s) : mark ∉ piece := by
  induction s generalizing piece with
  | nil => simp [pieces] at h; subst h; simp
  | cons c rest ih =>
    simp only [pieces] at h
    split at h
    next hc =>
      rcases List.mem_cons.mp h with rfl | h
      · simp
      · exact ih h
    next hc =>
      cases hp : pieces mark rest with
      | nil => exact absurd hp (pieces_ne_nil mark rest)
      | cons first others =>
        rw [hp] at h ih
        rcases List.mem_cons.mp h with rfl | h
        · have := ih (List.mem_cons_self (a := first) (l := others))
          simp only [List.mem_cons, not_or]
          exact ⟨fun e => hc e.symm, this⟩
        · exact ih (List.mem_cons_of_mem _ h)

/-- A text without the character is one piece. -/
theorem pieces_of_not_mem {mark : Char} {s : List Char} (h : mark ∉ s) :
    pieces mark s = [s] := by
  induction s with
  | nil => rfl
  | cons c rest ih =>
    simp only [List.mem_cons, not_or] at h
    have hc : ¬ c = mark := fun e => h.1 e.symm
    simp [pieces, hc, ih h.2]

end StubListing.Text
