/-!
# Joining words

Lines and lists are built by putting one fixed separator between words. Both functions recurse
on the list of words, so a statement about a line is an induction on its words.
-/
namespace StubListing.Text

/-- The words in order, with the separator between neighbours. -/
def joined (separator : String) : List String → String
  | [] => ""
  | [word] => word
  | word :: rest => word ++ separator ++ joined separator rest

/-- One line of the words that are not empty, single spaces between them. -/
def line (words : List String) : String :=
  joined " " (words.filter fun word => !word.isEmpty)

@[simp] theorem joined_nil (separator : String) : joined separator [] = "" := rfl

@[simp] theorem joined_singleton (separator word : String) : joined separator [word] = word := rfl

theorem joined_cons_cons (separator word next : String) (rest : List String) :
    joined separator (word :: next :: rest) =
      word ++ separator ++ joined separator (next :: rest) := rfl

end StubListing.Text
