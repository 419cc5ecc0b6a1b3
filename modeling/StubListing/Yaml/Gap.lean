import StubListing.Yaml.Mark
/-!
# White space between words

Words of one text may stand in several lines. White space between two words of a line belongs to
the text. A single line end counts as a blank, and of several line ends the first is left out.
What stands between two words is gathered until the second one is met.
-/
namespace StubListing.Yaml

/-- The white space since the last word, last character first: blanks of the line, the first line
end, and further ones. Behind a line end blanks are let go. `folded` says that a line has ended. -/
structure Gap where
  blanks : List Char
  first : Option Char
  further : List Char
  folded : Bool
  deriving DecidableEq, Repr, Inhabited

namespace Gap

def none : Gap := ⟨[], Option.none, [], false⟩

/-- A line that has ended without a line end of its own. -/
def joined : Gap := ⟨[], Option.none, [], true⟩

def isNone (g : Gap) : Bool := g.blanks.isEmpty && !g.folded

def blank (g : Gap) (c : Char) : Gap := if g.folded then g else { g with blanks := c :: g.blanks }

def lineEnd (g : Gap) (c : Char) : Gap :=
  if g.folded then { g with further := c :: g.further } else ⟨[], some c, [], true⟩

/-- What the white space counts as, last character first, put in front of what precedes it. -/
def onto (g : Gap) (reversed : List Char) : List Char :=
  if g.folded then
    match g.first with
    | some '\n' => if g.further.isEmpty then ' ' :: reversed else g.further ++ reversed
    | some c => g.further ++ c :: reversed
    | Option.none => g.further ++ reversed
  else g.blanks ++ reversed

@[simp] theorem onto_none (reversed : List Char) : none.onto reversed = reversed := rfl

end Gap

end StubListing.Yaml
