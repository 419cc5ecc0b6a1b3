/-!
# Characters and positions in YAML

Which characters a text may consist of, which of them end a line or part words, and the position
in a text. Positions matter in YAML: columns tell what belongs to what.
-/
namespace StubListing.Yaml

def isAllowed (c : Char) : Bool :=
  let n := c.toNat
  n == 0x09 || n == 0x0A || n == 0x0D || (0x20 ≤ n && n ≤ 0x7E) || n == 0x85 ||
    (0xA0 ≤ n && n ≤ 0xD7FF) || (0xE000 ≤ n && n ≤ 0xFFFD) || 0x10000 ≤ n

def isGap (c : Char) : Bool := c = ' ' || c = '\t'

def isBreak (c : Char) : Bool :=
  c = '\n' || c = '\r' || c = '\u0085' || c = '\u2028' || c = '\u2029'

def isSpace (c : Char) : Bool := isGap c || isBreak c

def endsWord : List Char → Bool
  | [] => true
  | c :: _ => isSpace c

def endsLine : List Char → Bool
  | [] => true
  | c :: _ => isBreak c

/-- A letter, a digit, a dash or an underscore. -/
def isNameChar (c : Char) : Bool :=
  ('0' ≤ c && c ≤ '9') || ('A' ≤ c && c ≤ 'Z') || ('a' ≤ c && c ≤ 'z') || c = '_' || c = '-'

/-- A position: the number of characters before it, of lines before it, and of characters before
it in its line. -/
structure Mark where
  index : Nat
  line : Nat
  column : Nat
  deriving DecidableEq, Repr, Inhabited

namespace Mark

def start : Mark := ⟨0, 0, 0⟩

def forward (m : Mark) (n : Nat) : Mark := ⟨m.index + n, m.line, m.column + n⟩

/-- The start of the next line, after a line end of so many characters. -/
def nextLine (m : Mark) (n : Nat) : Mark := ⟨m.index + n, m.line + 1, 0⟩

end Mark

/-- What is left of a text, and its position. -/
structure Cursor where
  rest : List Char
  mark : Mark
  deriving Repr, Inhabited

namespace Cursor

def forward (c : Cursor) (n : Nat) : Cursor := ⟨c.rest.drop n, c.mark.forward n⟩

/-- Past the characters at the front that fulfil the condition, which line ends do not. -/
def skipWhile (c : Cursor) (keep : Char → Bool) : Cursor :=
  c.forward (c.rest.takeWhile keep).length

/-- The line end at the front, as the character that stands for it in a text, and what is behind
it. The usual line ends all count as one character. -/
def lineEnd? (c : Cursor) : Option (Char × Cursor) :=
  match c.rest with
  | '\r' :: '\n' :: rest => some ('\n', ⟨rest, c.mark.nextLine 2⟩)
  | x :: rest =>
    if x = '\n' ∨ x = '\r' ∨ x = '\u0085' then some ('\n', ⟨rest, c.mark.nextLine 1⟩)
    else if x = '\u2028' ∨ x = '\u2029' then some (x, ⟨rest, c.mark.nextLine 1⟩)
    else none
  | [] => none

/-- Past the line end at the front, if there is one. -/
def skipLineEnd (c : Cursor) : Cursor :=
  match c.lineEnd? with
  | some (_, next) => next
  | none => c

/-- A line of three equal characters, dashes or dots, which begins or ends a document. -/
def atDocumentMark (c : Cursor) (dash : Char) : Bool :=
  c.mark.column = 0 && c.rest.take 3 = [dash, dash, dash] && endsWord (c.rest.drop 3)

/-- A line that begins or ends a document. -/
def atAnyDocumentMark (c : Cursor) : Bool := c.atDocumentMark '-' || c.atDocumentMark '.'

end Cursor

end StubListing.Yaml
