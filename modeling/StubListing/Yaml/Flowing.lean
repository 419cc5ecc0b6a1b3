import StubListing.Yaml.Gap
import StubListing.Text.Ascii
/-!
# Texts that flow over lines

Texts in single quotes, in double quotes, and without quotes. All three join their lines in the
same way. Between double quotes characters can be escaped. A text without quotes ends where
something else could begin, and does not hold the white space behind its last word.
-/
namespace StubListing.Yaml
open StubListing.Text

def ofReversed (reversed : List Char) : String := String.ofList reversed.reverse

/-- The character that a letter behind a backslash stands for. -/
def escaped? : Char → Option Char
  | '0' => some '\x00'
  | 'a' => some '\x07'
  | 'b' => some '\x08'
  | 't' => some '\t'
  | '\t' => some '\t'
  | 'n' => some '\n'
  | 'v' => some '\x0b'
  | 'f' => some '\x0c'
  | 'r' => some '\r'
  | 'e' => some '\x1b'
  | ' ' => some ' '
  | '"' => some '"'
  | '/' => some '/'
  | '\\' => some '\\'
  | 'N' => some '\u0085'
  | '_' => some '\u00a0'
  | 'L' => some '\u2028'
  | 'P' => some '\u2029'
  | _ => none

/-- The number of hexadecimal digits that follow a letter behind a backslash. -/
def escapeWidth? : Char → Option Nat
  | 'x' => some 2
  | 'u' => some 4
  | 'U' => some 8
  | _ => none

/-- The character with the code point, unless it is half of a surrogate pair. -/
def scalar? (n : Nat) : Option Char :=
  if n < 0xD800 ∨ (0xE000 ≤ n ∧ n ≤ 0x10FFFF) then some (Char.ofNat n) else none

/-- The character at a backslash, and how many characters its escape takes. -/
def escape (rest : List Char) : Option (Char × Nat) :=
  match rest with
  | _ :: letter :: digits =>
    match escapeWidth? letter with
    | some width =>
      let code := digits.take width
      if code.length = width then do
        let c ← (numeralValue? 16 hexValue? code).bind scalar?
        pure (c, width + 2)
      else none
    | none => (escaped? letter).map fun c => (c, 2)
  | _ => none

/-- The rest of a text behind its opening quote. -/
def quoted (mark : Char) : Nat → Cursor → List Char → Gap → Option (String × Cursor)
  | 0, _, _, _ => none
  | n + 1, cursor, reversed, gap =>
    if cursor.atAnyDocumentMark then none
    else match cursor.rest with
    | [] => none
    | c :: rest =>
      if isGap c then quoted mark n (cursor.forward 1) reversed (gap.blank c)
      else match cursor.lineEnd? with
      | some (c, next) => quoted mark n next reversed (gap.lineEnd c)
      | none =>
        let sofar := gap.onto reversed
        if c = mark then
          if mark = '\'' ∧ rest.head? = some '\'' then
            quoted mark n (cursor.forward 2) ('\'' :: sofar) .none
          else some (ofReversed sofar, cursor.forward 1)
        else if mark = '"' ∧ c = '\\' then
          match (cursor.forward 1).lineEnd? with
          | some (_, next) => quoted mark n next sofar .joined
          | none =>
            match escape (c :: rest) with
            | some (c, width) => quoted mark n (cursor.forward width) (c :: sofar) .none
            | none => none
        else quoted mark n (cursor.forward 1) (c :: sofar) .none

/-- The characters that part the elements of lists and objects in brackets. -/
def isFlowMark (c : Char) : Bool := c = ',' || c = '[' || c = ']' || c = '\x7b' || c = '\x7d'

/-- What follows a text without quotes, or that it is wrong. -/
inductive PlainEnd where
  | wrong
  | here
  | further
  deriving DecidableEq, Repr

/-- Whether a text without quotes goes on with the character that is not white space. `inside`
says that it stands in brackets, and `margin` is the column that further lines have to reach. -/
def plainEnd (inside : Bool) (margin : Nat) (cursor : Cursor) (gap : Gap) (c : Char)
    (rest : List Char) : PlainEnd :=
  if !gap.isNone && ((!inside && cursor.mark.column < margin) || c = '#') then .here
  else if cursor.atAnyDocumentMark then .here
  else if inside && c = ':' &&
      (rest.head?.any fun x => x = '?' || isFlowMark x) then .wrong
  else if c = ':' && endsWord rest then .here
  else if inside && isFlowMark c then .here
  else .further

/-- The rest of a text without quotes. The white space behind it is passed over, and it is told
whether a line has ended there. -/
def plain (inside : Bool) (margin : Nat) : Nat → Cursor → List Char → Gap →
    Option (String × Cursor × Bool)
  | 0, _, _, _ => none
  | n + 1, cursor, reversed, gap =>
    match cursor.rest with
    | [] => some (ofReversed reversed, cursor, gap.folded)
    | c :: rest =>
      if isGap c then
        if gap.folded && cursor.mark.column < margin && c = '\t' then none
        else plain inside margin n (cursor.forward 1) reversed (gap.blank c)
      else match cursor.lineEnd? with
      | some (c, next) => plain inside margin n next reversed (gap.lineEnd c)
      | none =>
        match plainEnd inside margin cursor gap c rest with
        | .wrong => none
        | .here => some (ofReversed reversed, cursor, gap.folded)
        | .further =>
          plain inside margin n (cursor.forward 1) (c :: gap.onto reversed) .none

end StubListing.Yaml
