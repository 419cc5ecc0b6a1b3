import StubListing.Yaml.Gap
import StubListing.Text.Ascii
/-!
# Texts in indented lines

A text may be given by the lines below its header that are indented far enough. Behind a bar the
lines are kept as they are; behind a `>` neighbouring lines are joined by a blank, unless one of
them starts with white space. The header may tell the indentation, which otherwise is that of the
first line, and whether the line ends at the end of the text are kept.
-/
namespace StubListing.Yaml
open StubListing.Text

/-- What becomes of the line ends at the end of a text: all go, the first one stays, all stay. -/
inductive Ending where
  | strip
  | clip
  | keep
  deriving DecidableEq, Repr

def ending? : Char → Option Ending
  | '+' => some .keep
  | '-' => some .strip
  | _ => none

/-- The indentation that a digit tells; zero is no indentation. -/
def indentation? (c : Char) : Option Nat := (digitValue? c).filter (· ≠ 0)

/-- The header's indentation, if it tells one, and its ending. -/
def blockHeader (rest : List Char) : Option (Option Nat × Ending × List Char) :=
  match rest with
  | [] => some (none, .clip, [])
  | c :: more =>
    match ending? c with
    | some ending =>
      match more with
      | d :: behind =>
        if (digitValue? d).isSome then (indentation? d).map fun n => (some n, ending, behind)
        else some (none, ending, more)
      | [] => some (none, ending, [])
    | none =>
      if (digitValue? c).isSome then do
        let n ← indentation? c
        match more with
        | d :: behind => match ending? d with
          | some ending => pure (some n, ending, behind)
          | none => pure (some n, .clip, more)
        | [] => pure (some n, .clip, [])
      else some (none, .clip, rest)

/-- Past white space and a comment to the end of the line, which nothing else may stand before. -/
def lineRest? (cursor : Cursor) : Option Cursor :=
  let cursor := cursor.skipWhile isGap
  let cursor := if cursor.rest.head? = some '#' then cursor.skipWhile fun c => !isBreak c
    else cursor
  if endsLine cursor.rest then some cursor.skipLineEnd else none

/-- The white space between two lines of a text. -/
structure Spacing where
  cursor : Cursor
  widest : Nat
  ends : List Char
  deriving Inhabited

/-- Pass over the indentation of a line, which is `indent` columns at most if that is known
already, and over empty lines. A tab cannot indent. -/
def spacing (indent : Option Nat) : Nat → Spacing → Option Spacing
  | 0, _ => none
  | n + 1, s =>
    let blanks := (s.cursor.rest.takeWhile (· = ' ')).length
    let taken := match indent with
      | some indent => min blanks (indent - s.cursor.mark.column)
      | none => blanks
    let cursor := s.cursor.forward taken
    let widest := max s.widest cursor.mark.column
    let short := match indent with
      | some indent => cursor.mark.column < indent
      | none => true
    if short && cursor.rest.head? = some '\t' then none
    else match cursor.lineEnd? with
      | some (c, next) => spacing indent n ⟨next, widest, c :: s.ends⟩
      | none => some ⟨cursor, widest, s.ends⟩

/-- What has been read of a text: its characters, the end of the last line, the ends of the empty
lines behind it, all last one first, and whether the last line started with white space. -/
structure Lines where
  reversed : List Char
  last : List Char
  ends : List Char
  indented : Bool
  deriving Inhabited

/-- The characters with what the line ends before the next line count as. -/
def Lines.flush (l : Lines) (folds : Bool) (indented : Bool) : List Char :=
  if folds && l.last = ['\n'] && !l.indented && !indented then
    if l.ends.isEmpty then ' ' :: l.reversed else l.ends ++ l.reversed
  else l.ends ++ (l.last ++ l.reversed)

/-- The lines that are indented by `indent` columns. -/
def lines (folds : Bool) (indent : Nat) : Nat → Cursor → Lines → Option (Lines × Cursor)
  | 0, _, _ => none
  | n + 1, cursor, l =>
    match cursor.rest with
    | [] => some (l, cursor)
    | c :: _ =>
      if cursor.mark.column ≠ indent then some (l, cursor)
      else
        let indented := isGap c
        let body := cursor.rest.takeWhile fun c => !isBreak c
        let cursor := cursor.forward body.length
        let (last, cursor) := match cursor.lineEnd? with
          | some (c, next) => ([c], next)
          | none => ([], cursor)
        match spacing (some indent) (cursor.rest.length + 1) ⟨cursor, 0, []⟩ with
        | none => none
        | some s => lines folds indent n s.cursor
            ⟨body.reverse ++ l.flush folds indented, last, s.ends, indented⟩

/-- A text behind the character that begins it. `margin` is the least column that lines have to
reach. -/
def blockText (folds : Bool) (margin : Nat) (cursor : Cursor) : Option (String × Cursor) := do
  let (told, ending, rest) ← blockHeader cursor.rest
  let cursor ← lineRest? (cursor.forward (cursor.rest.length - rest.length))
  let known := told.map fun n => (margin - 1) + n
  let s ← spacing known (cursor.rest.length + 1) ⟨cursor, 0, []⟩
  let indent := known.getD (max (max s.widest margin) 1)
  let (l, cursor) ← lines folds indent (s.cursor.rest.length + 1) s.cursor ⟨[], [], s.ends, false⟩
  let tail := match ending with
    | .strip => []
    | .clip => l.last
    | .keep => l.ends ++ l.last
  pure (String.ofList (tail ++ l.reversed).reverse, cursor)

end StubListing.Yaml
