import StubListing.Yaml.Flowing
import StubListing.Yaml.Property
/-!
# Tokens of YAML

A text is cut into tokens. Some of them stand for no character: indentation opens and closes
lists and objects, and what stands before a colon turns out to have been a key. So a place where a
key may begin is remembered until the colon comes or cannot come any more, and the tokens before
it are completed then.
-/
namespace StubListing.Yaml

/-- How a text is written; all ways of quoting it are alike for a reader, but for the lines behind
a bar. -/
inductive Style where
  | plain
  | quoted
  | bar
  deriving DecidableEq, Repr, Inhabited

/-- A token. `dash` begins an element of a list and `comma` parts elements in brackets. -/
inductive Token where
  | directive (directive : Directive)
  | documentStart
  | documentEnd
  | textEnd
  | blockList
  | blockObject
  | blockEnd
  | listOpen
  | listClose
  | objectOpen
  | objectClose
  | dash
  | comma
  | key
  | value
  | mention (name : String)
  | name (name : String)
  | tag (spelling : TagSpelling)
  | scalar (text : String) (style : Style)
  deriving DecidableEq, Repr, Inhabited

/-- A place where a key may have begun: the number of tokens before it, its position, and whether
nothing else than a key can be there. -/
structure Candidate where
  count : Nat
  mark : Mark
  required : Bool
  deriving DecidableEq, Repr, Inhabited

/-- A text in the course of being cut. `margin` is one more than the column of the innermost
indented list or object and zero outside of all, `outer` are the margins around it. `candidates`
has one place for the outermost level and one for every open bracket, innermost first. `allowed`
says that a key may begin here. Tokens are kept last one first. -/
structure Cutting where
  cursor : Cursor
  margin : Nat
  outer : List Nat
  candidates : List (Option Candidate)
  allowed : Bool
  reversed : List Token
  count : Nat
  deriving Inhabited

/-- How far a colon may be from the beginning of its key. -/
def keyReach : Nat := 1024

namespace Cutting

def start (text : List Char) : Cutting := ⟨⟨text, .start⟩, 0, [], [none], true, [], 0⟩

def inside (s : Cutting) : Bool := 1 < s.candidates.length

def column (s : Cutting) : Nat := s.cursor.mark.column

def push (s : Cutting) (t : Token) : Cutting :=
  { s with reversed := t :: s.reversed, count := s.count + 1 }

/-- A token more behind the first `count` of them. -/
def insert (s : Cutting) (count : Nat) (t : Token) : Cutting :=
  let later := s.count - count
  { s with reversed := s.reversed.take later ++ t :: s.reversed.drop later, count := s.count + 1 }

/-- Past some characters of a line. -/
def forward (s : Cutting) (n : Nat) : Cutting := { s with cursor := s.cursor.forward n }

/-- Close what is indented further than the column. Margins count from one. -/
def closeTo (margin : Nat) : List Nat → Cutting → Cutting
  | [], s => s
  | outer :: rest, s =>
    if margin < s.margin then
      closeTo margin rest { s.push .blockEnd with margin := outer, outer := rest }
    else s

/-- Close what is indented further than the column of the place; in brackets nothing is. -/
def unindent (s : Cutting) (margin : Nat) : Cutting :=
  if s.inside then s else closeTo margin s.outer s

/-- Open a list or an object at the column unless it is open, in front of the tokens behind the
first `count`. -/
def indent (s : Cutting) (column count : Nat) (t : Token) : Cutting :=
  if s.inside || column < s.margin then s
  else { s.insert count t with margin := column + 1, outer := s.margin :: s.outer }

/-- Give up the place where a key may have begun, unless there has to be one. -/
def dropCandidate (s : Cutting) : Option Cutting :=
  match s.candidates with
  | some c :: rest => if c.required then none else some { s with candidates := none :: rest }
  | _ => some s

/-- Remember the place as one where a key may begin. -/
def saveCandidate (s : Cutting) : Option Cutting :=
  if s.allowed then do
    let s ← s.dropCandidate
    let c : Candidate := ⟨s.count, s.cursor.mark, !s.inside && s.margin = s.column + 1⟩
    pure { s with candidates := some c :: s.candidates.drop 1 }
  else some s

/-- The key that the colon at the place belongs to is on the same line and not too far. -/
def reaches (s : Cutting) (c : Candidate) : Bool :=
  c.mark.line = s.cursor.mark.line && s.cursor.mark.index ≤ c.mark.index + keyReach

/-! ## From token to token -/

/-- Past white space, comments and empty lines. A tab may not stand where a key may. Outside of
brackets a new line may begin with a key. -/
def skipSpace : Nat → Cutting → Cutting
  | 0, s => s
  | n + 1, s =>
    let cursor := if s.column = 0 && s.cursor.rest.head? = some '\ufeff' then s.cursor.forward 1
      else s.cursor
    let cursor := cursor.skipWhile fun c => c = ' ' || ((s.inside || !s.allowed) && c = '\t')
    let cursor := if cursor.rest.head? = some '#' then cursor.skipWhile fun c => !isBreak c
      else cursor
    match cursor.lineEnd? with
    | some (_, next) => skipSpace n { s with cursor := next, allowed := s.allowed || !s.inside }
    | none => { s with cursor }

/-- A token of `width` characters. -/
def mark (s : Cutting) (width : Nat) (t : Token) : Cutting := (s.forward width).push t

/-- A directive or the line that begins or ends a document: everything is closed before it. -/
def outermost (s : Cutting) : Option Cutting := do
  let s ← (s.unindent 0).dropCandidate
  pure { s with allowed := false }

def openBracket (s : Cutting) (t : Token) : Option Cutting := do
  let s ← s.saveCandidate
  pure ({ s with candidates := none :: s.candidates, allowed := true }.mark 1 t)

def closeBracket (s : Cutting) (t : Token) : Option Cutting := do
  let s ← s.dropCandidate
  let candidates := if s.inside then s.candidates.drop 1 else s.candidates
  pure ({ s with candidates, allowed := false }.mark 1 t)

def comma (s : Cutting) : Option Cutting := do
  let s ← s.dropCandidate
  pure ({ s with allowed := true }.mark 1 .comma)

/-- A dash before an element. Outside of brackets it stands where a key could. -/
def dash (s : Cutting) : Option Cutting :=
  if !s.inside && !s.allowed then none
  else do
    let s ← (s.indent s.column s.count .blockList).dropCandidate
    pure ({ s with allowed := true }.mark 1 .dash)

/-- A question mark before a key. -/
def key (s : Cutting) : Option Cutting :=
  if !s.inside && !s.allowed then none
  else do
    let s ← (s.indent s.column s.count .blockObject).dropCandidate
    pure ({ s with allowed := !s.inside }.mark 1 .key)

/-- A colon: behind a key whose beginning is remembered, or alone. -/
def value (s : Cutting) : Option Cutting :=
  match s.candidates with
  | some c :: rest =>
    if s.reaches c then
      let s := (s.insert c.count .key).indent c.mark.column c.count .blockObject
      some ({ s with candidates := none :: rest, allowed := false }.mark 1 .value)
    else if c.required then none
    else alone s
  | _ => alone s
where
  /-- A colon without a key on the same line. -/
  alone (s : Cutting) : Option Cutting :=
    if !s.inside && !s.allowed then none
    else
      let s := s.indent s.column s.count .blockObject
      some ({ s with allowed := !s.inside }.mark 1 .value)

/-- A token that may begin a key, read by `read` from the place. -/
def begun {α : Type} (s : Cutting) (read : Cursor → Option (α × Cursor)) (t : α → Token) :
    Option Cutting := do
  let s ← s.saveCandidate
  let (a, cursor) ← read s.cursor
  pure ({ s with cursor, allowed := false }.push (t a))

/-- A text without quotes. A line that ended behind it may be followed by a key. -/
def plainText (s : Cutting) : Option Cutting := do
  let s ← s.saveCandidate
  let (text, cursor, folded) ←
    plain s.inside s.margin (s.cursor.rest.length + 1) s.cursor [] .none
  pure ({ s with cursor, allowed := folded }.push (.scalar text .plain))

def indentedText (s : Cutting) (folds : Bool) : Option Cutting := do
  let s ← s.dropCandidate
  let (text, cursor) ← blockText folds s.margin (s.cursor.forward 1)
  pure ({ s with cursor, allowed := true }.push
    (.scalar text (if folds then .quoted else .bar)))

def quotedText (s : Cutting) (quote : Char) : Option Cutting :=
  s.begun (fun cursor => quoted quote (cursor.rest.length + 1) (cursor.forward 1) [] .none)
    fun text => .scalar text .quoted

/-- The signs that a text without quotes cannot begin with. -/
def isSign (c : Char) : Bool :=
  ['-', '?', ':', ',', '[', ']', '\x7b', '\x7d', '#', '&', '*', '!', '|', '>', '\'', '"', '%', '@',
    '`'].contains c

/-- A text without quotes may begin with the character, which is not white space. -/
def beginsPlain (inside : Bool) (c : Char) (rest : List Char) : Bool :=
  (!isSpace c && !isSign c) || (c = '-' && !rest.head?.any isGap) ||
    (!inside && (c = '?' || c = ':') && !endsWord rest)

/-- The next token, behind white space. Nothing is returned if there can be none. -/
def next (s : Cutting) : Option Cutting :=
  match s.cursor.rest with
  | [] => do pure ((← s.outermost).push .textEnd)
  | c :: rest =>
    let s := s.unindent (s.column + 1)
    if s.column = 0 && c = '%' then do
      let s ← s.outermost
      let (d, cursor) ← directive (s.cursor.forward 1)
      pure ({ s with cursor }.push (.directive d))
    else if s.cursor.atDocumentMark '-' then do pure ((← s.outermost).mark 3 .documentStart)
    else if s.cursor.atDocumentMark '.' then do pure ((← s.outermost).mark 3 .documentEnd)
    else if c = '[' then s.openBracket .listOpen
    else if c = '\x7b' then s.openBracket .objectOpen
    else if c = ']' then s.closeBracket .listClose
    else if c = '\x7d' then s.closeBracket .objectClose
    else if c = ',' then s.comma
    else if c = '-' && endsWord rest then s.dash
    else if c = '?' && (s.inside || endsWord rest) then s.key
    else if c = ':' && (s.inside || endsWord rest) then s.value
    else if c = '*' then s.begun (fun cursor => Yaml.name (cursor.forward 1)) .mention
    else if c = '&' then s.begun (fun cursor => Yaml.name (cursor.forward 1)) .name
    else if c = '!' then s.begun (Yaml.tag s.inside) .tag
    else if c = '|' && !s.inside then s.indentedText false
    else if c = '>' && !s.inside then s.indentedText true
    else if c = '\'' || c = '"' then s.quotedText c
    else if beginsPlain s.inside c rest then s.plainText
    else none

/-- All further tokens. -/
def finish : Nat → Cutting → Option (List Token)
  | 0, _ => none
  | n + 1, s => do
    let s := s.skipSpace (s.cursor.rest.length + 1)
    let ended := s.cursor.rest.isEmpty
    let s ← s.next
    if ended then pure s.reversed.reverse else finish n s

end Cutting

def tokens (text : List Char) : Option (List Token) :=
  if text.all isAllowed then (Cutting.start text).finish (text.length + 1) else none

end StubListing.Yaml
