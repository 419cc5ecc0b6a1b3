import StubListing.Json.Node
/-!
# Reading JSON texts

From the characters of a text to its tree, in one pass. Every function takes the text that is
left and returns what it read and either the text behind it or how reading stopped. Lists and
objects may be nested to any depth here; how deep they may be where data is wanted is decided by
the reader of the tree.
-/
namespace StubListing.Json
open StubListing.Text

/-- The text behind what was read, or the stop that was met in a value that is passed over. -/
abbrev Rest := Except Stop (List Char)

def isSpace (c : Char) : Bool := c = ' ' || c = '\n' || c = '\t' || c = '\r'

def skipSpace (s : List Char) : List Char := s.dropWhile isSpace

/-! ## Texts -/

/-- What has been read of a text between quotes: the characters so far, last one first, the
first half of a surrogate pair that waits for its second half, and whether there was a half
without the other. -/
structure Quote where
  reversed : List Char
  waiting : Option Nat
  unpaired : Bool

def Quote.start : Quote := ⟨[], none, false⟩

def Quote.push (q : Quote) (c : Char) : Quote :=
  ⟨c :: q.reversed, none, q.unpaired || q.waiting.isSome⟩

/-- A code unit more, which may be half of a surrogate pair. -/
def Quote.pushUnit (q : Quote) (unit : Nat) : Quote :=
  if 0xD800 ≤ unit ∧ unit < 0xDC00 then
    ⟨q.reversed, some unit, q.unpaired || q.waiting.isSome⟩
  else if 0xDC00 ≤ unit ∧ unit < 0xE000 then
    match q.waiting with
    | some high =>
      ⟨Char.ofNat (0x10000 + 0x400 * (high - 0xD800) + (unit - 0xDC00)) :: q.reversed, none,
        q.unpaired⟩
    | none => ⟨q.reversed, none, true⟩
  else q.push (Char.ofNat unit)

/-- The text read, unless a surrogate lacks its other half. -/
def Quote.finish (q : Quote) : Option String :=
  if q.unpaired || q.waiting.isSome then none else some (String.ofList q.reversed.reverse)

/-- A stop inside a text; a surrogate without its other half came first if there was one. -/
def Quote.broken (q : Quote) (stop : Stop) : Break :=
  ⟨if q.unpaired then .malformed else stop, stop⟩

/-- The character that a letter behind a backslash stands for. -/
def escaped? : Char → Option Char
  | '"' => some '"'
  | '\\' => some '\\'
  | '/' => some '/'
  | 'b' => some '\x08'
  | 'f' => some '\x0c'
  | 'n' => some '\n'
  | 'r' => some '\r'
  | 't' => some '\t'
  | _ => none

/-- The four hexadecimal digits of a code unit. A text that ends within four bytes has ended,
whatever these bytes are. -/
def codeUnit (s : List Char) : Except Stop (Nat × List Char) :=
  let front := s.take 4
  if (String.ofList front).utf8ByteSize < 4 then .error .ended
  else match numeralValue? 16 hexValue? front with
    | some n => if front.length = 4 then .ok (n, s.drop 4) else .error .malformed
    | none => .error .malformed

/-- The rest of a text behind its opening quote. -/
def quote : Nat → List Char → Quote → Except Break (Option String × List Char)
  | 0, _, q => .error (q.broken .ended)
  | _, [], q => .error (q.broken .ended)
  | fuel + 1, c :: rest, q =>
    if c = '"' then .ok (q.finish, rest)
    else if c = '\\' then
      match rest with
      | [] => .error (q.broken .ended)
      | 'u' :: rest =>
        match codeUnit rest with
        | .ok (unit, rest) => quote fuel rest (q.pushUnit unit)
        | .error stop => .error (q.broken stop)
      | letter :: rest =>
        match escaped? letter with
        | some c => quote fuel rest (q.push c)
        | none => .error (.of .malformed)
    else if c.toNat < 0x20 then .error (.of .malformed)
    else quote fuel rest (q.push c)

/-! ## Values -/

/-- The word at the front of a text. -/
def word (expected : List Char) (node : Node) (s : List Char) : Node × Rest :=
  if expected.isPrefixOf s then (node, .ok (s.drop expected.length))
  else
    let stop := if s.isPrefixOf expected then Stop.ended else .malformed
    (.broken (.of stop) true, .error stop)

def unreadable (how : Break) (begun : Bool) : Node × Rest := (.broken how begun, .error how.passed)

/-- The stop at a place where something else should stand. -/
def stopAt (s : List Char) : Stop := if s.isEmpty then .ended else .malformed

mutual

/-- The value at the front of a text. -/
def value : Nat → List Char → Node × Rest
  | 0, _ => unreadable (.of .ended) false
  | fuel + 1, s =>
    match skipSpace s with
    | [] => unreadable (.of .ended) false
    | '"' :: rest =>
      match quote (rest.length + 1) rest .start with
      | .ok (text, rest) => (.text text, .ok rest)
      | .error how => unreadable how false
    | '[' :: rest =>
      match skipSpace rest with
      | ']' :: rest => (.array [] none, .ok rest)
      | rest =>
        let (items, rest) := items fuel rest
        (.array items (stopOf rest), rest)
    | '{' :: rest =>
      match skipSpace rest with
      | '}' :: rest => (.object [] none, .ok rest)
      | rest =>
        let (members, rest) := members fuel rest
        (.object members (stopOf rest), rest)
    | c :: rest =>
      if c = 'n' then word ['n', 'u', 'l', 'l'] .null (c :: rest)
      else if c = 't' then word ['t', 'r', 'u', 'e'] (.boolean true) (c :: rest)
      else if c = 'f' then word ['f', 'a', 'l', 's', 'e'] (.boolean false) (c :: rest)
      else if c = '-' || isDigit c then
        match numeral (c :: rest) with
        | .ok (n, rest) => (.number n, .ok rest)
        | .error how => unreadable how true
      else unreadable (.of .malformed) false

/-- The elements of a list, at least one, and its closing bracket. -/
def items : Nat → List Char → List Node × Rest
  | 0, _ => ([], .error .ended)
  | fuel + 1, s =>
    match value fuel s with
    | (item, .error stop) => ([item], .error stop)
    | (item, .ok rest) =>
      match skipSpace rest with
      | ']' :: rest => ([item], .ok rest)
      | ',' :: rest =>
        let (more, rest) := items fuel rest
        (item :: more, rest)
      | rest => ([item], .error (stopAt rest))

/-- The members of an object, at least one, and its closing brace. -/
def members : Nat → List Char → List (Node × Node) × Rest
  | 0, _ => ([], .error .ended)
  | fuel + 1, s =>
    match skipSpace s with
    | '"' :: rest =>
      match quote (rest.length + 1) rest .start with
      | .error how => ([((unreadable how false).1, .null)], .error how.passed)
      | .ok (key, rest) =>
        match skipSpace rest with
        | ':' :: rest =>
          match value fuel rest with
          | (item, .error stop) => ([(.text key, item)], .error stop)
          | (item, .ok rest) =>
            match skipSpace rest with
            | '}' :: rest => ([(.text key, item)], .ok rest)
            | ',' :: rest =>
              let (more, rest) := members fuel rest
              ((.text key, item) :: more, rest)
            | rest => ([(.text key, item)], .error (stopAt rest))
        | rest => ([(.text key, .broken (.of (stopAt rest)) false)], .error (stopAt rest))
    | s => ([((value fuel s).1, .null)], .error (stopAt s))

/-- How reading stopped, if it did. -/
def stopOf : Rest → Option Stop
  | .ok _ => none
  | .error stop => some stop

end

/-- Room enough for every value of a text: each level of it takes a character at least. -/
def fuelFor (s : List Char) : Nat := 2 * s.length + 2

/-- The value at the front of a text and the text behind it. -/
def read (s : List Char) : Node × Rest := value (fuelFor s) s

end StubListing.Json
