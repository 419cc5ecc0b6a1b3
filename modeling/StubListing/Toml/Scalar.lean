import StubListing.Text.Ascii
/-!
# Plain values in TOML

Texts, numbers and times at the front of a text. Every function here returns what it read and
the text behind it, or nothing when no such value stands there. A number is only read as far as
it is one; what may follow it is decided by the line it stands in.
-/
namespace StubListing.Toml
open StubListing.Text

def isGap (c : Char) : Bool := c = ' ' || c = '\t'

def skipGap (s : List Char) : List Char := s.dropWhile isGap

def lineEnd? : List Char → Option (List Char)
  | '\n' :: rest => some rest
  | '\r' :: '\n' :: rest => some rest
  | _ => none

/-- Characters that may stand in a comment: all but controls other than the tab. -/
def isVisible (c : Char) : Bool := c = '\t' || (0x20 ≤ c.toNat && c.toNat ≠ 0x7F)

/-- The text behind a comment, if one stands here; the line end stays. -/
def skipComment : List Char → List Char
  | '#' :: rest => rest.dropWhile isVisible
  | s => s

/-! ## Texts -/

/-- The character with the code point, unless it is half of a surrogate pair. -/
def scalar? (n : Nat) : Option Char :=
  if n < 0xD800 ∨ (0xE000 ≤ n ∧ n ≤ 0x10FFFF) then some (Char.ofNat n) else none

/-- The character given by so many hexadecimal digits. -/
def codePoint (width : Nat) (s : List Char) : Option (Char × List Char) :=
  let digits := s.take width
  if digits.length = width then do
    let c ← (numeralValue? 16 hexValue? digits).bind scalar?
    pure (c, s.drop width)
  else none

/-- The character that an escape behind its backslash stands for. -/
def escape : List Char → Option (Char × List Char)
  | 'b' :: rest => some ('\x08', rest)
  | 't' :: rest => some ('\t', rest)
  | 'n' :: rest => some ('\n', rest)
  | 'f' :: rest => some ('\x0c', rest)
  | 'r' :: rest => some ('\r', rest)
  | '"' :: rest => some ('"', rest)
  | '\\' :: rest => some ('\\', rest)
  | 'u' :: rest => codePoint 4 rest
  | 'U' :: rest => codePoint 8 rest
  | _ => none

def ofReversed (reversed : List Char) : String := String.ofList reversed.reverse

/-- The rest of a text between double quotes. -/
def basicText : Nat → List Char → List Char → Option (String × List Char)
  | 0, _, _ => none
  | _, [], _ => none
  | n + 1, c :: rest, reversed =>
    if c = '"' then some (ofReversed reversed, rest)
    else if c = '\\' then do
      let (c, rest) ← escape rest
      basicText n rest (c :: reversed)
    else if isVisible c then basicText n rest (c :: reversed)
    else none

/-- The rest of a text between single quotes, where nothing is escaped. -/
def literalText (s : List Char) : Option (String × List Char) :=
  let keep (c : Char) : Bool := isVisible c && c ≠ '\''
  match s.dropWhile keep with
  | '\'' :: rest => some (String.ofList (s.takeWhile keep), rest)
  | _ => none

/-- The text behind line ends and white space, of which there is a line end at least, with white
space before it. -/
def skipLines? (s : List Char) : Option (List Char) :=
  (lineEnd? (skipGap s)).map fun rest =>
    rest.dropWhile fun c => isGap c || c = '\n' || c = '\r'

/-- The rest of a text over several lines. `mark` is the quote that closes it when it stands
three times; up to two more of them belong to the text. -/
def longText (mark : Char) (escapes : Bool) :
    Nat → List Char → List Char → Option (String × List Char)
  | 0, _, _ => none
  | _, [], _ => none
  | n + 1, c :: rest, reversed =>
    if c = mark then
      let run := (c :: rest).takeWhile (· = mark)
      let behind := (c :: rest).dropWhile (· = mark)
      if run.length < 3 then longText mark escapes n behind (run ++ reversed)
      else if run.length < 6 then some (ofReversed (run.drop 3 ++ reversed), behind)
      else none
    else if escapes && c = '\\' then
      match skipLines? rest with
      | some rest => longText mark escapes n rest reversed
      | none => do
        let (c, rest) ← escape rest
        longText mark escapes n rest (c :: reversed)
    else if isVisible c then longText mark escapes n rest (c :: reversed)
    else match lineEnd? (c :: rest) with
      | some rest => longText mark escapes n rest ('\n' :: reversed)
      | none => none

/-- A text in one of the four ways to write it. -/
def text : List Char → Option (String × List Char)
  | '"' :: '"' :: '"' :: rest =>
    let rest := (lineEnd? rest).getD rest
    longText '"' true (rest.length + 1) rest []
  | '\'' :: '\'' :: '\'' :: rest =>
    let rest := (lineEnd? rest).getD rest
    longText '\'' false (rest.length + 1) rest []
  | '"' :: rest => basicText (rest.length + 1) rest []
  | '\'' :: rest => literalText rest
  | _ => none

/-! ## Numbers -/

/-- The digits that go on a number; a single underscore may stand between two of them. -/
def moreDigits (isDigit : Char → Bool) : List Char → Option (List Char × List Char)
  | [] => some ([], [])
  | '_' :: c :: rest =>
    if isDigit c then (moreDigits isDigit rest).map fun (digits, rest) => (c :: digits, rest)
    else none
  | '_' :: [] => none
  | c :: rest =>
    if isDigit c then (moreDigits isDigit rest).map fun (digits, rest) => (c :: digits, rest)
    else some ([], c :: rest)

def someDigits (isDigit : Char → Bool) : List Char → Option (List Char × List Char)
  | [] => none
  | c :: rest =>
    if isDigit c then (moreDigits isDigit rest).map fun (digits, rest) => (c :: digits, rest)
    else none

def isDigit (c : Char) : Bool := '0' ≤ c && c ≤ '9'

/-- The digits of a whole number: a zero stands alone. -/
def wholeDigits : List Char → Option (List Char × List Char)
  | '0' :: rest => some (['0'], rest)
  | s => someDigits isDigit s

inductive Number where
  | integer (value : Int)
  | double (value : Float)

def valueOf (base : Nat) (digits : List Char) : Nat :=
  (numeralValue? base hexValue? digits).getD 0

/-- The double nearest to a significand times a power of ten; far from one, the power alone
decides. -/
def nearest (significand : Nat) (exponent : Int) : Float :=
  let size := exponent + (toString significand).length
  if significand = 0 ∨ size < -400 then 0.0
  else if 400 < size then 1.0 / 0.0
  else if exponent < 0 then Float.ofScientific significand true exponent.natAbs
  else Float.ofScientific significand false exponent.natAbs

/-- The number is a signed one of sixty-four bits. -/
def integer? (value : Int) : Option Number :=
  if -9223372036854775808 ≤ value ∧ value ≤ 9223372036854775807 then some (.integer value) else none

/-- The sign at the front of a text: it is negative, or there is one at all. -/
def sign : List Char → Bool × Bool × List Char
  | '-' :: rest => (true, true, rest)
  | '+' :: rest => (false, true, rest)
  | s => (false, false, s)

/-- The exponent at the front of a text, if one stands here. -/
def exponent? : List Char → Option (Option (Int × List Char))
  | c :: rest =>
    if c = 'e' ∨ c = 'E' then
      let (negative, _, rest) := sign rest
      some ((someDigits isDigit rest).map fun (digits, rest) =>
        let size : Int := valueOf 10 digits
        (if negative then -size else size, rest))
    else none
  | [] => none

/-- A number with a point or an exponent. Too large is no number, unless it is negative. -/
def double (negative : Bool) (whole part : List Char) (exponent : Int) : Option Number :=
  let x := nearest (valueOf 10 (whole ++ part)) (exponent - part.length)
  if negative then some (.double (-x)) else if x.isInf then none else some (.double x)

def decimal (negative : Bool) (s : List Char) : Option (Number × List Char) := do
  let (whole, rest) ← wholeDigits s
  match rest with
  | '.' :: rest => do
    let (part, rest) ← someDigits isDigit rest
    let (exponent, rest) ← (exponent? rest).getD (some (0, rest))
    pure (← double negative whole part exponent, rest)
  | rest =>
    match exponent? rest with
    | some read => do
      let (exponent, rest) ← read
      pure (← double negative whole [] exponent, rest)
    | none => do
      let value : Int := valueOf 10 whole
      pure (← integer? (if negative then -value else value), rest)

def based (base : Nat) (isDigit : Char → Bool) (s : List Char) : Option (Number × List Char) := do
  let (digits, rest) ← someDigits isDigit s
  pure (← integer? (valueOf base digits), rest)

def isHexDigit (c : Char) : Bool := (hexValue? c).isSome

def number (s : List Char) : Option (Number × List Char) :=
  match s with
  | '0' :: 'x' :: rest => based 16 isHexDigit rest
  | '0' :: 'o' :: rest => based 8 (fun c => '0' ≤ c && c ≤ '7') rest
  | '0' :: 'b' :: rest => based 2 (fun c => '0' ≤ c && c ≤ '1') rest
  | s =>
    match sign s with
    | (negative, _, 'i' :: 'n' :: 'f' :: rest) =>
      some (.double (if negative then -1.0 / 0.0 else 1.0 / 0.0), rest)
    | (_, _, 'n' :: 'a' :: 'n' :: rest) => some (.double (0.0 / 0.0), rest)
    | (negative, _, rest) => decimal negative rest

/-! ## Times -/

/-- So many decimal digits as a number between two bounds. -/
def figures (width low high : Nat) (s : List Char) : Option (Nat × List Char) :=
  let digits := s.take width
  match numeralValue? 10 digitValue? digits with
  | some n => if digits.length = width ∧ low ≤ n ∧ n ≤ high then some (n, s.drop width) else none
  | none => none

def behind (c : Char) : List Char → Option (List Char)
  | x :: rest => if x = c then some rest else none
  | [] => none

def timeOfDay (s : List Char) : Option (List Char) := do
  let (_, rest) ← figures 2 0 23 s
  let (_, rest) ← figures 2 0 59 (← behind ':' rest)
  let (_, rest) ← figures 2 0 60 (← behind ':' rest)
  match rest with
  | '.' :: c :: more => if isDigit c then some (more.dropWhile isDigit) else some rest
  | _ => some rest

/-- The text behind an offset from universal time. -/
def offset : List Char → Option (List Char)
  | 'Z' :: rest => some rest
  | 'z' :: rest => some rest
  | c :: rest =>
    if c = '+' ∨ c = '-' then do
      let (_, rest) ← figures 2 0 23 rest
      let (_, rest) ← figures 2 0 59 (← behind ':' rest)
      pure rest
    else none
  | [] => none

def daysIn (year month : Nat) : Nat :=
  if month = 2 then
    if year % 4 = 0 ∧ (year % 100 ≠ 0 ∨ year % 400 = 0) then 29 else 28
  else if month = 4 ∨ month = 6 ∨ month = 9 ∨ month = 11 then 30
  else 31

def date (s : List Char) : Option (List Char) := do
  let (year, rest) ← figures 4 0 9999 s
  let (month, rest) ← figures 2 1 12 (← behind '-' rest)
  let (_, rest) ← figures 2 1 (daysIn year month) (← behind '-' rest)
  pure rest

/-- The text behind a date, a time of day or both, with or without an offset. -/
def time (s : List Char) : Option (List Char) :=
  match date s with
  | none => timeOfDay s
  | some rest =>
    match rest with
    | c :: more =>
      if c = 'T' ∨ c = 't' ∨ c = ' ' then
        match timeOfDay more with
        | none => some rest
        | some rest => some ((offset rest).getD rest)
      else some rest
    | [] => some []

end StubListing.Toml
