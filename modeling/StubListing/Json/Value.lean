import StubListing.Text.Ascii
/-!
# Writing JSON texts

Values to be written and their two texts: a compact one, and one with a line for every element,
indented by two blanks a level. Both escape what must be escaped and nothing else, and leave
members in the order given.
-/
namespace StubListing.Json

/-- A value to be written. All numbers that are written are natural ones. -/
inductive Value where
  | null
  | boolean (value : Bool)
  | number (value : Nat)
  | text (value : String)
  | array (items : List Value)
  | object (members : List (String × Value))
  deriving Inhabited

def writtenChar (c : Char) : List Char :=
  if c = '"' then ['\\', '"']
  else if c = '\\' then ['\\', '\\']
  else if c = '\x08' then ['\\', 'b']
  else if c = '\x0c' then ['\\', 'f']
  else if c = '\n' then ['\\', 'n']
  else if c = '\r' then ['\\', 'r']
  else if c = '\t' then ['\\', 't']
  else if c.toNat < 0x20 then
    ['\\', 'u', '0', '0', Text.hexDigit (c.toNat / 16), Text.hexDigit (c.toNat % 16)]
  else [c]

def writtenText (s : String) : List Char :=
  '"' :: s.toList.flatMap writtenChar ++ ['"']

namespace Value

/-- The null of an absent value, and the value otherwise. -/
def ofOption {α : Type} (value : α → Value) : Option α → Value
  | none => .null
  | some a => value a

def texts (values : List String) : Value := .array (values.map .text)

/-- The text of a value that has no elements. -/
def atomText : Value → List Char
  | .null => "null".toList
  | .boolean true => "true".toList
  | .boolean false => "false".toList
  | .number n => Nat.toDigits 10 n
  | .text s => writtenText s
  | .array _ => ['[', ']']
  | .object _ => ['\x7b', '\x7d']

mutual

/-- The characters of the compact text. -/
def compactChars : Value → List Char
  | .array (item :: items) => '[' :: (compactChars item ++ compactItems items)
  | .object ((key, value) :: members) =>
    '\x7b' :: (writtenText key ++ ':' :: (compactChars value ++ compactMembers members))
  | v => v.atomText

/-- The further elements of an array and its end. -/
def compactItems : List Value → List Char
  | [] => [']']
  | item :: items => ',' :: (compactChars item ++ compactItems items)

/-- The further members of an object and its end. -/
def compactMembers : List (String × Value) → List Char
  | [] => ['\x7d']
  | (key, value) :: members =>
    ',' :: (writtenText key ++ ':' :: (compactChars value ++ compactMembers members))

end

/-- The end of a line and the blanks in front of the next one. -/
def newLine (depth : Nat) : List Char := '\n' :: List.replicate (2 * depth) ' '

mutual

/-- The characters of the text in lines, `depth` levels inside others. -/
def prettyChars (depth : Nat) : Value → List Char
  | .array (item :: items) =>
    '[' :: (newLine (depth + 1) ++ prettyChars (depth + 1) item ++ prettyItems depth items)
  | .object ((key, value) :: members) =>
    '\x7b' :: (newLine (depth + 1) ++ writtenText key ++ ':' :: ' ' ::
      (prettyChars (depth + 1) value ++ prettyMembers depth members))
  | v => v.atomText

/-- The further elements of an array and its end. -/
def prettyItems (depth : Nat) : List Value → List Char
  | [] => newLine depth ++ [']']
  | item :: items =>
    ',' :: (newLine (depth + 1) ++ prettyChars (depth + 1) item ++ prettyItems depth items)

/-- The further members of an object and its end. -/
def prettyMembers (depth : Nat) : List (String × Value) → List Char
  | [] => newLine depth ++ ['\x7d']
  | (key, value) :: members =>
    ',' :: (newLine (depth + 1) ++ writtenText key ++ ':' :: ' ' ::
      (prettyChars (depth + 1) value ++ prettyMembers depth members))

end

def compact (v : Value) : String := String.ofList v.compactChars

/-- The text in lines, without an end of the last one. -/
def pretty (v : Value) : String := String.ofList (v.prettyChars 0)

end Value

end StubListing.Json
