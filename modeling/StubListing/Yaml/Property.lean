import StubListing.Yaml.BlockText
/-!
# Names, tags and directives

A node can be given a name, to be mentioned again elsewhere, and a tag. A tag is written with a
handle that stands for the first part of it, and directives in front of a document say what
handles stand for.
-/
namespace StubListing.Yaml
open StubListing.Text

/-- A name behind the sign of a name or of its mention. Only some signs may follow it directly. -/
def name (cursor : Cursor) : Option (String × Cursor) :=
  let word := cursor.rest.takeWhile isNameChar
  let next := cursor.forward word.length
  let ended := endsWord next.rest ||
    next.rest.head?.any fun c => ['?', ':', ',', ']', '\x7d', '%', '@', '`'].contains c
  if word.isEmpty || !ended then none else some (String.ofList word, next)

/-- A character that may stand in a tag as it is. -/
def isTagChar (c : Char) : Bool :=
  isNameChar c ||
    [';', '/', '?', ':', '@', '&', '=', '+', '$', '.', '!', '~', '*', '\'', '(', ')'].contains c

/-- The byte that two hexadecimal digits behind a percent sign tell. -/
def tagByte : List Char → Option Nat
  | '%' :: a :: b :: _ => do
    let high ← hexValue? a
    let low ← hexValue? b
    pure (16 * high + low)
  | _ => none

/-- The number of bytes of a character, by the first of them. -/
def bytesOf? (byte : Nat) : Option Nat :=
  if byte < 0x80 then some 1
  else if 0xC0 ≤ byte ∧ byte < 0xE0 then some 2
  else if 0xE0 ≤ byte ∧ byte < 0xF0 then some 3
  else if 0xF0 ≤ byte ∧ byte < 0xF8 then some 4
  else none

/-- The further bytes of a character, collected into its code point. -/
def furtherBytes : Nat → Nat → Cursor → Option (Nat × Cursor)
  | 0, value, cursor => some (value, cursor)
  | n + 1, value, cursor => do
    let byte ← tagByte cursor.rest
    if 0x80 ≤ byte ∧ byte < 0xC0 then furtherBytes n (64 * value + (byte - 0x80)) (cursor.forward 3)
    else none

/-- A character given by its bytes, each behind a percent sign. -/
def tagEscape (cursor : Cursor) : Option (Char × Cursor) := do
  let byte ← tagByte cursor.rest
  let count ← bytesOf? byte
  let first := if count = 1 then byte else byte % (1 <<< (7 - count))
  let (value, cursor) ← furtherBytes (count - 1) first (cursor.forward 3)
  pure (Char.ofNat value, cursor)

/-- The characters of a tag, last one first. In angle brackets some more may stand. -/
def tagChars (bracketed : Bool) : Nat → Cursor → List Char → Option (List Char × Cursor)
  | 0, _, _ => none
  | n + 1, cursor, reversed =>
    match cursor.rest with
    | [] => some (reversed, cursor)
    | c :: _ =>
      if c = '%' then
        match tagEscape cursor with
        | some (c, cursor) => tagChars bracketed n cursor (c :: reversed)
        | none => none
      else if isTagChar c || (bracketed && [',', '[', ']'].contains c) then
        tagChars bracketed n (cursor.forward 1) (c :: reversed)
      else some (reversed, cursor)

/-- The characters of a tag behind those that are known already. -/
def tagText (bracketed : Bool) (cursor : Cursor) (known : List Char) :
    Option (String × Cursor) := do
  let (reversed, cursor) ← tagChars bracketed (cursor.rest.length + 1) cursor known.reverse
  pure (String.ofList reversed.reverse, cursor)

/-- The exclamation mark at the front, name characters behind it, and a closing exclamation mark
if there is one. -/
def tagHandle (cursor : Cursor) : Option (List Char × Cursor) :=
  match cursor.rest with
  | '!' :: rest =>
    let word := rest.takeWhile isNameChar
    let next := cursor.forward (word.length + 1)
    if next.rest.head? = some '!' then some ('!' :: word ++ ['!'], next.forward 1)
    else some ('!' :: word, next)
  | _ => none

/-- A tag as it is written: its handle, and the rest of it. An empty handle stands for nothing. -/
structure TagSpelling where
  handle : String
  suffix : String
  deriving DecidableEq, Repr, Inhabited

/-- A tag in angle brackets, a tag with a handle, or a tag of the document itself. -/
def tagSpelling (cursor : Cursor) : Option (TagSpelling × Cursor) :=
  match cursor.rest with
  | '!' :: '<' :: _ => do
    let (suffix, next) ← tagText true (cursor.forward 2) []
    if suffix.isEmpty || next.rest.head? ≠ some '>' then none
    else pure (⟨"", suffix⟩, next.forward 1)
  | _ => do
    let (handle, next) ← tagHandle cursor
    if 1 < handle.length && handle.getLast? = some '!' then do
      let (suffix, next) ← tagText false next []
      if suffix.isEmpty then none else pure (⟨String.ofList handle, suffix⟩, next)
    else do
      let (suffix, next) ← tagText false next (handle.drop 1)
      if suffix.isEmpty then pure (⟨"", "!"⟩, next) else pure (⟨"!", suffix⟩, next)

/-- A tag, which ends its word; in brackets a comma may follow. -/
def tag (inside : Bool) (cursor : Cursor) : Option (TagSpelling × Cursor) := do
  let (spelling, next) ← tagSpelling cursor
  if endsWord next.rest || (inside && next.rest.head? = some ',') then pure (spelling, next)
  else none

/-- A directive: the version of the notation, or what a handle stands for. -/
inductive Directive where
  | version (major minor : Nat)
  | handle (handle meaning : String)
  deriving DecidableEq, Repr

/-- A number of at most nine digits. -/
def versionNumber (cursor : Cursor) : Option (Nat × Cursor) :=
  let digits := cursor.rest.takeWhile fun c => (digitValue? c).isSome
  if digits.isEmpty || 9 < digits.length then none
  else (numeralValue? 10 digitValue? digits).map fun n => (n, cursor.forward digits.length)

/-- What a directive says behind its name. -/
def directiveBody (word : String) (cursor : Cursor) : Option (Directive × Cursor) :=
  let cursor := cursor.skipWhile isGap
  if word = "YAML" then do
    let (major, cursor) ← versionNumber cursor
    if cursor.rest.head? ≠ some '.' then none
    else do
      let (minor, cursor) ← versionNumber (cursor.forward 1)
      pure (.version major minor, cursor)
  else if word = "TAG" then do
    let (handle, cursor) ← tagHandle cursor
    if handle ≠ ['!'] ∧ (handle.length < 2 ∨ handle.getLast? ≠ some '!') then none
    else if !(cursor.rest.head?.any isGap) then none
    else do
      let (meaning, cursor) ← tagText true (cursor.skipWhile isGap) []
      if meaning.isEmpty || !endsWord cursor.rest then none
      else pure (.handle (String.ofList handle) meaning, cursor)
  else none

/-- A directive behind its percent sign, to the end of its line. -/
def directive (cursor : Cursor) : Option (Directive × Cursor) := do
  let word := cursor.rest.takeWhile isNameChar
  let next := cursor.forward word.length
  if word.isEmpty || !endsWord next.rest then none
  else do
    let (d, next) ← directiveBody (String.ofList word) next
    pure (d, ← lineRest? next)

end StubListing.Yaml
