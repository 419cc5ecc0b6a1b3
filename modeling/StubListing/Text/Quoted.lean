import StubListing.Text.Unshown
import StubListing.Text.Ascii
/-!
# Quoted text in messages

A text found where something else was wanted is shown between double quotes. Quotes, backslashes
and the usual controls are written with a backslash, and characters that would not be seen by
their code point in hexadecimal digits.
-/
namespace StubListing.Text

/-- A character of a quoted text. -/
def quotedChar (c : Char) : List Char :=
  if c = '"' then ['\\', '"']
  else if c = '\\' then ['\\', '\\']
  else if c = '\n' then ['\\', 'n']
  else if c = '\r' then ['\\', 'r']
  else if c = '\t' then ['\\', 't']
  else if c = '\x00' then ['\\', '0']
  else if isUnshown c then "\\u\x7b".toList ++ Nat.toDigits 16 c.toNat ++ ['\x7d']
  else [c]

def quotedText (s : String) : String :=
  "\"" ++ String.ofList (s.toList.flatMap quotedChar) ++ "\""

end StubListing.Text
