import StubListing.Instant
import StubListing.Text.Join
/-!
# Data that does not fit

A text can be well formed and still not say what is wanted. A mismatch is the first such place
in the order of the text: what was found there and what was expected.
-/
namespace StubListing.Decode

/-- What a text holds at some place. Numbers that are not whole are kept as they are written in
messages. -/
inductive Found where
  | null
  | boolean (value : Bool)
  | integer (value : Int)
  | floating (shown : String)
  | text (shown : String)
  | sequence
  | mapping
  deriving DecidableEq, Repr

/-- What is wanted at some place. -/
inductive Expected where
  | text
  | boolean
  | sequence
  | count
  | path
  | time
  | unit
  | variant
  | record (name : String)
  deriving DecidableEq, Repr

/-- Why data does not fit. -/
inductive Mismatch where
  | wrongType (found : Found) (expected : Expected)
  | negativeCount (value : Int)
  | missingField (name : String)
  | repeatedField (name : String)
  | unknownVariant (name : String) (known : List String)
  | tooFew (given : Nat) (record : String) (fields : Nat)
  | badTime (fault : Instant.Fault)
  deriving DecidableEq, Repr

/-- The name between the marks that set names off in messages. -/
def quoted (name : String) : String := "`" ++ name ++ "`"

def Found.message : Found → String
  | .null => "null"
  | .boolean b => "boolean " ++ quoted (if b then "true" else "false")
  | .integer n => "integer " ++ quoted (toString n)
  | .floating shown => "floating point " ++ quoted shown
  | .text shown => "string " ++ shown
  | .sequence => "sequence"
  | .mapping => "map"

def Expected.message : Expected → String
  | .text => "a string"
  | .boolean => "a boolean"
  | .sequence => "a sequence"
  | .count => "usize"
  | .path => "path string"
  | .time => "an RFC 3339 formatted date and time string"
  | .unit => "unit"
  | .variant => "variant identifier"
  | .record name => "struct " ++ name

def Mismatch.message : Mismatch → String
  | .wrongType found expected =>
    "invalid type: " ++ found.message ++ ", expected " ++ expected.message
  | .negativeCount value =>
    "invalid value: " ++ (Found.integer value).message ++ ", expected " ++ Expected.count.message
  | .missingField name => "missing field " ++ quoted name
  | .repeatedField name => "duplicate field " ++ quoted name
  | .unknownVariant name known =>
    "unknown variant " ++ quoted name ++ ", expected one of " ++
      Text.joined ", " (known.map quoted)
  | .tooFew given record fields =>
    "invalid length " ++ toString given ++ ", expected struct " ++ record ++ " with " ++
      toString fields ++ (if fields == 1 then " element" else " elements")
  | .badTime fault => fault.message

end StubListing.Decode
