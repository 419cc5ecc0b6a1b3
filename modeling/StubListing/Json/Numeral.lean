import StubListing.Decimal.Text
import StubListing.Decode.Mismatch
import StubListing.Text.Ascii
/-!
# Numbers in JSON

A number is kept as it is spelt until somebody asks for its value. Whole numbers of at most
sixty-four bits are exact. All others become doubles the quick way: the leading digits that fit
into sixty-four bits, multiplied or divided by a power of ten. A number too large for a double is
no number.
-/
namespace StubListing.Json
open StubListing.Text StubListing.Decode

/-- How reading comes to a stop: the text ends, or it is no JSON. -/
inductive Stop where
  | ended
  | malformed
  deriving DecidableEq, Repr

/-- A stop inside a value. Text that is wanted and text that is passed over break off
differently when they end in the middle of a number, so both stops are kept. -/
structure Break where
  wanted : Stop
  passed : Stop
  deriving DecidableEq, Repr

/-- The same stop in either case. -/
def Break.of (stop : Stop) : Break := ⟨stop, stop⟩

/-- The spelling of a number: sign, digits before and behind the point, sign and digits of the
exponent. -/
structure Numeral where
  negative : Bool
  whole : List Char
  part : Option (List Char)
  exponent : Option (Bool × List Char)
  deriving DecidableEq, Repr

def isDigit (c : Char) : Bool := '0' ≤ c && c ≤ '9'

/-- The digits at the front of a text, at least one of them. -/
def someDigits (s : List Char) : Except Break (List Char × List Char) :=
  match s.takeWhile isDigit with
  | [] => .error (if s.isEmpty then ⟨.ended, .malformed⟩ else .of .malformed)
  | digits => .ok (digits, s.dropWhile isDigit)

/-- The digits before the point: a zero stands alone. -/
def wholeDigits (s : List Char) : Except Break (List Char × List Char) :=
  match someDigits s with
  | .ok ('0' :: _ :: _, _) => .error (.of .malformed)
  | result => result

/-- The digits behind the point, if there is one. -/
def partDigits : List Char → Except Break (Option (List Char) × List Char)
  | '.' :: rest => (someDigits rest).map fun (digits, rest) => (some digits, rest)
  | s => .ok (none, s)

def exponentDigits : List Char → Except Break (Option (Bool × List Char) × List Char)
  | c :: rest =>
    if c = 'e' || c = 'E' then
      match rest with
      | '+' :: rest => (someDigits rest).map fun (digits, rest) => (some (false, digits), rest)
      | '-' :: rest => (someDigits rest).map fun (digits, rest) => (some (true, digits), rest)
      | rest => (someDigits rest).map fun (digits, rest) => (some (false, digits), rest)
    else .ok (none, c :: rest)
  | [] => .ok (none, [])

/-- The number at the front of a text without its sign. -/
def unsignedNumeral (negative : Bool) (s : List Char) : Except Break (Numeral × List Char) := do
  let (whole, rest) ← wholeDigits s
  let (part, rest) ← partDigits rest
  let (exponent, rest) ← exponentDigits rest
  pure (⟨negative, whole, part, exponent⟩, rest)

/-- The number at the front of a text, and the text behind it. -/
def numeral : List Char → Except Break (Numeral × List Char)
  | '-' :: rest => unsignedNumeral true rest
  | s => unsignedNumeral false s

/-- The value of a number. -/
inductive Quantity where
  | natural (n : Nat)
  | negative (n : Nat)
  | double (x : Float)
  | outOfRange

namespace Numeral

/-- Digits added to those collected so far while the result fits into sixty-four bits; the
number of digits that were taken. -/
def collect : Nat → List Char → Nat × Nat
  | n, [] => (n, 0)
  | n, c :: rest =>
    let next := 10 * n + (digitValue? c).getD 0
    if next < UInt64.size then
      let (value, taken) := collect next rest
      (value, taken + 1)
    else (n, 0)

/-- A significand times a power of ten, as a double. -/
def scaled : Nat → Float → Int → Option Float
  | 0, x, _ => some x
  | fuel + 1, x, exponent =>
    if exponent.natAbs ≤ 308 then
      let power := Float.ofScientific 1 false exponent.natAbs
      if 0 ≤ exponent then
        let y := x * power
        if y.isInf then none else some y
      else some (x / power)
    else if x == 0.0 then some x
    else if 0 ≤ exponent then none
    else scaled fuel (x / Float.ofScientific 1 false 308) (exponent + 308)

/-- The double that significand and exponent make up, the exponent of the spelling included. -/
def toDouble (n : Numeral) (significand : Nat) (shift : Int) : Quantity :=
  let signed (x : Float) := if n.negative then -x else x
  let result (exponent : Int) := match scaled 16 (UInt64.ofNat significand).toFloat exponent with
    | some x => Quantity.double (signed x)
    | none => .outOfRange
  match n.exponent with
  | none => result shift
  | some (negative, digits) =>
    let size := (numeralValue? 10 digitValue? digits).getD 0
    if size < 2147483648 then result (if negative then shift - size else shift + size)
    else if significand = 0 || negative then .double (signed 0.0)
    else .outOfRange

/-- The value a number is taken for. -/
def value (n : Numeral) : Quantity :=
  let (whole, taken) := collect 0 n.whole
  let left := n.whole.length - taken
  match n.part, n.exponent with
  | none, none =>
    if left ≠ 0 then n.toDouble whole left
    else if !n.negative then .natural whole
    else if whole = 0 || 9223372036854775808 < whole then .double (-(UInt64.ofNat whole).toFloat)
    else .negative whole
  | none, some _ => n.toDouble whole left
  | some part, _ =>
    let (significand, used) := collect whole part
    n.toDouble significand (Int.ofNat left - Int.ofNat used)

end Numeral

/-- A number as it is found where something else is wanted. -/
def Quantity.found? : Quantity → Option Found
  | .natural n => some (.integer n)
  | .negative n => some (.integer (-Int.ofNat n))
  | .double x => some (.floating (Decimal.text .scientific x))
  | .outOfRange => none

end StubListing.Json
