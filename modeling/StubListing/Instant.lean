import StubListing.Text.Blank
import StubListing.Text.Ascii
/-!
# Points in time

The time a manifest was written, read from and written to text in the manner of RFC 3339. A time
is kept in UTC by its calendar date, the second of its day and its nanoseconds. A leap second is
the second before it with a further 10⁹ nanoseconds. Reading accepts any offset from UTC of less
than a day, which moves the date by one day at most; writing always uses UTC.
-/
namespace StubListing

/-- A date of the Gregorian calendar, extended to all years. -/
structure Date where
  year : Int
  month : Nat
  day : Nat
  deriving DecidableEq, Repr, Inhabited

/-- A time in UTC. -/
structure Instant where
  date : Date
  second : Nat
  nano : Nat
  deriving DecidableEq, Repr, Inhabited

namespace Date

/-- Years with a twenty-ninth of February. -/
def isLeap (year : Int) : Bool := year % 4 == 0 && (year % 100 != 0 || year % 400 == 0)

def daysIn (year : Int) (month : Nat) : Nat :=
  if month == 2 then (if isLeap year then 29 else 28)
  else if month == 4 || month == 6 || month == 9 || month == 11 then 30
  else 31

/-- The first year that can be told. -/
def firstYear : Int := -262143

/-- The last year that can be told. -/
def lastYear : Int := 262142

/-- The date exists and its year can be told. -/
def isValid (d : Date) : Bool :=
  firstYear ≤ d.year && d.year ≤ lastYear && 1 ≤ d.month && d.month ≤ 12 && 1 ≤ d.day &&
    d.day ≤ daysIn d.year d.month

def next (d : Date) : Date :=
  if d.day < daysIn d.year d.month then { d with day := d.day + 1 }
  else if d.month < 12 then ⟨d.year, d.month + 1, 1⟩
  else ⟨d.year + 1, 1, 1⟩

def previous (d : Date) : Date :=
  if 1 < d.day then { d with day := d.day - 1 }
  else if 1 < d.month then ⟨d.year, d.month - 1, daysIn d.year (d.month - 1)⟩
  else ⟨d.year - 1, 12, 31⟩

end Date

namespace Instant
open StubListing.Text

/-- Why a text is no time. -/
inductive Fault where
  | tooShort
  | invalid
  | outOfRange
  | tooLong
  | impossible
  deriving DecidableEq, Repr

def Fault.message : Fault → String
  | .tooShort => "premature end of input"
  | .invalid => "input contains invalid characters"
  | .outOfRange => "input is out of range"
  | .tooLong => "trailing input"
  | .impossible => "no possible date and time matching input"

/-- A reader takes a part from the front of a text and hands on the rest. -/
abbrev Reader (α : Type) := StateT (List Char) (Except Fault) α

/-- White space may stand in front of every number and every mark. -/
def blanks : Reader Unit := modify dropBlank

/-- Between one and `width` digits. The largest number a time may hold is `2⁶³ - 1`. -/
def digits (width : Option Nat) : Reader Nat := do
  let s ← get
  let run := (match width with
    | some n => s.take n
    | none => s).takeWhile fun c => (digitValue? c).isSome
  match s, run with
  | [], _ => throw .tooShort
  | _, [] => throw .invalid
  | _, _ =>
    let value := (numeralValue? 10 digitValue? run).getD 0
    if 9223372036854775808 ≤ value then throw .outOfRange
    set (s.drop run.length)
    pure value

/-- A number of at most two digits that lies between the bounds. -/
def twoDigits (low high : Nat) : Reader Nat := do
  blanks
  let n ← digits (some 2)
  if low ≤ n && n ≤ high then pure n else throw .outOfRange

def mark (c : Char) : Reader Unit := do
  blanks
  match ← get with
  | [] => throw .tooShort
  | d :: rest => if d = c then set rest else throw .invalid

/-- A year: four digits at most, or any number of them behind a sign. -/
def year : Reader Int := do
  blanks
  let s ← get
  let n ← match s with
    | '-' :: rest => do
      set rest
      pure (-Int.ofNat (← digits none))
    | '+' :: rest => do
      set rest
      pure (Int.ofNat (← digits none))
    | _ => do pure (Int.ofNat (← digits (some 4)))
  if -2147483648 ≤ n && n < 2147483648 then pure n else throw .outOfRange

/-- A fraction of a second in nanoseconds, if there is one; digits beyond the ninth are let go. -/
def fraction : Reader Nat := do
  match ← get with
  | '.' :: rest => do
    let run := (rest.take 9).takeWhile fun c => (digitValue? c).isSome
    match rest, run with
    | [], _ => throw .tooShort
    | _, [] => throw .invalid
    | _, _ =>
      set ((rest.drop run.length).dropWhile fun c => (digitValue? c).isSome)
      pure ((numeralValue? 10 digitValue? run).getD 0 * Nat.pow 10 (9 - run.length))
  | _ => pure 0

/-- Two characters from the front, as long as the text has two bytes left. -/
def pair (s : List Char) : Except Fault (Char × Char × List Char) :=
  match s with
  | a :: b :: rest => .ok (a, b, rest)
  | [a] => if a.utf8Size < 2 then .error .tooShort else .error .invalid
  | [] => .error .tooShort

/-- An offset from UTC in minutes. -/
def offset : Reader Int := do
  let s ← get
  match s with
  | [] => throw .tooShort
  | sign :: rest =>
    if sign = 'Z' || sign = 'z' then do
      set rest
      pure 0
    else if sign = '+' then ahead rest
    else if sign = '-' || sign = '−' then do pure (-(← ahead rest))
    else throw .invalid
where
  /-- Hours and minutes of two digits each; colons and white space may part them. -/
  ahead (s : List Char) : Reader Int := do
    let (h1, h2, s) ← pair s
    match digitValue? h1, digitValue? h2 with
    | some tens, some ones => do
      let (m1, m2, s) ← pair (s.dropWhile fun c => c = ':' || isBlank c)
      match digitValue? m1, digitValue? m2 with
      | some minuteTens, some minuteOnes => do
        if 6 ≤ minuteTens then throw .outOfRange
        set s
        pure (Int.ofNat (60 * (10 * tens + ones) + 10 * minuteTens + minuteOnes))
      | _, _ => throw .invalid
    | _, _ => throw .invalid

/-- The name of the zone, or an offset from it. -/
def zone : Reader Int := do
  blanks
  let s ← get
  if (s.take 3).map Char.toUpper == ['U', 'T', 'C'] then do
    set (s.drop 3)
    pure 0
  else offset

/-- A clock reading taken `minutes` ahead of UTC, in UTC. -/
def shifted (date : Date) (second nano : Nat) (minutes : Int) : Instant :=
  let moved := Int.ofNat second - 60 * minutes
  if moved < 0 then ⟨date.previous, (moved + 86400).toNat, nano⟩
  else if moved < 86400 then ⟨date, moved.toNat, nano⟩
  else ⟨date.next, (moved - 86400).toNat, nano⟩

/-- The letter or the space between date and time. -/
def separator : Reader Unit := do
  match ← get with
  | [] => throw .tooShort
  | c :: rest => if c = 't' || c = 'T' || c = ' ' then set rest else throw .invalid

/-- A date as it is written, whether it exists or not. -/
def calendar : Reader Date := do
  let year ← year
  mark '-'
  let month ← twoDigits 1 12
  mark '-'
  let day ← twoDigits 1 31
  pure ⟨year, month, day⟩

/-- The second of the day and the nanoseconds. -/
def clock : Reader (Nat × Nat) := do
  let hour ← twoDigits 0 23
  mark ':'
  let minute ← twoDigits 0 59
  mark ':'
  let second ← twoDigits 0 60
  let nano ← fraction
  if second = 60 then pure (3600 * hour + 60 * minute + 59, nano + 1000000000)
  else pure (3600 * hour + 60 * minute + second, nano)

/-- A date, a time of day and a zone, with nothing but white space behind them. Whether the date
exists is asked last. -/
def reader : Reader Instant := do
  let date ← calendar
  separator
  let (second, nano) ← clock
  let minutes ← zone
  blanks
  if !(← get).isEmpty then throw .tooLong
  if !date.isValid || 24 * 60 ≤ minutes.natAbs then throw .outOfRange
  let instant := shifted date second nano minutes
  if instant.date.isValid then pure instant else throw .impossible

/-- The time a text tells. -/
def parse (text : String) : Except Fault Instant := (reader.run text.toList).map (·.1)

/-- A year with four digits at least, behind a sign unless it is one of the years 0 to 9999. -/
def yearText (year : Int) : String :=
  if year < 0 then "-" ++ padded 4 year.natAbs
  else if year ≤ 9999 then padded 4 year.natAbs
  else "+" ++ padded 4 year.natAbs

/-- The fraction of a second with as few of no, three, six or nine digits as it takes. -/
def fractionText (nano : Nat) : String :=
  if nano == 0 then ""
  else if nano % 1000000 == 0 then "." ++ padded 3 (nano / 1000000)
  else if nano % 1000 == 0 then "." ++ padded 6 (nano / 1000)
  else "." ++ padded 9 nano

def text (t : Instant) : String :=
  let leap := 1000000000 ≤ t.nano
  let second := t.second % 60 + if leap then 1 else 0
  let nano := if leap then t.nano - 1000000000 else t.nano
  yearText t.date.year ++ "-" ++ padded 2 t.date.month ++ "-" ++ padded 2 t.date.day ++ "T" ++
    padded 2 (t.second / 3600) ++ ":" ++ padded 2 (t.second / 60 % 60) ++ ":" ++
    padded 2 second ++ fractionText nano ++ "Z"

end Instant

end StubListing
