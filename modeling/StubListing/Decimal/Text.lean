import StubListing.Decimal.Shortest
/-!
# Decimals as text

Two ways to write a double by its shortest decimal. Both show a point in every finite number.
They differ in where they leave positional notation for an exponent: the one never does, the
other for numbers below `10⁻⁵` and from `10¹⁶` on.
-/
namespace StubListing.Decimal

/-- How doubles are written: whether very large and very small ones get an exponent. -/
structure Style where
  usesExponent : Bool

/-- Positional notation throughout. -/
def Style.positional : Style := ⟨false⟩

/-- Positional notation for numbers of moderate size, and an exponent with its sign and at least
two digits for all others. -/
def Style.scientific : Style := ⟨true⟩

def positionalText (s : Scientific) : String :=
  let digits := Nat.toDigits 10 s.digits
  if 0 ≤ s.exponent then
    String.ofList (digits ++ List.replicate s.exponent.toNat '0') ++ ".0"
  else
    let places := (-s.exponent).toNat
    let padded := List.replicate (places + 1 - digits.length) '0' ++ digits
    let whole := padded.take (padded.length - places)
    let part := padded.drop (padded.length - places)
    String.ofList whole ++ "." ++ String.ofList part

def exponentText (s : Scientific) (leading : Int) : String :=
  let part := match Nat.toDigits 10 s.digits with
    | [] => ""
    | [only] => String.ofList [only]
    | first :: rest => String.ofList [first] ++ "." ++ String.ofList rest
  let size := toString leading.natAbs
  part ++ "e" ++ (if leading < 0 then "-" else "+") ++
    (if size.length < 2 then "0" else "") ++ size

def positiveText (style : Style) (s : Scientific) : String :=
  let leading := s.exponent + Int.ofNat (digitCount s.digits) - 1
  if style.usesExponent && (leading < -5 || 15 < leading) then exponentText s leading
  else positionalText s

/-- A double in the given style. -/
def text (style : Style) (x : Float) : String :=
  let (negative, magnitude) := ofFloat x
  let sign := if negative then "-" else ""
  match magnitude with
  | .undefined => "NaN"
  | .infinite => sign ++ "inf"
  | .zero => sign ++ "0.0"
  | .positive s => sign ++ positiveText style s

end StubListing.Decimal
