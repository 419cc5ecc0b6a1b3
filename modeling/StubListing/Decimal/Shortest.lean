/-!
# The shortest decimal that reads back

A finite double is a whole number times a power of two, and every real number of an interval
around it is rounded to it. The decimal that stands for a double is the one with the fewest
digits in that interval, and of those the nearest one. Grids of one, two and up to seventeen
digits are tried in turn; on each of them only the two neighbours of the double can be nearest.
All arithmetic is exact.
-/
namespace StubListing.Decimal

/-- A positive decimal: a whole number without zeros at its end, times a power of ten. -/
structure Scientific where
  digits : Nat
  exponent : Int
  deriving DecidableEq, Repr

/-- What a double is apart from its sign. -/
inductive Magnitude where
  | infinite
  | undefined
  | zero
  | positive (value : Scientific)
  deriving DecidableEq, Repr

structure Ratio where
  num : Nat
  den : Nat

def Ratio.scale2 (r : Ratio) (q : Int) : Ratio :=
  if 0 ≤ q then { r with num := r.num <<< q.toNat } else { r with den := r.den <<< (-q).toNat }

def Ratio.scale10 (r : Ratio) (q : Int) : Ratio :=
  if 0 ≤ q then { r with num := r.num * Nat.pow 10 q.toNat }
  else { r with den := r.den * Nat.pow 10 (-q).toNat }

def Ratio.le (r s : Ratio) : Bool := r.num * s.den ≤ s.num * r.den

def digitCount (n : Nat) : Nat := (Nat.toDigits 10 n).length

/-- The exponent of the largest power of ten not above a positive fraction. -/
def Ratio.magnitude (r : Ratio) : Int :=
  if r.den ≤ r.num then Int.ofNat (digitCount (r.num / r.den)) - 1
  else
    let n := digitCount (r.den / r.num)
    if Nat.pow 10 (n - 1) * r.num = r.den then 1 - Int.ofNat n else -Int.ofNat n

/-- The interval of the numbers that are rounded to a double. -/
structure Interval where
  low : Ratio
  value : Ratio
  high : Ratio
  closed : Bool

/-- A number lies in the interval, its ends included if it is closed. -/
def Interval.holds (i : Interval) (r : Ratio) : Bool :=
  if i.closed then i.low.le r && r.le i.high else !r.le i.low && !i.high.le r

/-- The whole number without the zeros at its end, and how many there were; at most `fuel`. -/
def withoutZeros : Nat → Nat → Nat × Nat
  | 0, n => (n, 0)
  | fuel + 1, n =>
    if n ≠ 0 ∧ n % 10 = 0 then
      let (m, zeros) := withoutZeros fuel (n / 10)
      (m, zeros + 1)
    else (n, 0)

/-- The neighbour on the grid of `n` digits that is nearest to the value, if one of the two
neighbours lies in the interval. -/
def Interval.onGrid? (i : Interval) (n : Nat) : Option Scientific :=
  let exponent := i.value.magnitude - Int.ofNat n + 1
  let scaled := i.value.scale10 (-exponent)
  let below := scaled.num / scaled.den
  let rest := scaled.num % scaled.den
  let point (k : Nat) : Ratio := Ratio.scale10 ⟨k, 1⟩ exponent
  let make (k : Nat) : Scientific :=
    let (digits, zeros) := withoutZeros 20 k
    ⟨digits, exponent + Int.ofNat zeros⟩
  let belowFits := i.holds (point below)
  let aboveFits := i.holds (point (below + 1))
  let belowIsNearer := 2 * rest < scaled.den || (2 * rest = scaled.den && below % 2 = 0)
  if belowFits && (belowIsNearer || !aboveFits) then some (make below)
  else if aboveFits then some (make (below + 1))
  else none

/-- The decimal with the fewest digits in the interval, seventeen at most. -/
def Interval.shortest (i : Interval) : Scientific :=
  (((List.range 17).map (· + 1)).findSome? i.onGrid?).getD ⟨0, 0⟩

/-- The interval around `m · 2^q`, which is narrower below when `m` is the least of its size. -/
def intervalOf (m : Nat) (q : Int) (narrow : Bool) : Interval :=
  ⟨Ratio.scale2 ⟨4 * m - (if narrow then 1 else 2), 1⟩ (q - 2),
    Ratio.scale2 ⟨m, 1⟩ q, Ratio.scale2 ⟨4 * m + 2, 1⟩ (q - 2), m % 2 == 0⟩

/-- What the bits of a double mean apart from the sign. -/
def magnitudeOfBits (bits : Nat) : Magnitude :=
  let stored := bits >>> 52 % 2048
  let fraction := bits % (1 <<< 52)
  if stored = 2047 then (if fraction = 0 then .infinite else .undefined)
  else if stored = 0 then
    if fraction = 0 then .zero else .positive (intervalOf fraction (-1074) false).shortest
  else
    .positive (intervalOf ((1 <<< 52) + fraction) (Int.ofNat stored - 1075)
      (fraction == 0 && stored ≠ 1)).shortest

/-- The sign of a double and what it is apart from it. -/
def ofFloat (x : Float) : Bool × Magnitude :=
  let bits := x.toBits.toNat
  (bits >>> 63 == 1, magnitudeOfBits bits)

end StubListing.Decimal
