/-!
# Shortest decimals of floating-point numbers

A finite double is a rational number, and every rational in a small interval around it reads
back as the same double. Of all decimals in that interval, the shortest one has the fewest
digits, and of several with the same count it is the nearest.

* `Span` — a positive double and the interval of rationals that round to it;
* `Span.shortest` — the decimal with the fewest digits inside the interval;
* `Decimal.positional` — a decimal written out without an exponent;
* `Double.positional` — the text of any double.
-/

namespace ReplicaRing

/-- The number `digits * 10 ^ exponent`. -/
structure Decimal where
  digits : Nat
  exponent : Int
  deriving DecidableEq, Repr

namespace Decimal

/-- A decimal in positional notation, without a point if it is an integer. -/
def positional (x : Decimal) : String :=
  let ds := Nat.toDigits 10 x.digits
  let places := (-x.exponent).toNat
  if places = 0 then String.ofList (ds ++ List.replicate x.exponent.toNat '0')
  else
    let padded := List.replicate (places + 1 - ds.length) '0' ++ ds
    String.ofList (padded.take (padded.length - places) ++ '.' ::
      padded.drop (padded.length - places))

end Decimal

/-- The power of two with a given exponent; one if the exponent is negative. -/
def powerOfTwo (exponent : Int) : Nat := Nat.pow 2 exponent.toNat

/-- The power of ten with a given exponent; one if the exponent is negative. -/
def powerOfTen (exponent : Int) : Nat := Nat.pow 10 exponent.toNat

/-- A positive number `value / scale` with the ends `low / scale` and `high / scale` of the
interval of numbers that round to it. -/
structure Span where
  low : Nat
  value : Nat
  high : Nat
  scale : Nat
  closed : Bool
  deriving Repr

namespace Span

/-- The span of the double `mantissa * 2 ^ exponent`. The gap below a power of two is half as
wide as the gap above it (`narrow`); the ends belong to the interval iff the mantissa is even. -/
def ofDouble (mantissa : Nat) (exponent : Int) (narrow : Bool) : Span :=
  let up := powerOfTwo exponent
  { low := (4 * mantissa - if narrow then 1 else 2) * up
    value := 4 * mantissa * up
    high := (4 * mantissa + 2) * up
    scale := 4 * powerOfTwo (-exponent)
    closed := mantissa % 2 == 0 }

/-- Whether `x * 10 ^ g` lies in the interval. -/
def covers (s : Span) (g : Int) (x : Nat) : Bool :=
  let shift := powerOfTen (-g)
  let y := x * (s.scale * powerOfTen g)
  if s.closed then s.low * shift ≤ y && y ≤ s.high * shift
  else s.low * shift < y && y < s.high * shift

/-- The multiple of `10 ^ g` in the interval that is nearest to the value, upwards on a tie. -/
def onGrid? (s : Span) (g : Int) : Option Nat :=
  let unit := s.scale * powerOfTen g
  let target := s.value * powerOfTen (-g)
  let below := target / unit
  match s.covers g below, s.covers g (below + 1) with
  | true, true => some (if 2 * (target - below * unit) < unit then below else below + 1)
  | true, false => some below
  | false, true => some (below + 1)
  | false, false => none

/-- Try the grids from `10 ^ g` downwards. -/
def search (s : Span) : Nat → Int → Decimal
  | 0, g => ⟨s.value * powerOfTen (-g) / (s.scale * powerOfTen g), g⟩
  | fuel + 1, g =>
    match s.onGrid? g with
    | some x => if x = 0 then search s fuel (g - 1) else ⟨x, g⟩
    | none => search s fuel (g - 1)

/-- The decimal with the fewest digits in the interval. Seventeen digits always suffice, and the
first grid tried is at most two places above the leading digit. -/
def shortest (s : Span) : Decimal :=
  let lead : Int := (Nat.toDigits 10 s.value).length - (Nat.toDigits 10 s.scale).length
  s.search 24 (lead + 1)

end Span

namespace Double

/-- The sign bit of a double. -/
def isNegative (x : Float) : Bool := x.toBits >>> 63 != 0

/-- The magnitude of a finite double as a mantissa, an exponent of two, and whether it is a power
of two with a narrower gap below. -/
def magnitude (x : Float) : Nat × Int × Bool :=
  let bits : Nat := x.toBits.toNat
  let field : Nat := bits / powerOfTwo 52 % powerOfTwo 11
  let fraction : Nat := bits % powerOfTwo 52
  if field = 0 then (fraction, -1074, false)
  else (powerOfTwo 52 + fraction, (field : Int) - 1075, fraction == 0 && field != 1)

/-- The text of a double: the fewest digits that read back, never an exponent, no point in an
integer, and a sign also on zero. -/
def positional (x : Float) : String :=
  if x.isNaN then "NaN"
  else
    let body :=
      if x.isInf then "inf"
      else
        let (mantissa, exponent, narrow) := magnitude x
        if mantissa = 0 then "0"
        else (Span.ofDouble mantissa exponent narrow).shortest.positional
    if isNegative x then "-" ++ body else body

end Double

end ReplicaRing
