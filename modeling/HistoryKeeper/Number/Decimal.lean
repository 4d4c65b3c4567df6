import HistoryKeeper.Number.Binary64

/-!
# Decimal text of numbers

`fixed` writes a double with a given number of decimal places, `shortest` with the fewest digits
that read back as the same double, the nearest of those to its value. Both work on the exact value.
-/

namespace HistoryKeeper

namespace Decimal

def digits (n : Nat) : List Char :=
  Nat.toDigits 10 n

def ofInt (n : Int) : List Char :=
  if n < 0 then '-' :: digits n.natAbs else digits n.natAbs

/-- Digits of `n`, at least `width` of them. -/
def padded (width n : Nat) : List Char :=
  let ds := digits n
  List.replicate (width - ds.length) '0' ++ ds

/-- A number without its trailing zeros, and how many there were. -/
def stripZeros : (fuel : Nat) → Nat → Nat × Nat
  | 0, n => (n, 0)
  | fuel + 1, n =>
    if n % 10 = 0 && n ≠ 0 then
      let (m, zeros) := stripZeros fuel (n / 10)
      (m, zeros + 1)
    else (n, 0)

end Decimal

namespace Binary64

/-- A finite double with `places` decimal places; a tie goes to the even last digit. -/
def fixed (places : Nat) (x : Binary64) : List Char :=
  let scaled := roundHalfEven (x.magnitude * Nat.pow 10 places) unit
  let sign := if x.isNegative then ['-'] else []
  let whole := Decimal.digits (scaled / Nat.pow 10 places)
  if places = 0 then sign ++ whole
  else sign ++ whole ++ ['.'] ++ Decimal.padded places (scaled % Nat.pow 10 places)

/-! ### Fewest digits -/

/-- The reals that round to a positive double lie between `low / scale` and `high / scale`, the
double itself at `value / scale`. The ends belong to them if the significand is even. -/
structure Interval where
  low : Nat
  value : Nat
  high : Nat
  scale : Nat
  closed : Bool

def interval (x : Binary64) : Interval :=
  let gap := Nat.pow 2 x.shift
  let value := 4 * x.magnitude
  let below := if x.fraction = 0 && 1 < x.exponentField then gap else 2 * gap
  { low := value - below
    value := value
    high := value + 2 * gap
    scale := 4 * unit
    closed := x.significand % 2 = 0 }

/-- Whether `num / den` rounds to the double. -/
def Interval.contains (i : Interval) (num den : Nat) : Bool :=
  let point := num * i.scale
  if i.closed then i.low * den ≤ point && point ≤ i.high * den
  else i.low * den < point && point < i.high * den

/-- How far `num / den` is from the double's value, in units that depend on `den` alone. -/
def Interval.distance (i : Interval) (num den : Nat) : Nat :=
  let point := num * i.scale
  let value := i.value * den
  max point value - min point value

/-- The point `n · 10 ^ exponent` of a decimal grid as a ratio. -/
def gridPoint (exponent : Int) (n : Nat) : Nat × Nat :=
  if 0 ≤ exponent then (n * Nat.pow 10 exponent.toNat, 1) else (n, Nat.pow 10 (-exponent).toNat)

/-- The point of the grid of multiples of `10 ^ exponent` that is nearest to the double, of those
that round to it. Only the two neighbours of the value can be. -/
def Interval.nearestOnGrid (i : Interval) (exponent : Int) : Option Nat :=
  let (num, den) := gridPoint exponent 1
  let below := i.value * den / (i.scale * num)
  let fits (n : Nat) : Bool :=
    let (num, den) := gridPoint exponent n
    i.contains num den
  let off (n : Nat) : Nat :=
    let (num, den) := gridPoint exponent n
    i.distance num den
  match fits below, fits (below + 1) with
  | false, false => none
  | true, false => some below
  | false, true => some (below + 1)
  | true, true =>
    if off below < off (below + 1) then some below
    else if off (below + 1) < off below then some (below + 1)
    else if below % 2 = 0 then some below else some (below + 1)

/-- The first grid with a point that rounds to the double, from the coarsest on. -/
def Interval.firstGrid (i : Interval) : (count : Nat) → (exponent : Int) → Nat × Int
  | 0, exponent => ((i.nearestOnGrid exponent).getD 0, exponent)
  | count + 1, exponent =>
    match i.nearestOnGrid exponent with
    | some n => (n, exponent)
    | none => i.firstGrid count (exponent - 1)

/-- An exponent whose power of ten is above the double: three binary places hold less than one
decimal digit. -/
def coarseExponent (x : Binary64) : Int :=
  let bits : Int := (x.magnitude.log2 : Int) - 1074
  if 0 ≤ bits then bits / 3 + 1 else bits * 3 / 10 + 1

/-- The digits `n` and the exponent `e`, `n` without trailing zeros, for which `n · 10 ^ e` is the
shortest decimal that reads back as the positive finite double, and the nearest of those. -/
def shortest (x : Binary64) : Nat × Int :=
  let i := x.interval
  let (n, exponent) := i.firstGrid 64 x.coarseExponent
  let (n, zeros) := Decimal.stripZeros 20 n
  (n, exponent + zeros)

end Binary64

end HistoryKeeper
