import HistoryKeeper.Number.Word

/-!
# Binary floating-point numbers

A `Binary64` is the 64-bit word of an IEEE 754 double. Every finite one is a whole multiple of
2^-1074, `units` says which, so sums, products and quotients are formed exactly on whole numbers and
rounded once, to the nearest double with ties to even (`ofRatio`). Nothing here uses the machine's
floating-point unit.
-/

namespace HistoryKeeper

structure Binary64 where
  bits : UInt64
  deriving DecidableEq, Repr

/-- The quotient rounded to the nearest whole number, a half to the even one. -/
def roundHalfEven (num den : Nat) : Nat :=
  let q := num / den
  let twice := 2 * (num % den)
  if twice < den then q
  else if den < twice then q + 1
  else if q % 2 = 0 then q else q + 1

namespace Binary64

/-! ### Fields of the word -/

def isNegative (x : Binary64) : Bool :=
  x.bits.toNat / Nat.pow 2 63 = 1

def exponentField (x : Binary64) : Nat :=
  x.bits.toNat / Nat.pow 2 52 % Nat.pow 2 11

def fraction (x : Binary64) : Nat :=
  x.bits.toNat % Nat.pow 2 52

def isFinite (x : Binary64) : Bool :=
  x.exponentField < 2047

def isInfinite (x : Binary64) : Bool :=
  x.exponentField = 2047 && x.fraction = 0

def isNaN (x : Binary64) : Bool :=
  x.exponentField = 2047 && x.fraction ≠ 0

/-- The double with this sign, exponent field and fraction. -/
def ofFields (negative : Bool) (exponentField fraction : Nat) : Binary64 :=
  ⟨((if negative then Nat.pow 2 63 else 0) + exponentField * Nat.pow 2 52 + fraction).toUInt64⟩

def zero : Binary64 := ofFields false 0 0

def infinity (negative : Bool) : Binary64 := ofFields negative 2047 0

def nan : Binary64 := ofFields false 2047 (Nat.pow 2 51)

def neg (x : Binary64) : Binary64 :=
  ofFields (!x.isNegative) x.exponentField x.fraction

/-! ### Values of finite doubles -/

/-- The whole number that the significand stands for. -/
def significand (x : Binary64) : Nat :=
  if x.exponentField = 0 then x.fraction else Nat.pow 2 52 + x.fraction

/-- The significand counts multiples of 2 to this power, in units of 2^-1074. -/
def shift (x : Binary64) : Nat :=
  x.exponentField - 1

/-- One in units of 2^-1074. -/
def unit : Nat := Nat.pow 2 1074

/-- The absolute value in units of 2^-1074. -/
def magnitude (x : Binary64) : Nat :=
  x.significand * Nat.pow 2 x.shift

/-- The value in units of 2^-1074. -/
def units (x : Binary64) : Int :=
  if x.isNegative then -(x.magnitude : Int) else x.magnitude

/-! ### Rounding -/

/-- How many binary places a double near `num / den` drops, in units of 2^-1074: the least count
that leaves fewer than 2^53 units. -/
def droppedPlaces (num den : Nat) : Nat :=
  let whole := num * unit / den
  whole.log2 - 52

/-- The double that is `m` multiples of 2 to this power in units of 2^-1074, for `m` up to 2^53 and
from 2^52 on if the power is not zero; infinite above the largest. -/
def ofSignificand (negative : Bool) (m power : Nat) : Binary64 :=
  let (m, power) := if m = Nat.pow 2 53 then (Nat.pow 2 52, power + 1) else (m, power)
  if m < Nat.pow 2 52 then ofFields negative 0 m
  else if 2046 ≤ power then infinity negative
  else ofFields negative (power + 1) (m - Nat.pow 2 52)

/-- The double nearest to `num / den`, a tie to the even one; infinite above the largest. -/
def ofRatio (negative : Bool) (num den : Nat) : Binary64 :=
  let places := droppedPlaces num den
  ofSignificand negative (roundHalfEven (num * unit) (den * Nat.pow 2 places)) places

def ofNat (n : Nat) : Binary64 :=
  ofRatio false n 1

def ofInt (n : Int) : Binary64 :=
  ofRatio (n < 0) n.natAbs 1

/-- `digits · 10 ^ exponent`. Exponents beyond every double are cut off. -/
def ofDecimal (negative : Bool) (digits : Nat) (exponent : Int) : Binary64 :=
  if digits = 0 then ofFields negative 0 0
  else if 400 < exponent then infinity negative
  else if exponent < -400 - digits.log2 then ofFields negative 0 0
  else if 0 ≤ exponent then ofRatio negative (digits * Nat.pow 10 exponent.toNat) 1
  else ofRatio negative digits (Nat.pow 10 (-exponent).toNat)

/-! ### Arithmetic on finite doubles -/

/-- A sum of zero is positive. -/
def add (x y : Binary64) : Binary64 :=
  let s := x.units + y.units
  ofRatio (s < 0) s.natAbs unit

def sub (x y : Binary64) : Binary64 :=
  add x y.neg

def mul (x y : Binary64) : Binary64 :=
  ofRatio (x.isNegative != y.isNegative) (x.magnitude * y.magnitude) (unit * unit)

/-- The quotient by a divisor that is not zero. -/
def div (x y : Binary64) : Binary64 :=
  ofRatio (x.isNegative != y.isNegative) x.magnitude y.magnitude

end Binary64

end HistoryKeeper
