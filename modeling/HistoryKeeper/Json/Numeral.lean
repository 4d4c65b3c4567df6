import HistoryKeeper.Json.Fault

/-!
# Number literals

A literal is read into a whole significand below 2^64 and a power of ten. Digits that do not fit the
significand are dropped and only move the power. Without a fraction, an exponent or dropped digits
the number is an integer, otherwise a double: the significand rounded to a double, times or divided
by the power rounded to a double. Two roundings can leave the result one step from the nearest.
-/

namespace HistoryKeeper.Json

def isDigit (b : UInt8) : Bool :=
  48 ≤ b && b ≤ 57

def digitValue (b : UInt8) : Nat :=
  b.toNat - 48

/-- The digits at the front, and what follows them. -/
def spanDigits (bytes : Bytes) : List Nat × Bytes :=
  ((bytes.takeWhile isDigit).map digitValue, bytes.dropWhile isDigit)

/-- The significand extended by digits for as long as it stays below `limit`, and how many digits
were left. -/
def gather (limit : Nat) (significand : Nat) (digits : List Nat) : Nat × Nat :=
  match digits with
  | [] => (significand, 0)
  | d :: digits =>
    let next := significand * 10 + d
    if next < limit then gather limit next digits else (significand, digits.length + 1)

def significandLimit : Nat := Word.size64

/-- Exponents from here on are taken for infinite. -/
def exponentLimit : Nat := Word.size31

/-- `x · 10 ^ exponent`. A power beyond 10^308 is no double, so a smaller exponent is taken in steps
of 308; of a significand below 2^64 two steps leave zero. -/
def scale (x : Binary64) (exponent : Int) : (steps : Nat) → Except Fault Binary64
  | 0 => .ok .zero
  | steps + 1 =>
    if exponent.natAbs ≤ 308 then
      let power := Binary64.ofNat (Nat.pow 10 exponent.natAbs)
      if 0 ≤ exponent then
        let product := x.mul power
        if product.isFinite then .ok product else .error .numberOutOfRange
      else .ok (x.div power)
    else if x.magnitude = 0 then .ok x
    else if 0 ≤ exponent then .error .numberOutOfRange
    else scale (x.div (Binary64.ofNat (Nat.pow 10 308))) (exponent + 308) steps

def signed (negative : Bool) (x : Binary64) : Binary64 :=
  if negative then x.neg else x

/-- The double of a literal with these parts. -/
def toBinary64 (negative : Bool) (significand : Nat) (exponent : Int) : Except Fault Binary64 :=
  signed negative <$> scale (Binary64.ofNat significand) exponent 4

/-- What follows the `e` of a literal. -/
def readExponent (negative : Bool) (significand : Nat) (exponent : Int) (bytes : Bytes) :
    Except Fault (Binary64 × Bytes) :=
  let (below, bytes) :=
    match bytes with
    | 43 :: bytes => (false, bytes)
    | 45 :: bytes => (true, bytes)
    | bytes => (false, bytes)
  match spanDigits bytes with
  | ([], []) => .error .endInValue
  | ([], _ :: _) => .error .invalidNumber
  | (digits, rest) =>
    let (n, left) := gather exponentLimit 0 digits
    if left = 0 then do
      let x ← toBinary64 negative significand (if below then exponent - n else exponent + n)
      return (x, rest)
    else if significand ≠ 0 && !below then .error .numberOutOfRange
    else .ok (signed negative .zero, rest)

/-- What follows the significand and its fraction. -/
def readPower (negative : Bool) (significand : Nat) (exponent : Int) (bytes : Bytes) :
    Except Fault (Binary64 × Bytes) :=
  match bytes with
  | 101 :: rest | 69 :: rest => readExponent negative significand exponent rest
  | bytes => do
    let x ← toBinary64 negative significand exponent
    return (x, bytes)

/-- What follows the point of a literal. -/
def readFraction (negative : Bool) (significand : Nat) (exponent : Int) (bytes : Bytes) :
    Except Fault (Binary64 × Bytes) :=
  match spanDigits bytes with
  | ([], []) => .error .endInValue
  | ([], _ :: _) => .error .invalidNumber
  | (digits, rest) =>
    let (significand, left) := gather significandLimit significand digits
    readPower negative significand (exponent - (digits.length - left)) rest

/-- An integer literal. Minus zero and what is below -2^63 are doubles. -/
def ofSignificand (negative : Bool) (n : Nat) : Number :=
  if !negative then .integer n
  else if n = 0 || Word.size63 < n then .float (Binary64.ofNat n).neg
  else .integer (-n)

/-- A literal behind its sign. -/
def readNumeral (negative : Bool) (bytes : Bytes) : Except Fault (Number × Bytes) :=
  match spanDigits bytes with
  | ([], []) => .error .endInValue
  | ([], _ :: _) => .error .invalidNumber
  | (0 :: _ :: _, _) => .error .invalidNumber
  | (digits, rest) =>
    let (significand, left) := gather significandLimit 0 digits
    match rest with
    | 46 :: rest => do
      let (x, rest) ← readFraction negative significand left rest
      return (.float x, rest)
    | 101 :: _ | 69 :: _ => do
      let (x, rest) ← readPower negative significand left rest
      return (.float x, rest)
    | rest =>
      if left = 0 then .ok (ofSignificand negative significand, rest)
      else do
        let x ← toBinary64 negative significand left
        return (.float x, rest)

end HistoryKeeper.Json
