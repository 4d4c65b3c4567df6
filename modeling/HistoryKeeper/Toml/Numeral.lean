import HistoryKeeper.Toml.Scan

/-!
# TOML numbers, dates and times

A number is tried as a date or time, then as a float, then as an integer: what tells a date is a
dash behind four digits, a time a colon behind a valid hour, a float a point or an exponent.
Underscores may stand between digits. Integers have 64 bits. A float is rounded to the nearest
double; one too large is refused, but a negative one too large is minus infinity.
-/

namespace HistoryKeeper.Toml

open Digits Scan

/-! ### Dates and times -/

/-- Exactly `count` digits, as a number from `low` to `high`. -/
def digits (count low high : Nat) : Scan Nat := do
  let cs ← get
  let front := cs.take count
  if front.length ≠ count || !front.all isDigit then refuse
  set (cs.drop count)
  let n := decimal front
  if n < low || high < n then refuse
  return n

def isLeap (year : Nat) : Bool :=
  year % 4 = 0 && (year % 100 ≠ 0 || year % 400 = 0)

def daysOf (year month : Nat) : Nat :=
  if month = 2 then (if isLeap year then 29 else 28)
  else if month = 4 || month = 6 || month = 9 || month = 11 then 30
  else 31

/-- Whether the text goes on as `count` digits and a mark. -/
def startsWith (count : Nat) (mark : Char) (cs : List Char) : Bool :=
  (cs.take count).length = count && (cs.take count).all isDigit && (cs.drop count).head? = some mark

def date : Scan (List Char) := do
  let year ← digits 4 0 9999
  char '-'
  let month ← digits 2 1 12
  char '-'
  let day ← digits 2 1 31
  if daysOf year month < day then refuse
  return Decimal.padded 4 year ++ '-' :: Decimal.padded 2 month ++ '-' :: Decimal.padded 2 day

/-- Whether the text goes on as a time: an hour and a colon. -/
def startsTime (cs : List Char) : Bool :=
  startsWith 2 ':' cs && decimal (cs.take 2) ≤ 23

/-- The fraction of a second: nine digits are kept, zeros at the end are not shown. -/
def fraction : Scan (List Char) := do
  if !(← optional ['.']) then return []
  let ds ← span1 isDigit
  let shown := ((ds.take 9).reverse.dropWhile (· = '0')).reverse
  return if shown.isEmpty then [] else '.' :: shown

def time : Scan (List Char) := do
  let hour ← digits 2 0 23
  char ':'
  let minute ← digits 2 0 59
  char ':'
  let second ← digits 2 0 60
  let part ← fraction
  return Decimal.padded 2 hour ++ ':' :: Decimal.padded 2 minute ++ ':' ::
    Decimal.padded 2 second ++ part

/-- The distance from universal time, if one is given. A distance of zero shows as positive. -/
def offset : Scan (List Char) := do
  match ← peek with
  | some 'Z' | some 'z' =>
    let _ ← one fun _ => true
    return ['Z']
  | some '+' | some '-' =>
    let negative ← sign
    let hour ← digits 2 0 23
    char ':'
    let minute ← digits 2 0 59
    let mark := if negative && (hour ≠ 0 || minute ≠ 0) then '-' else '+'
    return mark :: Decimal.padded 2 hour ++ ':' :: Decimal.padded 2 minute
  | _ => return []

/-- A date, with a time behind it if there is one. -/
def dateTime : Scan (List Char) := do
  let d ← date
  let cs ← get
  match cs with
  | c :: rest =>
    if (c = 'T' || c = 't' || c = ' ') && startsTime rest then
      set rest
      let t ← time
      let o ← offset
      return d ++ 'T' :: t ++ o
    else return d
  | [] => return d

/-! ### Numbers -/

/-- Digits with underscores between them, the first digit given. -/
def moreDigits (p : Char → Bool) : (fuel : Nat) → Scan (List Char)
  | 0 => pure []
  | fuel + 1 => do
    if ← optional ['_'] then
      let c ← one p
      return c :: (← moreDigits p fuel)
    match ← peek with
    | some c =>
      if p c then
        let c ← one p
        return c :: (← moreDigits p fuel)
      else return []
    | none => return []

/-- Digits with underscores between them. -/
def digitRun (p : Char → Bool) : Scan (List Char) := do
  let c ← one p
  return c :: (← moreDigits p (← get).length)

/-- The digits of a decimal number: a zero stands alone. -/
def wholeDigits : Scan (List Char) := do
  if ← optional ['0'] then return ['0']
  digitRun isDigit

/-- The exponent of a float, if there is one. -/
def exponent : Scan (Option Int) := do
  if (← optional ['e']) || (← optional ['E']) then
    let negative ← sign
    let n := decimal (← digitRun isDigit)
    return some (if negative then -n else n)
  else return none

def special (negative : Bool) : Scan (Option Value) := do
  if ← optional ['i', 'n', 'f'] then return some (.float (Binary64.infinity negative))
  else if ← optional ['n', 'a', 'n'] then return some (.float .nan)
  else return none

/-- An integer of 64 bits. -/
def integerOf (n : Int) : Scan Value :=
  if -Word.size63 ≤ n && n < Word.size63 then pure (.integer n) else refuse

def floatOf (negative : Bool) (ds : List Char) (exponent : Int) : Scan Value :=
  let x := Binary64.ofDecimal negative (decimal ds) exponent
  if x = Binary64.infinity false then refuse else pure (.float x)

/-- A number in another base, behind its mark. -/
def based (base : Nat) : Scan Value := do
  let p (c : Char) : Bool :=
    match hexValue? c with
    | some n => n < base
    | none => false
  let ds ← digitRun p
  integerOf (number base (ds.filterMap hexValue?))

/-- A decimal integer or a float. -/
def decimalNumeral : Scan Value := do
  let negative ← sign
  if let some v ← special negative then return v
  let whole ← wholeDigits
  if ← optional ['.'] then
    let part ← digitRun isDigit
    let e ← exponent
    floatOf negative (whole ++ part) (e.getD 0 - part.length)
  else match ← exponent with
  | some e => floatOf negative whole e
  | none =>
    let n : Int := decimal whole
    integerOf (if negative then -n else n)

/-- A value that starts with a sign or a digit. -/
def numeral : Scan Value := do
  let cs ← get
  if startsWith 4 '-' cs then return .datetime (String.ofList (← dateTime))
  else if startsTime cs then return .datetime (String.ofList (← time))
  else if ← optional ['0', 'x'] then based 16
  else if ← optional ['0', 'o'] then based 8
  else if ← optional ['0', 'b'] then based 2
  else decimalNumeral

end HistoryKeeper.Toml
