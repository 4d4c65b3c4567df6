import HistoryKeeper.Number.Word

/-!
# Reading digits

Digits as characters, and the numbers they stand for. `natural64?` reads the whole numbers that
arguments and environment variables give.
-/

namespace HistoryKeeper.Digits

def isDigit (c : Char) : Bool := '0' ≤ c && c ≤ '9'

def digitValue (c : Char) : Nat := c.toNat - 48

/-- The value of a digit, decimal or hexadecimal. -/
def hexValue? (c : Char) : Option Nat :=
  if isDigit c then some (digitValue c)
  else if 'a' ≤ c && c ≤ 'f' then some (c.toNat - 87)
  else if 'A' ≤ c && c ≤ 'F' then some (c.toNat - 55)
  else none

/-- The number with these digits. -/
def number (base : Nat) (digits : List Nat) : Nat :=
  digits.foldl (fun n d => n * base + d) 0

/-- The number of a run of decimal digits. -/
def decimal (cs : List Char) : Nat :=
  number 10 (cs.map digitValue)

/-- A whole number below 2^64 in decimal digits, after a plus sign if there is one. -/
def natural64? (cs : List Char) : Option Nat :=
  let ds :=
    match cs with
    | '+' :: ds => ds
    | ds => ds
  if ds.isEmpty || !ds.all isDigit then none
  else if decimal ds < Word.size64 then some (decimal ds) else none

end HistoryKeeper.Digits
