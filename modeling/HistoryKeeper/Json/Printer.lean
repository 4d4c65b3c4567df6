import HistoryKeeper.Json.Basic
import HistoryKeeper.Number.Decimal
import HistoryKeeper.Text.Utf8

/-!
# Compact JSON text

`Json.render` writes a value without blanks. Strings keep every character except the quote, the
backslash and the control characters below a space. A double is written with the fewest digits that
read back (`FloatFormat`).
-/

namespace HistoryKeeper.Json

/-! ### Strings -/

def hexDigit (n : Nat) : Char :=
  if n < 10 then Char.ofNat (48 + n) else Char.ofNat (87 + n)

/-- One character of a string literal. -/
def escapeChar (c : Char) : List Char :=
  match c with
  | '"' => ['\\', '"']
  | '\\' => ['\\', '\\']
  | '\x08' => ['\\', 'b']
  | '\x0c' => ['\\', 'f']
  | '\n' => ['\\', 'n']
  | '\r' => ['\\', 'r']
  | '\t' => ['\\', 't']
  | c =>
    if c.toNat < 0x20 then ['\\', 'u', '0', '0', hexDigit (c.toNat / 16), hexDigit (c.toNat % 16)]
    else [c]

def renderString (s : String) : List Char :=
  '"' :: s.toList.flatMap escapeChar ++ ['"']

/-! ### Numbers -/

/-- Where a double is written with a point and no exponent, as the place of its first digit:
`place` digits stand before the point, or `-place` zeros follow it. -/
structure FloatFormat where
  leastPlace : Int
  greatestPlace : Int

/-- From 0.00001 up to, but not including, 10^16. -/
def floatFormat : FloatFormat := ⟨-4, 16⟩

/-- A decimal with at least one digit on each side of the point. -/
def positional (digits : List Char) (place : Int) : List Char :=
  if place ≤ 0 then ['0', '.'] ++ List.replicate (-place).toNat '0' ++ digits
  else
    let places := place.toNat
    let whole := digits.take places ++ List.replicate (places - digits.length) '0'
    let part := digits.drop places
    whole ++ ['.'] ++ (if part.isEmpty then ['0'] else part)

/-- One digit, the others behind a point, and a signed exponent. -/
def scientific (digits : List Char) (place : Int) : List Char :=
  let exponent := place - 1
  let point := if digits.length = 1 then [] else ['.']
  digits.take 1 ++ point ++ digits.drop 1 ++ ['e'] ++
    (if exponent < 0 then ['-'] else ['+']) ++ Decimal.digits exponent.natAbs

/-- A finite double; the sign of zero is kept. -/
def renderFloat (x : Binary64) : List Char :=
  let sign := if x.isNegative then ['-'] else []
  if x.magnitude = 0 then sign ++ ['0', '.', '0']
  else
    let (n, exponent) := x.shortest
    let digits := Decimal.digits n
    let place := exponent + digits.length
    if floatFormat.leastPlace ≤ place && place ≤ floatFormat.greatestPlace then
      sign ++ positional digits place
    else sign ++ scientific digits place

def renderNumber : Number → List Char
  | .integer n => Decimal.ofInt n
  | .float x => renderFloat x

/-! ### Values -/

mutual

def render : Json → List Char
  | null => ['n', 'u', 'l', 'l']
  | bool true => ['t', 'r', 'u', 'e']
  | bool false => ['f', 'a', 'l', 's', 'e']
  | number n => renderNumber n
  | string s => renderString s
  | array [] => ['[', ']']
  | array (item :: items) => '[' :: render item ++ renderItems items
  | object [] => ['\x7b', '\x7d']
  | object ((key, value) :: fields) =>
    '\x7b' :: renderString key ++ ':' :: render value ++ renderFields fields

/-- The rest of an array behind an item. -/
def renderItems : List Json → List Char
  | [] => [']']
  | item :: items => ',' :: render item ++ renderItems items

/-- The rest of an object behind a field. -/
def renderFields : List (String × Json) → List Char
  | [] => ['\x7d']
  | (key, value) :: fields =>
    ',' :: renderString key ++ ':' :: render value ++ renderFields fields

end

def text (j : Json) : String :=
  String.ofList j.render

def toBytes (j : Json) : Bytes :=
  Utf8.encodeChars j.render

end HistoryKeeper.Json
