import HistoryKeeper.Text.Utf8

/-!
# Base64

Three bytes are four symbols of the standard alphabet; one or two bytes at the end are filled up
with padding. Decoding takes exactly what encoding writes: padding has to be there and the unused
bits of the last symbol have to be zero. A fault names the symbol by its byte and its offset.
-/

namespace HistoryKeeper.Base64

inductive Fault where
  | symbol (byte : UInt8) (offset : Nat)
  | lastSymbol (byte : UInt8) (offset : Nat)
  | length (n : Nat)
  | padding
  deriving DecidableEq, Repr

def Fault.message : Fault → String
  | .symbol byte offset =>
    s!"Invalid symbol {byte.toNat}, offset {offset}."
  | .lastSymbol byte offset =>
    s!"Invalid last symbol {byte.toNat}, offset {offset}."
  | .length n => s!"Invalid input length: {n}"
  | .padding => "Invalid padding"

/-! ### Symbols -/

/-- The symbol of six bits. -/
def symbol (n : Nat) : Char :=
  if n < 26 then Char.ofNat (65 + n)
  else if n < 52 then Char.ofNat (71 + n)
  else if n < 62 then Char.ofNat (n - 4)
  else if n = 62 then '+'
  else '/'

/-- The six bits of a symbol. -/
def value? (b : UInt8) : Option Nat :=
  if 65 ≤ b && b ≤ 90 then some (b.toNat - 65)
  else if 97 ≤ b && b ≤ 122 then some (b.toNat - 71)
  else if 48 ≤ b && b ≤ 57 then some (b.toNat + 4)
  else if b = 43 then some 62
  else if b = 47 then some 63
  else none

def paddingByte : UInt8 := 61

/-! ### Encoding -/

def encode : Bytes → List Char
  | [] => []
  | [a] => [symbol (a.toNat / 4), symbol (a.toNat % 4 * 16), '=', '=']
  | [a, b] =>
    [symbol (a.toNat / 4), symbol (a.toNat % 4 * 16 + b.toNat / 16), symbol (b.toNat % 16 * 4), '=']
  | a :: b :: c :: rest =>
    symbol (a.toNat / 4) :: symbol (a.toNat % 4 * 16 + b.toNat / 16) ::
      symbol (b.toNat % 16 * 4 + c.toNat / 64) :: symbol (c.toNat % 64) :: encode rest

/-! ### Decoding -/

/-- The bits of a symbol that has to be one. -/
def bits (b : UInt8) (offset : Nat) : Except Fault Nat :=
  match value? b with
  | some n => .ok n
  | none => .error (.symbol b offset)

/-- Three bytes from four times six bits. -/
def join (p q r s : Nat) : Bytes :=
  [(p * 4 + q / 16).toUInt8, (q % 16 * 16 + r / 4).toUInt8, (r % 4 * 64 + s).toUInt8]

/-- The symbols at the end, at most four, in front of their padding; with the padding's offset once
it has begun, counted from the first of them. Padding may stand behind two symbols or more. -/
def tailBits (offset : Nat) (bytes : Bytes) (index : Nat) (values : List Nat)
    (padding : Option Nat) : Except Fault (List Nat × Nat) :=
  match bytes with
  | [] => .ok (values, match padding with | none => 0 | some first => index - first)
  | b :: bytes =>
    if b = paddingByte then
      if index < 2 then .error (.symbol b (offset + index))
      else tailBits offset bytes (index + 1) values (padding <|> some index)
    else match padding with
    | some first => .error (.symbol paddingByte (offset + first))
    | none => do
      let n ← bits b (offset + index)
      tailBits offset bytes (index + 1) (values ++ [n]) none

/-- The bytes of the symbols at the end; `offset` is where they start. -/
def decodeTail (offset : Nat) (bytes : Bytes) : Except Fault Bytes := do
  let (values, padding) ← tailBits offset bytes 0 [] none
  if values.length < 2 then throw (.length (offset + values.length))
  if (values.length + padding) % 4 ≠ 0 then throw .padding
  let lastByte := (bytes[values.length - 1]?).getD 0
  match values with
  | [p, q] =>
    if q % 16 ≠ 0 then throw (.lastSymbol lastByte (offset + 1))
    return (join p q 0 0).take 1
  | [p, q, r] =>
    if r % 4 ≠ 0 then throw (.lastSymbol lastByte (offset + 2))
    return (join p q r 0).take 2
  | [p, q, r, s] => return join p q r s
  | _ => return []

/-- The bytes of symbols that start at `offset`. The last four, as they may be padded, are the tail,
or what is left over beyond fours. -/
def decodeFrom (offset : Nat) : Bytes → Except Fault Bytes
  | a :: b :: c :: d :: e :: rest => do
    let p ← bits a offset
    let q ← bits b (offset + 1)
    let r ← bits c (offset + 2)
    let s ← bits d (offset + 3)
    let more ← decodeFrom (offset + 4) (e :: rest)
    return join p q r s ++ more
  | bytes => decodeTail offset bytes

/-- The bytes of a text. If one symbol is left over beyond fours and is none, it is the fault that
is reported. -/
def decode (text : Bytes) : Except Fault Bytes :=
  if text.isEmpty then .ok []
  else match text.getLast? with
  | some last =>
    if text.length % 4 = 1 && last ≠ paddingByte && (value? last).isNone then
      .error (.symbol last (text.length - 1))
    else decodeFrom 0 text
  | none => .ok []

end HistoryKeeper.Base64
