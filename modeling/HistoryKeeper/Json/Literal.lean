import HistoryKeeper.Json.Fault

/-!
# String literals

The bytes of a literal are collected up to its closing quote and then have to be UTF-8. A code
point beyond 16 bits is escaped as a pair of surrogates; a surrogate alone is refused.
-/

namespace HistoryKeeper.Json

def hexValue (b : UInt8) : Option Nat :=
  if 48 ≤ b && b ≤ 57 then some (b.toNat - 48)
  else if 97 ≤ b && b ≤ 102 then some (b.toNat - 87)
  else if 65 ≤ b && b ≤ 70 then some (b.toNat - 55)
  else none

/-- The number written by four hexadecimal digits. -/
def hexFour (a b c d : UInt8) : Option Nat := do
  return (((← hexValue a) * 16 + (← hexValue b)) * 16 + (← hexValue c)) * 16 + (← hexValue d)

def isLeading (n : Nat) : Bool :=
  0xD800 ≤ n && n ≤ 0xDBFF

def isTrailing (n : Nat) : Bool :=
  0xDC00 ≤ n && n ≤ 0xDFFF

/-- The code point of a surrogate pair. -/
def pairValue (leading trailing : Nat) : Nat :=
  0x10000 + (leading - 0xD800) * 1024 + (trailing - 0xDC00)

/-- The second half of a surrogate pair, and how many bytes it takes. -/
def trailingEscape (leading : Nat) (bytes : Bytes) : Except Fault (Char × Nat) :=
  match bytes with
  | [] => .error .endInString
  | 92 :: [] => .error .endInString
  | 92 :: 117 :: a :: b :: c :: d :: _ =>
    match hexFour a b c d with
    | none => .error .invalidEscape
    | some n =>
      if isTrailing n then .ok (Char.ofNat (pairValue leading n), 6) else .error .loneSurrogate
  | 92 :: 117 :: _ => .error .endInString
  | _ => .error .unpairedSurrogate

/-- What follows a backslash: the character that is meant, and how many bytes were read. -/
def escape (bytes : Bytes) : Except Fault (Char × Nat) :=
  match bytes with
  | [] => .error .endInString
  | 34 :: _ => .ok ('"', 1)
  | 92 :: _ => .ok ('\\', 1)
  | 47 :: _ => .ok ('/', 1)
  | 98 :: _ => .ok ('\x08', 1)
  | 102 :: _ => .ok ('\x0c', 1)
  | 110 :: _ => .ok ('\n', 1)
  | 114 :: _ => .ok ('\r', 1)
  | 116 :: _ => .ok ('\t', 1)
  | 117 :: a :: b :: c :: d :: rest =>
    match hexFour a b c d with
    | none => .error .invalidEscape
    | some n =>
      if isTrailing n then .error .loneSurrogate
      else if isLeading n then do
        let (c, length) ← trailingEscape n rest
        return (c, length + 5)
      else .ok (Char.ofNat n, 5)
  | 117 :: _ => .error .endInString
  | _ => .error .invalidEscape

/-- The bytes that a literal stands for, up to its closing quote, and what follows the quote. -/
def literalBytes (bytes : Bytes) : Except Fault (Bytes × Bytes) :=
  match bytes with
  | [] => .error .endInString
  | b :: rest =>
    if b = 34 then .ok ([], rest)
    else if b = 92 then do
      let (c, length) ← escape rest
      let (content, rest) ← literalBytes (rest.drop length)
      return (String.utf8EncodeChar c ++ content, rest)
    else if b < 0x20 then .error .controlCharacter
    else do
      let (content, rest) ← literalBytes rest
      return (b :: content, rest)
  termination_by bytes.length
  decreasing_by all_goals (simp only [List.length_cons, List.length_drop]; omega)

/-- A string literal behind its opening quote. -/
def readLiteral (bytes : Bytes) : Except Fault (String × Bytes) := do
  let (content, rest) ← literalBytes bytes
  match Utf8.decode content with
  | .ok s => return (s, rest)
  | .error _ => throw .invalidCodePoint

/-- The end of a literal whose content is not wanted: escapes have to have their form, but neither
surrogates nor UTF-8 are looked at. -/
def skipLiteral (bytes : Bytes) : Except Fault Bytes :=
  match bytes with
  | [] => .error .endInString
  | b :: rest =>
    if b = 34 then .ok rest
    else if b = 92 then
      match rest with
      | [] => .error .endInString
      | 117 :: a :: b :: c :: d :: rest =>
        if (hexFour a b c d).isNone then .error .invalidEscape else skipLiteral rest
      | 117 :: _ => .error .endInString
      | e :: rest =>
        if [34, 92, 47, 98, 102, 110, 114, 116].contains e then skipLiteral rest
        else .error .invalidEscape
    else if b < 0x20 then .error .controlCharacter
    else skipLiteral rest
  termination_by bytes.length
  decreasing_by all_goals (simp only [List.length_cons]; omega)

end HistoryKeeper.Json
