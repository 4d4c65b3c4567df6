/-!
# UTF-8

`Utf8.encode` writes text as bytes and `Utf8.decode` reads it back, or says at which byte the text
breaks off and how many bytes are wrong there. A sequence is refused at the first byte that no
character allows, so overlong forms and surrogates never decode.
-/

namespace HistoryKeeper

/-- The content of a file or of a stored value. -/
abbrev Bytes := List UInt8

namespace Utf8

/-- Why bytes are no text. -/
inductive Fault where
  /-- The bytes from `index` on start no character; the first `length` of them are refused. -/
  | invalid (index length : Nat)
  /-- The text ends inside the character that starts at `index`. -/
  | incomplete (index : Nat)
  deriving DecidableEq, Repr

def Fault.message : Fault → String
  | .invalid index length =>
    s!"invalid utf-8 sequence of {length} bytes from index {index}"
  | .incomplete index => s!"incomplete utf-8 byte sequence from index {index}"

def encodeChars (cs : List Char) : Bytes :=
  cs.flatMap String.utf8EncodeChar

def encode (s : String) : Bytes :=
  encodeChars s.toList

/-- A byte that continues a character: `10xxxxxx`. -/
def isTail (b : UInt8) : Bool :=
  0x80 ≤ b && b ≤ 0xBF

/-- The least and greatest second byte after the first byte of a three-byte character. -/
def secondOfThree (a : UInt8) : Option (UInt8 × UInt8) :=
  if a = 0xE0 then some (0xA0, 0xBF)
  else if a = 0xED then some (0x80, 0x9F)
  else if 0xE1 ≤ a && a ≤ 0xEF then some (0x80, 0xBF)
  else none

/-- The least and greatest second byte after the first byte of a four-byte character. -/
def secondOfFour (a : UInt8) : Option (UInt8 × UInt8) :=
  if a = 0xF0 then some (0x90, 0xBF)
  else if a = 0xF4 then some (0x80, 0x8F)
  else if 0xF1 ≤ a && a ≤ 0xF3 then some (0x80, 0xBF)
  else none

def isWithin (range : UInt8 × UInt8) (b : UInt8) : Bool :=
  range.1 ≤ b && b ≤ range.2

/-- The six payload bits of a tail byte, below the bits already read. -/
def extend (high : Nat) (b : UInt8) : Nat :=
  high * 64 + b.toNat % 64

/-- What a text begins with. -/
inductive Front where
  | char (c : Char) (length : Nat)
  | invalid (length : Nat)
  | incomplete
  deriving DecidableEq, Repr

/-- The first character of `a :: rest`. -/
def front (a : UInt8) (rest : Bytes) : Front :=
  if a < 0x80 then .char (Char.ofNat a.toNat) 1
  else if 0xC2 ≤ a && a ≤ 0xDF then
    match rest with
    | [] => .incomplete
    | b :: _ =>
      if isTail b then .char (Char.ofNat (extend (a.toNat % 32) b)) 2 else .invalid 1
  else match secondOfThree a, secondOfFour a with
  | some range, _ =>
    match rest with
    | [] => .incomplete
    | b :: rest =>
      if !isWithin range b then .invalid 1
      else match rest with
      | [] => .incomplete
      | c :: _ =>
        if isTail c then .char (Char.ofNat (extend (extend (a.toNat % 16) b) c)) 3
        else .invalid 2
  | none, some range =>
    match rest with
    | [] => .incomplete
    | b :: rest =>
      if !isWithin range b then .invalid 1
      else match rest with
      | [] => .incomplete
      | c :: rest =>
        if !isTail c then .invalid 2
        else match rest with
        | [] => .incomplete
        | d :: _ =>
          if isTail d then
            .char (Char.ofNat (extend (extend (extend (a.toNat % 8) b) c) d)) 4
          else .invalid 3
  | none, none => .invalid 1

/-- The characters of a text whose first byte stands at `index`. `length - 1` bytes of a character
follow its first, so `rest.drop (length - 1)` is the text behind it. -/
def decodeFrom (index : Nat) (bytes : Bytes) : Except Fault (List Char) :=
  match bytes with
  | [] => .ok []
  | a :: rest =>
    match front a rest with
    | .char c length => (c :: ·) <$> decodeFrom (index + length) (rest.drop (length - 1))
    | .invalid length => .error (.invalid index length)
    | .incomplete => .error (.incomplete index)
  termination_by bytes.length
  decreasing_by simp only [List.length_cons, List.length_drop]; omega

def decode (bytes : Bytes) : Except Fault String :=
  String.ofList <$> decodeFrom 0 bytes

end Utf8

end HistoryKeeper
