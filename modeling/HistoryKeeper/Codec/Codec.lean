import HistoryKeeper.Codec.ValueType

/-!
# Stored forms of keys and values

The store keeps text keys and opaque bytes. A key is stored as its compact JSON text, so the text
`"1"` and the number 1 stay apart. A codec turns values into bytes and back: as JSON, or, for text,
as plain UTF-8.
-/

namespace HistoryKeeper

/-- What a codec failed on. -/
inductive Coded where
  | key
  | value
  deriving DecidableEq, Repr

def Coded.word : Coded → String
  | .key => "key"
  | .value => "value"

inductive CodecError where
  | encode (what : Coded) (reason : String)
  | decode (what : Coded) (reason : String)
  deriving DecidableEq, Repr

def CodecError.message : CodecError → String
  | .encode what reason => "failed to encode " ++ what.word ++ ": " ++ reason
  | .decode what reason => "failed to decode " ++ what.word ++ ": " ++ reason

/-- The stored form of a key. -/
def encodeKey (t : ValueType) (key : t.Carrier) : Except CodecError String :=
  match t.toJson key with
  | .ok j => .ok j.text
  | .error fault => .error (.encode .key fault.message)

inductive Codec where
  | json (type : ValueType)
  | utf8
  deriving DecidableEq, Repr

namespace Codec

/-- The values a codec is for. -/
def valueType : Codec → ValueType
  | json type => type
  | utf8 => .text

abbrev Carrier (c : Codec) : Type :=
  c.valueType.Carrier

/-- The name that stands for the value type in a cache's identity. -/
def describe : Codec → String
  | json type => "json<" ++ type.name ++ ">"
  | utf8 => "utf8"

def serialize : (c : Codec) → c.Carrier → Except CodecError Bytes
  | json type, v =>
    match type.toJson v with
    | .ok j => .ok j.toBytes
    | .error fault => .error (.encode .value fault.message)
  | utf8, (s : String) => .ok (Utf8.encode s)

def deserialize : (c : Codec) → Bytes → Except CodecError c.Carrier
  | json type, bytes =>
    match type.reader.readAll bytes with
    | .ok v => .ok v
    | .error fault => .error (.decode .value fault.message)
  | utf8, bytes =>
    match Utf8.decode bytes with
    | .ok s => .ok s
    | .error fault => .error (.decode .value fault.message)

end Codec

end HistoryKeeper
