import HistoryKeeper.Json.Reader

/-!
# Types of keys and values

A typed cache names the type of its keys and of its values. `ValueType.Carrier` is the Lean type of
the values, `toJson` their JSON form and `reader` the way back from JSON text. `name` is the type's
name as cache identities show it.
-/

namespace HistoryKeeper

inductive ValueType where
  /-- Text that only serves as a key. -/
  | keyText
  | text
  | natural32
  | natural64
  | integer64
  | boolean
  | float
  | texts
  /-- A text with a 32-bit number. -/
  | pair
  | optional32
  | json
  /-- A map from byte strings to bytes. JSON objects have text as keys, so only the empty one has a
  JSON form. -/
  | byteMap
  deriving DecidableEq, Repr

namespace ValueType

def name : ValueType → String
  | keyText => "str"
  | text => "alloc::string::String"
  | natural32 => "u32"
  | natural64 => "u64"
  | integer64 => "i64"
  | boolean => "bool"
  | float => "f64"
  | texts => "alloc::vec::Vec<alloc::string::String>"
  | pair => "(alloc::string::String, u32)"
  | optional32 => "core::option::Option<u32>"
  | json => "serde_json::value::Value"
  | byteMap => "alloc::collections::btree::map::BTreeMap<alloc::vec::Vec<u8>, u8>"

abbrev Carrier : ValueType → Type
  | keyText => String
  | text => String
  | natural32 => UInt32
  | natural64 => UInt64
  | integer64 => Int64
  | boolean => Bool
  | float => Binary64
  | texts => List String
  | pair => String × UInt32
  | optional32 => Option UInt32
  | json => Json
  | byteMap => List (Bytes × UInt8)

/-- The JSON form of a value. A double that is not finite becomes null. -/
def toJson : (t : ValueType) → t.Carrier → Except Json.Fault Json
  | keyText, (s : String) => .ok (.string s)
  | text, (s : String) => .ok (.string s)
  | natural32, (n : UInt32) => .ok (.ofNat n.toNat)
  | natural64, (n : UInt64) => .ok (.ofNat n.toNat)
  | integer64, (n : Int64) => .ok (.ofInt n.toInt)
  | boolean, (b : Bool) => .ok (.bool b)
  | float, (x : Binary64) => .ok (.ofBinary64 x)
  | texts, (ss : List String) => .ok (.array (ss.map .string))
  | pair, ((s, n) : String × UInt32) => .ok (.array [.string s, .ofNat n.toNat])
  | optional32, none => .ok .null
  | optional32, some (n : UInt32) => .ok (.ofNat n.toNat)
  | json, (j : Json) => .ok j
  | byteMap, ([] : List (Bytes × UInt8)) => .ok (.object [])
  | byteMap, (_ :: _) => .error .keyNotString

open Json (Reader)
open Json.Reader

def readNatural32 : Reader UInt32 := do
  return (← natural Word.size32 "u32").toUInt32

def readText : Reader String :=
  string "a string"

/-- Two items; `length` tells how many were there when one is missing. -/
def readPair : Reader (String × UInt32) := do
  let expected := "a tuple of size 2"
  match ← head with
  | .openArray =>
    if !(← moreItems true) then fail (.invalidLength 0 expected)
    let s ← readText
    if !(← moreItems false) then fail (.invalidLength 1 expected)
    let n ← readNatural32
    closeArray
    return (s, n)
  | h => wrongType h expected

def readOptional : Reader (Option UInt32) := do
  match ← peekToken with
  | some 110 => advance; word [117, 108, 108]; return none
  | _ => return some (← readNatural32)

/-- Any key is refused, as it is text. -/
def readByteMap : Reader (List (Bytes × UInt8)) := do
  match ← head with
  | .openObject =>
    match ← nextKey true with
    | some key => fail (.invalidType (.string key) "a sequence")
    | none => closeObject; return []
  | h => wrongType h "a map"

def reader : (t : ValueType) → Reader t.Carrier
  | keyText => readText
  | text => readText
  | natural32 => readNatural32
  | natural64 => do return (← natural Word.size64 "u64").toUInt64
  | integer64 => do return (← integer (-Word.size63) (Word.size63 - 1) "i64").toInt64
  | boolean => Json.Reader.boolean "a boolean"
  | float => Json.Reader.float "f64"
  | texts => array readText "a sequence"
  | pair => readPair
  | optional32 => readOptional
  | json => anyValue
  | byteMap => readByteMap

end ValueType

end HistoryKeeper
