import HistoryKeeper.Keeper.Request

/-!
# Handles

A `Handle key codec` is a typed view of one cache: it turns keys and values into requests with their
stored forms, and the bytes of an answer back into a value. Handles of one cache have the same
types, because its identity tells them.
-/

namespace HistoryKeeper

structure Handle (key : ValueType) (codec : Codec) where
  identity : CacheIdentity
  deriving DecidableEq, Repr

namespace Handle

variable {key : ValueType} {codec : Codec}

/-- The identity that a declaration with these types asks for. -/
def requested (name : String) (key : ValueType) (codec : Codec) : CacheIdentity :=
  { name, keyType := key.name, valueType := codec.describe }

/-- Declare a cache and get a handle to it. -/
def declare (r : Registry) (name : String) (key : ValueType) (codec : Codec) :
    Except CacheError (Handle key codec × Registry) := do
  let (identity, r) ← r.declare (requested name key codec)
  return ({ identity }, r)

/-- `CacheHandle { cache: "tasks<str, utf8>" }` -/
def text (h : Handle key codec) : String :=
  "CacheHandle \x7b cache: " ++ Text.Quoted.text h.identity.text ++ " \x7d"

def readRequest (h : Handle key codec) (k : key.Carrier) (token : Token) :
    Except CodecError Request := do
  return .read { token, cache := h.identity, key := ← encodeKey key k }

/-- The key is encoded before the value. -/
def putRequest (h : Handle key codec) (k : key.Carrier) (v : codec.Carrier) :
    Except CodecError Request := do
  let k ← encodeKey key k
  return .write { cache := h.identity, key := k, change := .put (← codec.serialize v) }

def removeRequest (h : Handle key codec) (k : key.Carrier) : Except CodecError Request := do
  return .write { cache := h.identity, key := ← encodeKey key k, change := .remove }

end Handle

/-- The value in the answer to a read, if the key was there. -/
def Codec.decodeAnswer (codec : Codec) (answer : Except CacheError (Option Bytes)) :
    Except CacheError (Option codec.Carrier) :=
  match answer with
  | .error e => .error e
  | .ok none => .ok none
  | .ok (some bytes) =>
    match codec.deserialize bytes with
    | .ok v => .ok (some v)
    | .error e => .error (.codec e)

end HistoryKeeper
