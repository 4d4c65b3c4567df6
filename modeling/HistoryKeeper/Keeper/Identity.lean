import HistoryKeeper.Keeper.Error

/-!
# Identities of caches

A cache is known by its name, and a name stands for one pair of types. The `Registry` of a keeper
holds what was declared: declaring the same types again gives the same identity, other types are
refused (`Registry.declare`).
-/

namespace HistoryKeeper

structure CacheIdentity where
  name : String
  keyType : String
  valueType : String
  deriving DecidableEq, Repr

namespace CacheIdentity

/-- `tasks<str, utf8>` -/
def text (i : CacheIdentity) : String :=
  i.name ++ "<" ++ i.keyType ++ ", " ++ i.valueType ++ ">"

/-- The file that keeps the cache, below the store's base directory. -/
def fileName (i : CacheIdentity) : String :=
  i.name ++ ".bin"

def sameTypes (i j : CacheIdentity) : Bool :=
  i.keyType = j.keyType && i.valueType = j.valueType

end CacheIdentity

/-- The declared identities by name. -/
abbrev Registry := Table String CacheIdentity

/-- The identity that a declaration stands for from now on. A refused one changes nothing. -/
def Registry.declare (r : Registry) (i : CacheIdentity) :
    Except CacheError (CacheIdentity × Registry) :=
  match r.get? i.name with
  | none => .ok (i, r.insert i.name i)
  | some existing =>
    if existing.sameTypes i then .ok (existing, r)
    else .error (.identityConflict i.name existing.text i.text)

end HistoryKeeper
