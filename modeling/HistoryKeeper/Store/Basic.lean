import HistoryKeeper.Disk.DirectoryLock

/-!
# Stores

A store keeps named caches, each a map from text keys to bytes, and owns a lock that it gives up
only for the length of a long operation. `Store S W` says what a store of type `S` in a world `W`
can do; the world is what the store shares with others, such as the disk. Work that runs under the
lock, or while it is given up, happens between two calls: `enter` and `leave`, `release` and
`reacquire`.

What a call did before it failed stays done.
-/

namespace HistoryKeeper

inductive StoreError where
  | io (fault : IoFault)
  | lock (error : LockError)
  /-- A cache was used while the store's lock was given up. -/
  | lockNotHeld
  | corrupt (path : Path) (reason : String)
  | serialization (reason : String)
  /-- A failure of what keeps the data. -/
  | backend (reason : String)
  deriving DecidableEq, Repr

def StoreError.message : StoreError → String
  | .io fault => "I/O error: " ++ fault.message
  | .lock error => "lock error: " ++ error.message
  | .lockNotHeld => "store accessed without holding the exclusive lock"
  | .corrupt path reason => "corrupt cache file " ++ path.text ++ ": " ++ reason
  | .serialization reason => "serialization error: " ++ reason
  | .backend reason => "store backend error: " ++ reason

/-- A call on a store in its world. -/
abbrev StoreCall (S W α : Type) := EStateM StoreError (S × W) α

/-- The number of a cache in its store. -/
abbrev CacheId := Nat

class Store (S : Type) (W : outParam Type) where
  baseDir : S → Path
  /-- Whether the lock is held, if the store tells. -/
  isLocked? : S → Option Bool
  /-- Make sure that the lock is held, before work under the lock. -/
  enter : StoreCall S W Unit
  /-- Write back what the work changed. -/
  leave : StoreCall S W Unit
  /-- Write back, forget and unlock, before a long operation. -/
  release : StoreCall S W Unit
  /-- Take the lock again after a long operation. -/
  reacquire : StoreCall S W Unit
  /-- The cache that is kept in a file. -/
  openCache : Path → StoreCall S W CacheId
  get : CacheId → String → StoreCall S W (Option Bytes)
  put : CacheId → String → Bytes → StoreCall S W Unit
  remove : CacheId → String → StoreCall S W Unit
  /-- Write back and unlock for good. -/
  close : StoreCall S W Unit
  /-- Go away without closing, as a store does that a failure cuts off. -/
  abandon : S × W → S × W

end HistoryKeeper
