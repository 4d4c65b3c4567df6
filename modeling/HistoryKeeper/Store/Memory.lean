import HistoryKeeper.Store.Basic

/-!
# Stores in memory

A store without files: the lock is a flag. Every store reports to a `Probe`, which counts what
happens and can make the operations on one key fail.
-/

namespace HistoryKeeper

/-- What is known of the stores that report to it. -/
structure Probe where
  lockAcquisitions : Nat := 0
  longOperations : Nat := 0
  /-- Cache operations tried while the lock was given up. -/
  unlockedAccesses : Nat := 0
  cachesCreated : Nat := 0
  closed : Bool := false
  lockHeld : Bool := false
  /-- Whether a thread has called a store. A store is used by one thread alone. -/
  touched : Bool := false
  failOnKey : Option String := none
  deriving DecidableEq, Repr, Inhabited

structure MemoryStore where
  locked : Bool
  /-- The caches in the order in which they were made, by file. -/
  caches : List (Path × Table String Bytes)
  deriving DecidableEq, Repr, Inhabited

namespace MemoryStore

abbrev Call (α : Type) := StoreCall MemoryStore Probe α

def setLocked (held : Bool) : Call Unit :=
  modify fun (s, w) =>
    ({ s with locked := held },
     { w with
       lockHeld := held
       lockAcquisitions := if held then w.lockAcquisitions + 1 else w.lockAcquisitions })

def touch : Call Unit :=
  modify fun (s, w) => (s, { w with touched := true })

/-- A new store holds its lock. -/
def openStore (w : Probe) : MemoryStore × Probe :=
  ({ locked := true, caches := [] },
   { w with touched := true, lockHeld := true, lockAcquisitions := w.lockAcquisitions + 1 })

def enter : Call Unit := do
  touch
  let (s, _) ← get
  if !s.locked then setLocked true

def release : Call Unit := do
  touch
  modify fun (s, w) => (s, { w with longOperations := w.longOperations + 1 })
  setLocked false

def openCache (file : Path) : Call CacheId := do
  touch
  modify fun (s, w) => (s, { w with cachesCreated := w.cachesCreated + 1 })
  let (s, _) ← get
  match s.caches.findIdx? (·.1.same file) with
  | some c => return c
  | none =>
    modify fun (s, w) => ({ s with caches := s.caches ++ [(file, [])] }, w)
    return s.caches.length

/-- Every cache operation: only under the lock, and not on the failing key. -/
def begin (key : String) : Call Unit := do
  touch
  let (s, w) ← get
  if !s.locked then
    set (s, { w with unlockedAccesses := w.unlockedAccesses + 1 })
    throw .lockNotHeld
  if w.failOnKey = some key then throw (.backend ("injected failure for key " ++ key))

def entries (s : MemoryStore) (c : CacheId) : Table String Bytes :=
  (s.caches[c]?.map (·.2)).getD []

def update (c : CacheId) (f : Table String Bytes → Table String Bytes) : Call Unit :=
  modify fun (s, w) => ({ s with caches := s.caches.modify c fun (file, t) => (file, f t) }, w)

def lookup (c : CacheId) (key : String) : Call (Option Bytes) := do
  begin key
  let (s, _) ← get
  return (s.entries c).get? key

def put (c : CacheId) (key : String) (value : Bytes) : Call Unit := do
  begin key
  update c (·.insert key value)

def remove (c : CacheId) (key : String) : Call Unit := do
  begin key
  update c (·.erase key)

def close : Call Unit := do
  touch
  setLocked false
  modify fun (s, w) => (s, { w with closed := true })

instance : Store MemoryStore Probe where
  baseDir _ := ⟨"memory"⟩
  isLocked? _ := none
  enter := enter
  leave := pure ()
  release := release
  reacquire := setLocked true
  openCache := openCache
  get := lookup
  put := put
  remove := remove
  close := close
  abandon := id

end MemoryStore

end HistoryKeeper
