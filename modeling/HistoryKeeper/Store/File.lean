import HistoryKeeper.Store.CacheFile

/-!
# Stores on disk

A `FileStore` keeps its caches as files below its base directory and holds that directory's lock.
While it holds the lock the caches it has used stay in memory; before it gives the lock up it writes
the dirty ones back and forgets them all, so that after it has the lock again it sees what other
stores wrote in between.

The caches of a store ask `lockHeld` whether they may be used. It follows the lock, except that a
store that goes away unclosed frees the lock and leaves the flag as it was.
-/

namespace HistoryKeeper

structure FileStore where
  baseDir : Path
  lockTimeout : Duration
  lock : Option DirectoryLock
  lockHeld : Bool
  /-- In the order in which they were made; no two have the same path. -/
  caches : List CacheFile
  deriving DecidableEq, Repr

namespace FileStore

abbrev Call (α : Type) := StoreCall FileStore Disk α

/-- Whether the store holds the lock. -/
def isLocked (s : FileStore) : Bool :=
  s.lock.isSome

/-! ### The lock -/

/-- Hold the lock, taking it if it is not held. -/
def ensureLocked : Call Unit := fun (s, d) =>
  if s.isLocked then .ok () (s, d)
  else match DirectoryLock.acquire s.baseDir s.lockTimeout d with
  | .ok lock d => .ok () ({ s with lock := some lock, lockHeld := true }, d)
  | .error e d => .error (.lock e) (s, d)

/-- Give the lock back to the disk. -/
def freeLock (s : FileStore) (d : Disk) : FileStore × Disk :=
  match s.lock with
  | some lock => ({ s with lock := none }, lock.release d)
  | none => (s, d)

def unlock : Call Unit :=
  modify fun (s, d) =>
    let (s, d) := s.freeLock d
    ({ s with lockHeld := false }, d)

/-- The store of a directory, which is made as needed and locked. -/
def openStore (baseDir : Path) (lockTimeout : Duration) : EStateM StoreError Disk FileStore :=
  fun d =>
    match Disk.createDirs baseDir d with
    | .error fault d => .error (.io fault) d
    | .ok _ d =>
      let s : FileStore :=
        { baseDir, lockTimeout, lock := none, lockHeld := false, caches := [] }
      match ensureLocked (s, d) with
      | .ok _ (s, d) => .ok s d
      | .error e (_, d) => .error e d

/-! ### Writing back -/

/-- Write back the dirty files in turn, up to the first failure. -/
def flushFiles : List CacheFile → Disk → Except IoFault Unit × List CacheFile × Disk
  | [], d => (.ok (), [], d)
  | f :: files, d =>
    match f.flush d with
    | .ok f d =>
      let (result, files, d) := flushFiles files d
      (result, f :: files, d)
    | .error fault d => (.error fault, f :: files, d)

def flush : Call Unit := fun (s, d) =>
  let (result, caches, d) := flushFiles s.caches d
  let s := { s with caches }
  match result with
  | .ok _ => .ok () (s, d)
  | .error fault => .error (.io fault) (s, d)

/-- Forget what was loaded. -/
def forget : Call Unit :=
  modify fun (s, d) => ({ s with caches := s.caches.map ({ · with entries := none }) }, d)

/-! ### Calls -/

/-- Write back after work under the lock, if the lock is still held. -/
def leave : Call Unit := do
  let (s, _) ← get
  if s.isLocked then flush

def release : Call Unit := do
  flush
  forget
  unlock

def openCache (file : Path) : Call CacheId := do
  let (s, d) ← get
  match s.caches.findIdx? (·.path.same file) with
  | some c => return c
  | none =>
    set ({ s with caches := s.caches ++ [CacheFile.new file] }, d)
    return s.caches.length

/-- Every cache operation: only under the lock, and on the loaded file. -/
def access {α : Type} (c : CacheId) (f : CacheFile → Entries → α × CacheFile) : Call α := do
  let (s, d) ← get
  if !s.lockHeld then throw .lockNotHeld
  match s.caches[c]? with
  | none => throw (.backend "no such cache")
  | some file =>
    match file.loaded d with
    | .error e => throw e
    | .ok (file, entries) =>
      let (answer, file) := f file entries
      set ({ s with caches := s.caches.set c file }, d)
      return answer

def lookup (c : CacheId) (key : String) : Call (Option Bytes) :=
  access c fun file entries => (entries.get? key, file)

def put (c : CacheId) (key : String) (value : Bytes) : Call Unit :=
  access c fun file entries =>
    ((), { file with entries := some (entries.insert key value), dirty := true })

/-- Removing a key that is not there changes nothing. -/
def remove (c : CacheId) (key : String) : Call Unit :=
  access c fun file entries =>
    ((), if entries.contains key then
      { file with entries := some (entries.erase key), dirty := true } else file)

/-- Write back and give up the lock. If writing fails the store goes away as it is. -/
def close : Call Unit := do
  leave
  unlock

instance : Store FileStore Disk where
  baseDir s := s.baseDir
  isLocked? s := some s.isLocked
  enter := ensureLocked
  leave := leave
  release := release
  reacquire := ensureLocked
  openCache := openCache
  get := lookup
  put := put
  remove := remove
  close := close
  abandon state := state.1.freeLock state.2

end FileStore

end HistoryKeeper
