import HistoryKeeper.Store.File
import HistoryKeeper.Store.Memory

/-!
# Stores of either kind

A `Site` is a disk and a probe, the world of stores on disk and in memory alike, and an `AnyStore`
is a store of either kind in it.
-/

namespace HistoryKeeper

structure Site where
  disk : Disk
  probe : Probe

inductive StoreKind where
  | memory
  | file
  deriving DecidableEq, Repr

inductive AnyStore where
  | memory (s : MemoryStore)
  | file (s : FileStore)
  deriving DecidableEq, Repr

namespace AnyStore

abbrev Call (α : Type) := StoreCall AnyStore Site α

/-- The call of the store's own kind, on its part of the site. -/
def call {α : Type} (onMemory : MemoryStore.Call α) (onFile : FileStore.Call α) : Call α :=
  fun (s, site) =>
    match s with
    | memory s =>
      match onMemory (s, site.probe) with
      | .ok v (s, probe) => .ok v (memory s, { site with probe })
      | .error e (s, probe) => .error e (memory s, { site with probe })
    | file s =>
      match onFile (s, site.disk) with
      | .ok v (s, disk) => .ok v (file s, { site with disk })
      | .error e (s, disk) => .error e (file s, { site with disk })

def openStore (kind : StoreKind) (dir : Path) (timeout : Duration) :
    EStateM StoreError Site AnyStore := fun site =>
  match kind with
  | .memory =>
    let (s, probe) := MemoryStore.openStore site.probe
    .ok (memory s) { site with probe }
  | .file =>
    match FileStore.openStore dir timeout site.disk with
    | .ok s disk => .ok (file s) { site with disk }
    | .error e disk => .error e { site with disk }

def abandon : AnyStore × Site → AnyStore × Site
  | (memory s, site) => (memory s, site)
  | (file s, site) =>
    let (s, disk) := s.freeLock site.disk
    (file s, { site with disk })

instance : Store AnyStore Site where
  baseDir
    | memory s => Store.baseDir s
    | file s => Store.baseDir s
  isLocked?
    | memory s => Store.isLocked? s
    | file s => Store.isLocked? s
  enter := call Store.enter Store.enter
  leave := call Store.leave Store.leave
  release := call Store.release Store.release
  reacquire := call Store.reacquire Store.reacquire
  openCache f := call (Store.openCache f) (Store.openCache f)
  get c key := call (Store.get c key) (Store.get c key)
  put c key value := call (Store.put c key value) (Store.put c key value)
  remove c key := call (Store.remove c key) (Store.remove c key)
  close := call Store.close Store.close
  abandon := abandon

end AnyStore

end HistoryKeeper
