import HistoryKeeper.Disk.Basic
import HistoryKeeper.Text.Quoted
import HistoryKeeper.Time.Text

/-!
# The lock of a directory

Whoever wants a directory to itself locks one file in it. A lock that is taken is tried again, every
`pollInterval` or as often as the timeout is long, until the timeout has passed. The disk alone does
not show what others do in between, so `acquireAmid` is told whether and when the lock comes free.
-/

namespace HistoryKeeper

inductive LockError where
  | timeout (after : Duration)
  | io (fault : IoFault)
  deriving DecidableEq, Repr

def LockError.message : LockError → String
  | .timeout after => "lock timeout after " ++ after.exact
  | .io fault => "I/O error: " ++ fault.message

/-- A lock that is held. -/
structure DirectoryLock where
  path : Path
  file : FileId
  deriving DecidableEq, Repr

namespace DirectoryLock

def fileName : String := ".history-cache.lock"

def pollInterval : Nat := 50000000

/-- Whether a lock that comes free after `freeAfter` is still tried then. The attempts are a poll
apart, and each but the first follows one that failed before the timeout. -/
def isTriedAfter (timeout freeAfter : Duration) : Bool :=
  let poll := min pollInterval timeout.nanos
  if freeAfter.nanos = 0 then true
  else if poll = 0 then false
  else
    let attempts := (freeAfter.nanos + poll - 1) / poll
    (attempts - 1) * poll < timeout.nanos

/-- Take the lock of `dir`, making the directory and the file as needed. `release` is a file that
another holder unlocks after a delay. -/
def acquireAmid (dir : Path) (timeout : Duration) (release : Option (FileId × Duration)) :
    EStateM LockError Disk DirectoryLock := fun d =>
  match Disk.createDirs dir d with
  | .error e d => .error (.io e) d
  | .ok _ d =>
    let path := dir.join fileName
    match d.openFile path with
    | .error e => .error (.io e) d
    | .ok (_, file, d) =>
      if !d.isLocked file then .ok ⟨path, file⟩ (d.lock file)
      else match release with
      | some (released, delay) =>
        if released = file && isTriedAfter timeout delay then
          .ok ⟨path, file⟩ ((d.unlock file).lock file)
        else .error (.timeout timeout) d
      | none => .error (.timeout timeout) d

def acquire (dir : Path) (timeout : Duration) : EStateM LockError Disk DirectoryLock :=
  acquireAmid dir timeout none

def release (lock : DirectoryLock) (d : Disk) : Disk :=
  d.unlock lock.file

/-- How the lock shows in debug output, up to the time it has been held. -/
def description (lock : DirectoryLock) : String :=
  "ProcessLock \x7b lock_path: " ++ Text.Quoted.path lock.path.text ++ ", held_for: "

end DirectoryLock

end HistoryKeeper
