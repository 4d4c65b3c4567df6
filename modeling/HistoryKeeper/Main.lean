import HistoryKeeper.CommandLine.Run
import HistoryKeeper.Disk.Snapshot

/-!
# The program

Looks at the real tree, lets `CommandLine.run` say what happens, and carries that out. The store's
lock file is locked from before the tree is looked at until the changes are made.
-/

namespace HistoryKeeper.Program

open CommandLine

def pathOf (location : Location) : String :=
  "/" ++ String.intercalate "/" location

/-- What is at a location. A directory can be opened but not read. -/
def look (location : Location) : IO Sight := do
  if location.isEmpty then return .directory
  try
    return .file (← IO.FS.readBinFile (pathOf location)).toList
  catch
    | .inappropriateType _ code _ =>
      return if code = 21 then .directory else .absent
    | _ => return .absent

def snapshot (home : Location) (processId : Nat) (paths : List Path) : IO Disk := do
  let mut disk := Disk.empty home processId
  for location in (paths.flatMap (·.trail home)).eraseDups do
    disk := disk.record location (← look location)
  return disk

/-- A file is replaced as a whole. -/
def carryOut (processId : Nat) : Disk.Change → IO Unit
  | .makeDir location => IO.FS.createDirAll (pathOf location)
  | .write location content => do
    let path := pathOf location
    let temporary := (CacheFile.temporary ⟨path⟩ processId).text
    IO.FS.writeBinFile temporary ⟨content.toArray⟩
    IO.FS.rename temporary path
  | .remove location => IO.FS.removeFile (pathOf location)

/-- Try to lock a file again and again for some milliseconds. -/
def tryLock (handle : IO.FS.Handle) : (attempts : Nat) → IO Bool
  | 0 => handle.tryLock
  | attempts + 1 => do
    if ← handle.tryLock then return true
    IO.sleep 50
    tryLock handle attempts

/-- The lock file, open and locked unless someone else has it; none if it cannot be opened. -/
def lockStore (i : Invocation) (timeout : Duration) : IO (Option (IO.FS.Handle × Bool)) := do
  try
    IO.FS.createDirAll i.dir.text
    let handle ← IO.FS.Handle.mk i.lockPath.text .append
    let held ← tryLock handle (timeout.millis / 50)
    return some (handle, held)
  catch _ => return none

/-- The disk as it is for someone who cannot have the store's lock. -/
def withLockTaken (i : Invocation) (d : Disk) : Disk :=
  match d.stat i.lockPath with
  | .ok (.file id _) => d.lock id
  | _ => d

/-- Stay idle with the lock, and without it once it would be given up. -/
def hold (seconds : UInt64) (interval : Duration) (handle : IO.FS.Handle) : IO Unit := do
  let millis := seconds.toNat * 1000
  let locked := min millis interval.millis
  IO.sleep locked.toUInt32
  handle.unlock
  IO.sleep (millis - locked).toUInt32

def finish (processId : Nat) (before : Disk) (o : Outcome) : IO UInt32 := do
  for change in Disk.changes before o.disk do
    carryOut processId change
  IO.print o.stdout
  IO.eprint o.stderr
  return o.code.toUInt32

def runInvocation (i : Invocation) (environment : Option String) : IO UInt32 := do
  let home := (Path.mk (toString (← IO.currentDir))).segments
  let processId := (← IO.monoNanosNow) % 4194304
  let paths := i.paths processId
  let disk ← snapshot home processId paths
  match i.settings environment disk with
  | .error _ => finish processId disk (i.run environment disk)
  | .ok settings =>
    let lock ← lockStore i settings.lockTimeout
    let disk ← snapshot home processId paths
    match lock with
    | none => finish processId disk (i.run environment disk)
    | some (_, false) => finish processId disk (i.run environment (withLockTaken i disk))
    | some (handle, true) =>
      let code ← finish processId disk (i.run environment disk)
      if let (.hold seconds, 0) := (i.command, code) then
        hold seconds settings.unlockInterval handle
      else handle.unlock
      return code

end HistoryKeeper.Program

open HistoryKeeper in
def main (args : List String) : IO UInt32 := do
  match CommandLine.Invocation.parse args with
  | .ok i => Program.runInvocation i (← IO.getEnv unlockIntervalVariable)
  | .error refusal =>
    let o := refusal.outcome (Disk.empty [] 0)
    IO.print o.stdout
    IO.eprint o.stderr
    return o.code.toUInt32
