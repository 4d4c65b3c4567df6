import HistoryKeeper.CommandLine.Help
import HistoryKeeper.CommandLine.Process
import HistoryKeeper.Config.Effective
import HistoryKeeper.Keeper.Controller
import HistoryKeeper.Store.File

/-!
# Runs of the program

A run reads the configuration, lets a keeper open the store, does what the command says through one
handle of texts, and stops the keeper, which writes back what changed. `Invocation.thread` is what the
main thread does, and `Invocation.process` the process that begins with it. `CommandLine.run` is the
program: from the arguments, the environment and the disk to what is printed, the exit code and the
disk afterwards.

The code is 0, or 1 after an error, or 2 for wrong arguments and for a key that is not there.
-/

namespace HistoryKeeper.CommandLine

structure Outcome where
  code : Nat
  stdout : String
  stderr : String
  disk : Disk

namespace Outcome

def usageCode : Nat := 2

def absentCode : Nat := 2

/-- The code of a thread that panicked. -/
def panicCode : Nat := 101

def failure (e : CacheError) (stdout : String) (disk : Disk) : Outcome :=
  { code := 1, stdout, stderr := "Error: " ++ e.message ++ "\n", disk }

end Outcome

/-- Handles of the command line have texts as keys and values. -/
abbrev TextHandle := Handle .keyText .utf8

/-- What a process has brought about, once its main thread exits. -/
def Process.outcome? (p : Process) : Option Outcome :=
  match p.thread with
  | .exiting code stdout stderr => some { code, stdout, stderr, disk := p.service.system.world }
  | _ => none

namespace Invocation

/-- The cache that a command is about. -/
def cache? (i : Invocation) : Option String :=
  match i.command with
  | .get cache _ | .put cache _ _ | .remove cache _ => some cache
  | .hold _ => none

/-- The file by which the store is locked. -/
def lockPath (i : Invocation) : Path :=
  i.dir.join DirectoryLock.fileName

/-- Every path that a run may use. -/
def paths (i : Invocation) (processId : Nat) : List Path :=
  let file (cache : String) : Path :=
    i.dir.join (CacheIdentity.fileName (Handle.requested cache .keyText .utf8))
  i.config.toList ++ [i.dir, i.lockPath] ++
    i.cache?.toList.flatMap fun cache => [file cache, CacheFile.temporary (file cache) processId]

/-- The settings of a run. -/
def settings (i : Invocation) (environment : Option String) (d : Disk) :
    Except ConfigError Settings := do
  let overrides := i.unlockInterval.map Layer.unlockInterval
  let config ← Config.build { file := i.config, environment, overrides } d
  config.settings

/-- What a command prints and its code. -/
abbrev Report := Except CacheError (String × Nat)

/-- The answer to a read as it is printed. -/
def reportOf (answer : Except CacheError (Option String)) : Report :=
  answer.map fun
    | some value => (value ++ "\n", 0)
    | none => ("", Outcome.absentCode)

def reportRead (result : Except CacheError Reply) : Report :=
  reportOf <| Codec.utf8.decodeAnswer <| result.map fun
    | .value v => v
    | _ => none

def reportWrite (result : Except CacheError Reply) : Report :=
  result.map fun _ => ("", 0)

def exitFailed (e : CacheError) (stdout : String) : Thread :=
  .exiting 1 stdout ("Error: " ++ e.message ++ "\n")

/-- What the program exits with when the keeper has been stopped. Of a command that has failed only the error
counts; of any other, whether the keeper has failed. -/
def closed (i : Invocation) (report : Report) (stopped : Except CacheError Reply) : Thread :=
  match report, stopped with
  | .error e, _ => exitFailed e ""
  | .ok (stdout, _), .error e => exitFailed e stdout
  | .ok (stdout, code), .ok (.summary summary) =>
    if summary.failed then exitFailed .keeperFailed stdout
    else .exiting code stdout (if i.stats then summary.text ++ "\n" else "")
  | .ok (stdout, _), .ok _ => exitFailed .keeperPanicked stdout

/-- The keeper is stopped, whatever has come of the command. -/
def closing (i : Invocation) (report : Report) : Thread :=
  .calling .stopping (i.closed report)

/-- The keeper has been started, or that has failed. -/
def started (i : Invocation) (next : Thread) : Except CacheError Reply → Thread
  | .error e => i.closing (.error e)
  | .ok _ => next

/-- Threads cannot have names with a NUL. -/
def canStart (settings : Settings) : Bool :=
  !settings.threadName.toList.contains '\x00'

/-- Start the keeper and go on. -/
def starting (i : Invocation) (settings : Settings) (next : Thread) : Thread :=
  if canStart settings then .calling .starting (i.started next) else .exiting Outcome.panicCode "" ""

/-- A command with one request: the cache is declared, the keeper started, and the request made through
the handle. -/
def asking (i : Invocation) (settings : Settings) (cache : String)
    (request : TextHandle → Except CodecError Request) (report : Except CacheError Reply → Report) : Thread :=
  match Handle.declare [] cache .keyText .utf8 with
  | .error e => exitFailed e ""
  | .ok (h, _) =>
    i.starting settings <| .calling (.asking (request h)) fun result => i.closing (report result)

def thread (i : Invocation) (settings : Settings) : Thread :=
  match i.command with
  | .get cache key => i.asking settings cache (·.readRequest key ⟨0⟩) reportRead
  | .put cache key value => i.asking settings cache (·.putRequest key value) reportWrite
  | .remove cache key => i.asking settings cache (·.removeRequest key) reportWrite
  | .hold seconds => i.starting settings <| .sleeping (.ofSeconds seconds) <| i.closing (.ok ("", 0))

/-- The process of a run, at its beginning. -/
def process (i : Invocation) (settings : Settings) (d : Disk) : Process :=
  let opener := Opener.of (FileStore.openStore i.dir settings.lockTimeout)
  .begin (i.thread settings) (Controller.new settings opener d).service

def run (i : Invocation) (environment : Option String) (d : Disk) : Outcome :=
  match i.settings environment d with
  | .error e => .failure (.config e) "" d
  | .ok settings =>
    let p := (i.process settings d).seeThrough
    p.outcome?.getD (.failure .keeperPanicked "" p.service.system.world)

end Invocation

/-- What is shown when nothing is run. -/
def Refusal.outcome (r : Refusal) (d : Disk) : Outcome :=
  match r with
  | .usage =>
    { code := Outcome.usageCode
      stdout := ""
      stderr := "Usage: " ++ Topic.program.usage ++ "\n"
      disk := d }
  | .help t => { code := 0, stdout := t.page, stderr := "", disk := d }
  | .version => { code := 0, stdout := versionLine, stderr := "", disk := d }

/-- The program. -/
def run (args : List String) (environment : Option String) (d : Disk) : Outcome :=
  match Invocation.parse args with
  | .ok i => i.run environment d
  | .error r => r.outcome d

end HistoryKeeper.CommandLine
