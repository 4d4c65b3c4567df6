import HistoryKeeper.Keeper.Pacing
import HistoryKeeper.Keeper.Request
import HistoryKeeper.Keeper.Tally
import HistoryKeeper.Store.Basic

/-!
# A keeper's own state

A keeper moves what arrives into two queues, numbered in order of arrival. It serves the reads
first; a read is answered from the newest write on its key that is still queued and arrived before
it, if there is one and the keeper looks there at all (`Keeper.queuedValue`). A cache is opened in
the store when a request first names it.
-/

namespace HistoryKeeper

structure Keeper where
  /-- Each read with its place in the order of arrival, the oldest first. -/
  reads : List (Nat × PendingRead)
  writes : List (Nat × PendingWrite)
  /-- The place of the next request. -/
  nextPlace : Nat
  /-- The caches that are open, by name. -/
  caches : Table String CacheId
  pacing : Pacing
  tally : Tally
  /-- Answer reads from queued writes. -/
  pendingLookup : Bool
  stopRequested : Bool
  deriving DecidableEq, Repr

namespace Keeper

def new (interval : Duration) (pendingLookup : Bool) (now : Instant) : Keeper :=
  { reads := []
    writes := []
    nextPlace := 0
    caches := []
    pacing := .start interval now
    tally := {}
    pendingLookup
    stopRequested := false }

def requestStop (k : Keeper) : Keeper :=
  { k with stopRequested := true }

/-- Take in a request that has arrived. -/
def enqueue (k : Keeper) (request : Request) : Keeper :=
  let place := k.nextPlace
  let k := { k with nextPlace := place + 1 }
  match request with
  | .read read => { k with reads := k.reads ++ [(place, read)] }
  | .write write => { k with writes := k.writes ++ [(place, write)] }
  | .stop => k.requestStop

/-- Take in what was received while idle; nothing stands for a stop. -/
def wake (k : Keeper) (received : Option Request) : Keeper :=
  match received with
  | some request => k.enqueue request
  | none => k.requestStop

/-- The newest queued write on a read's key that arrived before the read. -/
def queuedWrite (k : Keeper) (place : Nat) (read : PendingRead) : Option PendingWrite :=
  let concerns : Nat × PendingWrite → Bool :=
    fun (p, write) => p < place && write.targets read.cache read.key
  (k.writes.reverse.find? concerns).map (·.2)

/-- What such a write gives the read to see. -/
def queuedValue (k : Keeper) (place : Nat) (read : PendingRead) : Option (Option Bytes) :=
  if k.pendingLookup then (k.queuedWrite place read).map (·.visibleValue) else none

/-- The summary of a run that began at `started`. -/
def summarize (k : Keeper) (started now : Instant) (blockedReads : Duration) (failed : Bool) :
    Summary :=
  let total := now.since started
  { total
    busy := total.saturatingSub k.tally.idle
    idle := k.tally.idle
    blockedReads
    lockReleased := k.tally.lockReleased
    lockReleaseCount := k.pacing.releaseCount
    readsServed := k.tally.readsServed
    readsFromPendingWrites := k.tally.readsFromPendingWrites
    writesApplied := k.tally.writesApplied
    outstandingReads := k.reads.length
    outstandingWrites := k.writes.length
    failed }

end Keeper

end HistoryKeeper
