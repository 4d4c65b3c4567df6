import HistoryKeeper.Keeper.Error
import HistoryKeeper.Keeper.Tally

/-!
# What everyone can see of a keeper

The `Status` is shared between a keeper and its callers. Flags in it are only ever raised, and the
place of the store is set once.
-/

namespace HistoryKeeper

structure Status where
  started : Bool := false
  stopRequested : Bool := false
  failed : Bool := false
  stopped : Bool := false
  /-- How long callers waited for answers, in nanoseconds that wrap around. -/
  blockedNanos : UInt64 := 0
  /-- The base directory of the open store. -/
  storeDir : Option Path := none
  summary : Option Summary := none
  deriving DecidableEq, Repr

namespace Status

/-- Whether new requests are accepted. -/
def checkAccepting (s : Status) : Except CacheError Unit :=
  if !s.started then .error .notStarted
  else if s.stopRequested then .error .stopRequested
  else if s.failed || s.stopped then .error .keeperFailed
  else .ok ()

/-- Why the keeper went away under a caller. -/
def disconnectedError (s : Status) : CacheError :=
  if s.stopRequested then .stopRequested else .keeperFailed

def markStarted (s : Status) : Status :=
  { s with started := true }

def requestStop (s : Status) : Status :=
  { s with stopRequested := true }

def markFailed (s : Status) : Status :=
  { s with failed := true }

/-- A wait is counted up to 2^64 - 1 nanoseconds. -/
def recordBlocked (s : Status) (waited : Duration) : Status :=
  { s with blockedNanos := s.blockedNanos + (min waited.nanos (Word.size64 - 1)).toUInt64 }

def blocked (s : Status) : Duration :=
  .ofNanos s.blockedNanos

/-- Only the first store is published. -/
def publishStore (s : Status) (dir : Path) : Status :=
  { s with storeDir := s.storeDir <|> some dir }

def storeInfo (s : Status) : Except CacheError Path :=
  match s.storeDir with
  | some dir => .ok dir
  | none => .error .notStarted

def finish (s : Status) (summary : Summary) : Status :=
  { s with summary := some summary, stopped := true }

/-- The keeper is gone without a summary. -/
def markAbandoned (s : Status) : Status :=
  { s with failed := true, stopped := true }

end Status

end HistoryKeeper
