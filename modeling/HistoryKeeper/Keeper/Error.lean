import HistoryKeeper.Codec.Codec
import HistoryKeeper.Config.Error
import HistoryKeeper.Store.Basic

/-!
# What callers of a keeper are told

The causes for which a call on a keeper or on one of its caches fails.
-/

namespace HistoryKeeper

inductive CacheError where
  | notStarted
  | alreadyStarted
  | stopRequested
  /-- The keeper ended by itself. -/
  | keeperFailed
  | keeperPanicked
  /-- The name of a cache stands for other types already. -/
  | identityConflict (name existing requested : String)
  | codec (error : CodecError)
  | store (error : StoreError)
  /-- No thread for the keeper. -/
  | spawn (fault : IoFault)
  | config (error : ConfigError)
  deriving DecidableEq, Repr

namespace CacheError

def message : CacheError → String
  | notStarted => "cache access actor has not been started yet"
  | alreadyStarted => "cache access actor was already started"
  | stopRequested => "stop requested while accessing the cache"
  | keeperFailed => "cache access actor terminated after a store failure"
  | keeperPanicked => "cache access actor panicked"
  | identityConflict name existing requested =>
    "cache " ++ name ++ " already declared as " ++ existing ++ ", requested " ++ requested
  | codec error => "codec error: " ++ error.message
  | store error => "store error: " ++ error.message
  | spawn fault => "failed to spawn actor thread: " ++ fault.message
  | config error => "configuration error: " ++ error.message

def isNotStarted (e : CacheError) : Bool :=
  e = notStarted

def isStopRequested (e : CacheError) : Bool :=
  e = stopRequested

end CacheError

end HistoryKeeper
