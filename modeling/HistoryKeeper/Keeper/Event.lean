import HistoryKeeper.Keeper.System

/-!
# What a store sees of its keeper

An `Event` is a call that a keeper is about to make on its store, or the moment at which the lock
has been given up. `System.event?` tells which one the next step is.
-/

namespace HistoryKeeper

inductive Event where
  | openStore
  /-- Work under the lock begins. -/
  | locked
  | create (file : String)
  | get (file key : String)
  | put (file key : String)
  | remove (file key : String)
  /-- A long operation begins. -/
  | long
  | released
  | close
  deriving DecidableEq, Repr

namespace Event

def text : Event → String
  | openStore => "open"
  | locked => "locked"
  | create file => "create " ++ file
  | get file key => "get " ++ file ++ " " ++ key
  | put file key => "put " ++ file ++ " " ++ key
  | remove file key => "remove " ++ file ++ " " ++ key
  | long => "long"
  | released => "released"
  | close => "close"

/-- What the keeper says that it needs the store for. -/
def description? : Event → Option String
  | locked => some "cache access actor owns the store"
  | long => some "cache access actor is idle"
  | _ => none

end Event

namespace System

variable {S W : Type} [Store S W]

/-- The file of a cache, below the base directory of a store. -/
def fileBelow (store : S) (cache : CacheIdentity) : String :=
  ((Store.baseDir store).join cache.fileName).below (Store.baseDir store)

/-- The call for a request on a cache: the cache has to be open first. -/
def requestEvent (s : System S W) (store : S) (cache : CacheIdentity) (event : String → Event) :
    Event :=
  let file := fileBelow store cache
  if s.keeper.caches.contains cache.name then event file else .create file

def event? (s : System S W) : Option Event :=
  match s.stage with
  | .opening _ => some .openStore
  | .working store task =>
    match task with
    | .entering => some .locked
    | .answering place read =>
      if (s.keeper.queuedValue place read).isSome then none
      else some (s.requestEvent store read.cache (.get · read.key))
    | .applying write =>
      some <| s.requestEvent store write.cache fun file =>
        match write.change with
        | .put _ => .put file write.key
        | .remove => .remove file write.key
    | .releasing => some .long
    | .released => some .released
    | .closing => some .close
    | _ => none
  | _ => none

end System

end HistoryKeeper
