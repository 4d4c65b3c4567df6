import HistoryKeeper.Keeper.Identity
import HistoryKeeper.Keeper.Token

/-!
# Requests

What callers send to a keeper, and the `Inbox` through which it arrives, in order.
-/

namespace HistoryKeeper

/-- A read that waits for its answer. -/
structure PendingRead where
  token : Token
  cache : CacheIdentity
  /-- The stored form of the key. -/
  key : String
  deriving DecidableEq, Repr

inductive Change where
  | put (value : Bytes)
  | remove
  deriving DecidableEq, Repr

structure PendingWrite where
  cache : CacheIdentity
  key : String
  change : Change
  deriving DecidableEq, Repr

namespace PendingWrite

def targets (w : PendingWrite) (cache : CacheIdentity) (key : String) : Bool :=
  w.key = key && w.cache.name = cache.name

/-- What a read of the key finds once the write is applied. -/
def visibleValue (w : PendingWrite) : Option Bytes :=
  match w.change with
  | .put value => some value
  | .remove => none

end PendingWrite

inductive Request where
  | read (read : PendingRead)
  | write (write : PendingWrite)
  | stop
  deriving DecidableEq, Repr

namespace Request

/-- The tokens of the reads among requests. -/
def readTokens (requests : List Request) : List Token :=
  requests.filterMap fun
    | .read r => some r.token
    | _ => none

end Request

/-- The requests on their way to a keeper, the oldest first. -/
structure Inbox where
  queue : List Request
  /-- Someone may still send. -/
  hasSenders : Bool
  /-- The keeper still receives. -/
  hasReceiver : Bool
  deriving DecidableEq, Repr

namespace Inbox

def empty : Inbox :=
  { queue := [], hasSenders := true, hasReceiver := true }

/-- A request can be sent for as long as the keeper receives. -/
def send (inbox : Inbox) (request : Request) : Option Inbox :=
  if inbox.hasReceiver then some { inbox with queue := inbox.queue ++ [request] } else none

/-- What is there to be received. -/
inductive Arrival where
  | request (request : Request) (rest : Inbox)
  | nothing
  /-- Nothing, and nobody can send any more. -/
  | disconnected

def receive (inbox : Inbox) : Arrival :=
  match inbox.queue with
  | request :: queue => .request request { inbox with queue }
  | [] => if inbox.hasSenders then .nothing else .disconnected

/-- The keeper receives no more; what is still in the inbox is lost. -/
def close (inbox : Inbox) : Inbox :=
  { inbox with queue := [], hasReceiver := false }

end Inbox

end HistoryKeeper
