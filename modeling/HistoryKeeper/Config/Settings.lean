import HistoryKeeper.Config.Error
import HistoryKeeper.Time.Duration

/-!
# Settings of a keeper

The settings that a keeper runs with, their defaults, and how they are read from the `actor` value
of a configuration: an object, or an array of the four settings in order.
-/

namespace HistoryKeeper

structure Settings where
  /-- Idle time after which the store's lock is given up. -/
  unlockInterval : Duration
  /-- How long the store waits for its lock. -/
  lockTimeout : Duration
  threadName : String
  /-- Answer reads from writes that are still queued. -/
  pendingLookup : Bool
  deriving DecidableEq, Repr

namespace Settings

/-- The lowest layer of every configuration. -/
def defaultLayer : Json :=
  .object [("actor", .object
    [("lock_timeout_ms", .ofNat 60000),
     ("pending_write_lookup", .bool true),
     ("thread_name", .string "cache-access"),
     ("unlock_interval_ms", .ofNat 2000)])]

def standard : Settings :=
  { unlockInterval := .ofMillis 2000
    lockTimeout := .ofMillis 60000
    threadName := "cache-access"
    pendingLookup := true }

/-! ### Reading the table -/

open Json (Fault)

def wrongType {α : Type} (j : Json) (expected : String) : Except Fault α :=
  .error (.invalidType (Json.found j) expected)

def natural (j : Json) : Except Fault UInt64 :=
  match j with
  | .number (.integer n) =>
    if 0 ≤ n && n < Word.size64 then .ok n.toNat.toUInt64
    else .error (.invalidValue (.integer n) "u64")
  | j => wrongType j "u64"

def text (j : Json) : Except Fault String :=
  match j with
  | .string s => .ok s
  | j => wrongType j "a string"

def boolean (j : Json) : Except Fault Bool :=
  match j with
  | .bool b => .ok b
  | j => wrongType j "a boolean"

/-- The settings of a table that have been read. -/
structure Partial where
  unlockInterval : Option UInt64 := none
  lockTimeout : Option UInt64 := none
  threadName : Option String := none
  pendingLookup : Option Bool := none

/-- One field of the table; a name that is no setting is passed over. -/
def readField (seen : Partial) (name : String) (j : Json) : Except Fault Partial := do
  if name = "unlock_interval_ms" then return { seen with unlockInterval := some (← natural j) }
  else if name = "lock_timeout_ms" then return { seen with lockTimeout := some (← natural j) }
  else if name = "thread_name" then return { seen with threadName := some (← text j) }
  else if name = "pending_write_lookup" then
    return { seen with pendingLookup := some (← boolean j) }
  else return seen

def required {α : Type} (name : String) (value : Option α) : Except Fault α :=
  match value with
  | some v => .ok v
  | none => .error (.missingField name)

def ofParts (unlock lock : UInt64) (threadName : String) (pendingLookup : Bool) : Settings :=
  { unlockInterval := .ofMillis unlock
    lockTimeout := .ofMillis lock
    threadName
    pendingLookup }

/-- The settings in an `actor` value. Fields are read in the order of their names, so the first
fault in that order is reported. -/
def ofJson (j : Json) : Except Fault Settings :=
  match j with
  | .object fields => do
    let seen ← fields.foldlM (fun seen (name, value) => readField seen name value) {}
    return ofParts (← required "unlock_interval_ms" seen.unlockInterval)
      (← required "lock_timeout_ms" seen.lockTimeout)
      (← required "thread_name" seen.threadName)
      (← required "pending_write_lookup" seen.pendingLookup)
  | .array items => do
    let expected := "struct ActorSection with 4 elements"
    let item (n : Nat) : Except Fault Json :=
      match items[n]? with
      | some v => .ok v
      | none => .error (.invalidLength n expected)
    let unlock ← natural (← item 0)
    let lock ← natural (← item 1)
    let name ← text (← item 2)
    let lookup ← boolean (← item 3)
    if 4 < items.length then throw (.invalidLength items.length "fewer elements in array")
    return ofParts unlock lock name lookup
  | j => wrongType j "struct ActorSection"

end Settings

end HistoryKeeper
