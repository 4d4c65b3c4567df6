import HistoryKeeper.Config.Settings
import HistoryKeeper.Keeper.Handle
import HistoryKeeper.Keeper.Service

/-!
# Controllers

A `Controller` owns a keeper. Caches are declared on it at any time; the keeper opens the store
after `start` and ends at `stop`. These are the calls of a program with one thread besides the
keeper's.
-/

namespace HistoryKeeper

structure Controller (S W : Type) where
  settings : Settings
  registry : Registry
  service : Service S W
  /-- The number of the next token. -/
  nextToken : Nat

namespace Controller

variable {S W : Type} [Store S W] {key : ValueType} {codec : Codec}

/-- A controller whose keeper has not been started. -/
def new (settings : Settings) (opener : Opener S W) (world : W) : Controller S W :=
  let keeper := Keeper.new settings.unlockInterval settings.pendingLookup .zero
  { settings
    registry := []
    service := .new (.start keeper opener world .empty {} .zero)
    nextToken := 0 }

def status (c : Controller S W) : Status :=
  c.service.system.status

def world (c : Controller S W) : W :=
  c.service.system.world

def log (c : Controller S W) : List Failure :=
  c.service.system.log

/-- Something happens in the world of the store. -/
def change (c : Controller S W) (f : W → W) : Controller S W :=
  { c with
    service := { c.service with
      system := { c.service.system with world := f c.service.system.world } } }

def declare (c : Controller S W) (name : String) (key : ValueType) (codec : Codec) :
    Except CacheError (Handle key codec) × Controller S W :=
  match Handle.declare c.registry name key codec with
  | .ok (h, registry) => (.ok h, { c with registry })
  | .error e => (.error e, c)

/-- A call, seen through to its end. -/
def perform (c : Controller S W) (call : Call) : Except CacheError Reply × Controller S W :=
  let (result, service) := c.service.perform call
  (result.getD (.error .keeperPanicked), { c with service })

def start (c : Controller S W) : Except CacheError Unit × Controller S W :=
  let (result, c) := c.perform .starting
  (result.map fun _ => (), c)

/-- Stop the keeper once it has served what was sent before. -/
def stop (c : Controller S W) : Except CacheError Summary × Controller S W :=
  let (result, c) := c.perform .stopping
  match result with
  | .ok (.summary summary) => (.ok summary, c)
  | .ok _ => (.error .keeperPanicked, c)
  | .error e => (.error e, c)

/-- Read a key and wait for the answer. -/
def get (c : Controller S W) (h : Handle key codec) (k : key.Carrier) :
    Except CacheError (Option codec.Carrier) × Controller S W :=
  let request := h.readRequest k ⟨c.nextToken⟩
  let (result, c) := { c with nextToken := c.nextToken + 1 }.perform (.asking request)
  let answer :=
    match result with
    | .ok (.value v) => .ok v
    | .ok _ => .ok none
    | .error e => .error e
  (codec.decodeAnswer answer, c)

/-- Send a write; it is applied later. -/
def put (c : Controller S W) (h : Handle key codec) (k : key.Carrier) (v : codec.Carrier) :
    Except CacheError Unit × Controller S W :=
  let (result, c) := c.perform (.asking (h.putRequest k v))
  (result.map fun _ => (), c)

def remove (c : Controller S W) (h : Handle key codec) (k : key.Carrier) :
    Except CacheError Unit × Controller S W :=
  let (result, c) := c.perform (.asking (h.removeRequest k))
  (result.map fun _ => (), c)

/-- Let the keeper act until it waits or has ended. -/
def settle (c : Controller S W) : Controller S W :=
  { c with service := c.service.settle }

/-- Let time pass. -/
def pass (c : Controller S W) (d : Duration) : Controller S W :=
  { c with service := c.service.pass d }

/-- Go away, stopping the keeper if it runs. -/
def release (c : Controller S W) : Controller S W :=
  if c.status.started then c.stop.2 else c

end Controller

end HistoryKeeper
