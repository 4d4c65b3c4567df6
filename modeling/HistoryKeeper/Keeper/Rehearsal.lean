import HistoryKeeper.Keeper.Event
import HistoryKeeper.Keeper.Handle
import HistoryKeeper.Keeper.Service

/-!
# Rehearsals

A rehearsal runs a keeper through a script and needs no threads. Some cues are given before the
keeper begins; a hook gives more when its event comes up, so they arrive while the keeper is in the
middle of a call, and it may let the call fail. Whenever the keeper has given the lock up and
nothing arrived, it is told to stop. An idle keeper sleeps until its deadline.
-/

namespace HistoryKeeper

/-- What a script has callers do. -/
inductive Cue (W : Type) where
  | get {key : ValueType} {codec : Codec} (h : Handle key codec) (k : key.Carrier)
  | put {key : ValueType} {codec : Codec} (h : Handle key codec) (k : key.Carrier)
      (v : codec.Carrier)
  | remove {key : ValueType} {codec : Codec} (h : Handle key codec) (k : key.Carrier)
  | stop
  /-- A stop request without word to the callers. -/
  | stopMessage
  /-- Every handle and sender goes away. -/
  | disconnect
  | change (f : W → W)
  /-- Something that is asked of a handle which does not exist. -/
  | astray

/-- What is to happen when an event comes up for the first time. -/
structure Hook (W : Type) where
  event : String
  cues : List (Cue W)
  interference : Option Interference

/-- What came of a cue. -/
inductive CueResult where
  | done
  | failed (e : CacheError)
  | absent
  | found (codec : Codec) (v : codec.Carrier)
  | noHandle

/-- A cue whose result is not known yet. -/
inductive Pending where
  | settled (result : CueResult)
  /-- A call, with the codec of what it may bring back. -/
  | call (codec : Codec) (id : CallId)

/-- What is written down of a run. -/
inductive Mark where
  | event (e : Event)
  /-- What the keeper says to the store in a call that goes through. -/
  | description (text : String)
  deriving DecidableEq, Repr

structure Rehearsal (S W : Type) where
  service : Service S W
  hooks : List (Hook W)
  /-- The handles are gone. -/
  disconnected : Bool
  nextToken : Nat
  /-- The cues that were given, in order. -/
  given : List Pending
  trace : List Mark

namespace Rehearsal

variable {S W : Type} [Store S W]

/-- Before the first cue, with a keeper that counts as started. -/
def new (interval : Duration) (pendingLookup : Bool) (opener : Opener S W) (world : W)
    (hooks : List (Hook W)) : Rehearsal S W :=
  let keeper := Keeper.new interval pendingLookup .zero
  let system := System.start keeper opener world .empty { started := true } .zero
  { service := { Service.new system with launched := true, running := true }
    hooks
    disconnected := false
    nextToken := 0
    given := []
    trace := [] }

/-! ### Cues -/

def settle (r : Rehearsal S W) (result : CueResult) : Rehearsal S W :=
  { r with given := r.given ++ [.settled result] }

/-- Let a call act until it waits. -/
def callUntilWaiting : (fuel : Nat) → CallId → Service S W → Service S W
  | 0, _, s => s
  | fuel + 1, i, s =>
    match s.callStep i with
    | some s => callUntilWaiting fuel i s
    | none => s

/-- Ask something of a handle. -/
def ask (r : Rehearsal S W) (codec : Codec) (request : Except CodecError Request) :
    Rehearsal S W :=
  if r.disconnected then r.settle .noHandle
  else
    let i := r.service.calls.length
    let service := { r.service with calls := r.service.calls ++ [.asking request] }
    { r with service := callUntilWaiting 3 i service, given := r.given ++ [.call codec i] }

def withSystem (r : Rehearsal S W) (f : System S W → System S W) : Rehearsal S W :=
  { r with service := { r.service with system := f r.service.system } }

def sendStop (r : Rehearsal S W) : Rehearsal S W :=
  if r.disconnected then r else r.withSystem fun s => (s.send .stop).getD s

def give (r : Rehearsal S W) (cue : Cue W) : Rehearsal S W :=
  match cue with
  | @Cue.get _ _ codec h k =>
    { r with nextToken := r.nextToken + 1 }.ask codec (h.readRequest k ⟨r.nextToken⟩)
  | @Cue.put _ _ codec h k v => r.ask codec (h.putRequest k v)
  | @Cue.remove _ _ codec h k => r.ask codec (h.removeRequest k)
  | .stop => ({ r with service := r.service.withStatus (·.requestStop) }.sendStop).settle .done
  | .stopMessage => r.sendStop.settle .done
  | .disconnect => { r with disconnected := true }.settle .done
  | .change f => (r.withSystem fun s => { s with world := f s.world }).settle .done
  | .astray => r.settle .noHandle

def giveAll (r : Rehearsal S W) (cues : List (Cue W)) : Rehearsal S W :=
  cues.foldl give r

/-! ### The run -/

/-- Whether someone still waits for an answer, and so can still send. -/
def someoneWaits (r : Rehearsal S W) : Bool :=
  r.service.calls.any fun
    | .awaiting token _ => (r.service.system.outcome? token).isNone
    | _ => false

/-- Once the handles are gone, the last answer takes the last sender away. -/
def hangUp (r : Rehearsal S W) : Rehearsal S W :=
  if r.disconnected && !r.someoneWaits then r.withSystem (·.disconnect) else r

def mark (r : Rehearsal S W) (m : Mark) : Rehearsal S W :=
  { r with trace := r.trace ++ [m] }

/-- An event comes up: its hook is used up, and says what interferes with the call. -/
def fire (r : Rehearsal S W) (event : Event) : Option Interference × Rehearsal S W :=
  let r := r.mark (.event event)
  let matching (hook : Hook W) : Bool := hook.event = event.text
  let (interference, r) :=
    match r.hooks.find? matching with
    | none => (none, r)
    | some hook =>
      (hook.interference, { r with hooks := r.hooks.eraseP matching }.giveAll hook.cues)
  let r := r.hangUp
  let r :=
    match interference, event.description? with
    | none, some text => r.mark (.description text)
    | _, _ => r
  let inbox := r.service.system.inbox
  if event = .released && inbox.queue.isEmpty && !r.disconnected then
    (interference, r.give .stop)
  else (interference, r)

/-- The keeper's next step, with the event that it is. -/
def step (r : Rehearsal S W) : Option (Rehearsal S W) :=
  let (interference, r) :=
    match r.service.system.event? with
    | some event => r.fire event
    | none => (none, r.hangUp)
  (r.service.keeperStep interference).map fun service => { r with service }

/-- Sleep until the deadline, if there is one ahead. -/
def sleep (r : Rehearsal S W) : Option (Rehearsal S W) :=
  match r.service.system.stage, r.service.system.keeper.pacing.deadline with
  | .working _ (.waiting _), some deadline =>
    if deadline ≤ r.service.system.clock then none
    else some (r.withSystem fun s => { s with clock := deadline })
  | _, _ => none

def runWithin : (fuel : Nat) → Rehearsal S W → Rehearsal S W
  | 0, r => r
  | fuel + 1, r =>
    match r.step with
    | some r => runWithin fuel r
    | none =>
      match r.sleep with
      | some r => runWithin fuel r
      | none => r

/-- More steps than a run with these hooks can take. -/
def effort (r : Rehearsal S W) : Nat :=
  let cues := (r.hooks.flatMap (·.cues)).length
  16 * (r.service.system.inbox.queue.length + cues + r.hooks.length) + 64

/-- Give the first cues, and let the keeper run to its end. -/
def run (r : Rehearsal S W) (cues : List (Cue W)) : Rehearsal S W :=
  let r := (r.giveAll cues).hangUp
  runWithin r.effort r

/-! ### The outcome -/

/-- What came of a cue, after the run. -/
def resultOf (r : Rehearsal S W) (pending : Pending) : CueResult :=
  match pending with
  | .settled result => result
  | .call codec i =>
    match (callUntilWaiting 1 i r.service).result? i with
    | some (.ok (.value v)) =>
      match codec.decodeAnswer (.ok v) with
      | .ok (some v) => .found codec v
      | .ok none => .absent
      | .error e => .failed e
    | some (.ok _) => .done
    | some (.error e) => .failed e
    | none => .failed r.service.system.status.disconnectedError

def results (r : Rehearsal S W) : List CueResult :=
  r.given.map r.resultOf

end Rehearsal

end HistoryKeeper
