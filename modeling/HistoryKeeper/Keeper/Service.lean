import HistoryKeeper.Keeper.System

/-!
# Calls on a keeper

A `Service` is a keeper's system together with the calls that are made on it from any number of
threads. A call acts in small steps too (`Service.callStep`), so calls and the keeper can be
interleaved in every way, and whoever has to wait has no step.

- A request first asks whether requests are accepted and is sent in a second step; a read then
  awaits its answer.
- A start takes the launch, of which there is one, makes the thread, puts it into its place and
  marks the keeper as started.
- A stop claims the place of the thread. With the thread in hand it holds the place until it has
  seen the thread end; without, it reports the summary that an earlier stop left.

`Service.perform` is the schedule of a single caller: the keeper acts only while the call waits.
-/

namespace HistoryKeeper

/-- What a call brings back. -/
inductive Reply where
  | done
  | value (v : Option Bytes)
  | summary (s : Summary)
  deriving DecidableEq, Repr

/-- How far a call has come. -/
inductive Call where
  /-- A request, or the reason that there is none, before it is accepted. -/
  | asking (request : Except CodecError Request)
  | sending (request : Request)
  | awaiting (token : Token) (since : Instant)
  | starting
  | spawning
  | registering
  | marking
  | stopping
  | claiming
  | requestingStop
  | sendingStop
  | joining
  | finishing
  | returned (result : Except CacheError Reply)

/-- The number of a call in its service. -/
abbrev CallId := Nat

structure Service (S W : Type) where
  system : System S W
  /-- Someone has taken the launch. -/
  launched : Bool
  /-- The keeper has its thread. -/
  running : Bool
  /-- The thread is in its place, so that it can be claimed. -/
  threadInPlace : Bool
  /-- The stop that holds the place of the thread. -/
  holder : Option CallId
  calls : List Call

namespace Service

variable {S W : Type} [Store S W]

def new (system : System S W) : Service S W :=
  { system
    launched := false
    running := false
    threadInPlace := false
    holder := none
    calls := [] }

/-! ### Steps -/

/-- The keeper acts. -/
def keeperStep (s : Service S W) (interference : Option Interference) : Option (Service S W) :=
  if s.running then (s.system.step interference).map fun system => { s with system } else none

/-- A call goes on to its next stage. -/
def become (s : Service S W) (i : CallId) (call : Call) : Service S W :=
  { s with calls := s.calls.set i call }

def finishCall (s : Service S W) (i : CallId) (result : Except CacheError Reply) : Service S W :=
  s.become i (.returned result)

def withStatus (s : Service S W) (f : Status → Status) : Service S W :=
  { s with system := { s.system with status := f s.system.status } }

/-- A request goes into the inbox. -/
def sendRequest (s : Service S W) (i : CallId) (request : Request) : Service S W :=
  match s.system.send request with
  | none => s.finishCall i (.error s.system.status.disconnectedError)
  | some system =>
    match request with
    | .read read => { s with system }.become i (.awaiting read.token system.clock)
    | _ => { s with system }.finishCall i (.ok .done)

/-- The stop takes the thread, or reports what an earlier one left. -/
def claim (s : Service S W) (i : CallId) : Service S W :=
  if s.threadInPlace then
    { s with threadInPlace := false, holder := some i }.become i .requestingStop
  else
    match s.system.status.summary with
    | some summary => s.finishCall i (.ok (.summary summary))
    | none => s.finishCall i (.error .keeperPanicked)

/-- The thread has ended. Waits that were recorded since are added to its summary. -/
def finishStop (s : Service S W) (i : CallId) : Service S W :=
  let s := { s with holder := none }
  match s.system.status.summary with
  | some summary =>
    let summary := { summary with blockedReads := s.system.status.blocked }
    (s.withStatus (·.finish summary)).finishCall i (.ok (.summary summary))
  | none => (s.withStatus (·.markAbandoned)).finishCall i (.error .keeperPanicked)

/-- A call's next step; none if it waits or has returned. -/
def callStep (s : Service S W) (i : CallId) : Option (Service S W) :=
  match s.calls[i]? with
  | none => none
  | some call =>
    match call with
    | .asking request =>
      match s.system.status.checkAccepting, request with
      | .error e, _ => some (s.finishCall i (.error e))
      | .ok _, .error e => some (s.finishCall i (.error (.codec e)))
      | .ok _, .ok request => some (s.become i (.sending request))
    | .sending request => some (s.sendRequest i request)
    | .awaiting token since =>
      match s.system.outcome? token with
      | none => none
      | some result =>
        let s := s.withStatus (·.recordBlocked (s.system.clock.since since))
        some (s.finishCall i (result.map .value))
    | .starting =>
      if s.launched then some (s.finishCall i (.error .alreadyStarted))
      else some ({ s with launched := true }.become i .spawning)
    | .spawning =>
      let system := { s.system with startedAt := s.system.clock }
      some ({ s with running := true, system }.become i .registering)
    | .registering =>
      if s.holder.isSome then none
      else some ({ s with threadInPlace := true }.become i .marking)
    | .marking => some ((s.withStatus (·.markStarted)).finishCall i (.ok .done))
    | .stopping =>
      if s.system.status.started then some (s.become i .claiming)
      else some (s.finishCall i (.error .notStarted))
    | .claiming => if s.holder.isSome then none else some (s.claim i)
    | .requestingStop => some ((s.withStatus (·.requestStop)).become i .sendingStop)
    | .sendingStop =>
      let system := (s.system.send .stop).getD s.system
      some ({ s with system }.become i .joining)
    | .joining => if s.system.hasEnded then some (s.become i .finishing) else none
    | .finishing => some (s.finishStop i)
    | .returned _ => none

/-! ### One caller -/

/-- The keeper acts, which takes it a nanosecond. -/
def keeperTurn (s : Service S W) : Option (Service S W) :=
  (s.keeperStep none).map fun s => { s with system := s.system.tick 1 }

/-- Let the keeper act until it waits or has ended, for at most `fuel` steps. -/
def settleWithin : (fuel : Nat) → Service S W → Service S W
  | 0, s => s
  | fuel + 1, s =>
    match s.keeperTurn with
    | some s => settleWithin fuel s
    | none => s

/-- More steps than the keeper can take before it waits or ends, if nothing else arrives. -/
def effort (s : Service S W) : Nat :=
  let k := s.system.keeper
  16 * (s.system.inbox.queue.length + k.reads.length + k.writes.length) + 64

def settle (s : Service S W) : Service S W :=
  s.settleWithin s.effort

/-- Let a call act for as long as it can, and the keeper only when the call waits. -/
def completeWithin : (fuel : Nat) → CallId → Service S W → Service S W
  | 0, _, s => s
  | fuel + 1, i, s =>
    match s.callStep i with
    | some s => completeWithin fuel i s
    | none =>
      match s.calls[i]? with
      | some (.returned _) | none => s
      | some _ =>
        match s.keeperTurn with
        | some s => completeWithin fuel i s
        | none => s

/-- The result of a call that has returned. -/
def result? (s : Service S W) (i : CallId) : Option (Except CacheError Reply) :=
  match s.calls[i]? with
  | some (.returned result) => some result
  | _ => none

/-- Make a call and see it through; no result if it waits for something that does not come. -/
def perform (s : Service S W) (call : Call) : Option (Except CacheError Reply) × Service S W :=
  let i := s.calls.length
  let s := { s with calls := s.calls ++ [call] }
  let s := completeWithin (s.effort + 16) i s
  (s.result? i, { s with calls := s.calls.take i })

/-- Time passes. An idle keeper wakes up at its deadline, if that falls into this time. -/
def pass (s : Service S W) (d : Duration) : Service S W :=
  let s := s.settle
  let stop : Instant := ⟨s.system.clock.nanos + d.nanos⟩
  let s :=
    match s.system.keeper.pacing.deadline with
    | some deadline =>
      if s.system.clock ≤ deadline && deadline ≤ stop then
        { s with system := { s.system with clock := deadline } }.settle
      else s
    | none => s
  { s with system := { s.system with clock := ⟨max s.system.clock.nanos stop.nanos⟩ } }

end Service

end HistoryKeeper
