import HistoryKeeper.Keeper.Basic
import HistoryKeeper.Keeper.Status

/-!
# A keeper at work

A `System` is a keeper together with its store, its inbox and all that can be seen of it. The keeper
acts in small steps (`System.step`), between which callers, the clock and the store's world may move
on; each step makes at most one call on the store or receives at most one request. A step has no
result while the keeper waits and when it has ended.

A run opens the store, works under its lock, closes it, and leaves its summary. One round of work
takes in all that has arrived and then serves one read, or else applies one write, or else leaves if
a stop was asked for, or else idles. Idle time beyond the deadline of its `Pacing` is spent with the
lock given up.

A failed call on the store ends the run: work under the lock still writes back what it can, and the
store goes away without being closed. An `Interference` lets any call fail or panic.
-/

namespace HistoryKeeper

/-- What comes in place of a call on the store. -/
inductive Interference where
  | failure (e : StoreError)
  /-- Nothing is caught up on after a panic. Its payload may be text. -/
  | panic (text : Option String)
  deriving DecidableEq, Repr

/-- What a run ended of. -/
inductive Failure where
  | store (e : StoreError)
  | panic (text : Option String)
  deriving DecidableEq, Repr

namespace Failure

/-- The headline of its entry in the log. -/
def headline : Failure → String
  | store _ => "cache access actor failed"
  | panic _ => "cache access actor panicked"

def detail : Failure → String
  | store e => e.message
  | panic text => text.getD "non-string panic payload"

end Failure

/-- How a keeper opens its store, which may fail or panic. -/
abbrev Opener (S W : Type) := EStateM Failure W S

/-- A way to open a store that does not panic. -/
def Opener.of {S W : Type} (opener : EStateM StoreError W S) : Opener S W :=
  opener.adaptExcept .store

/-- What a keeper does with an open store, up to the next step. -/
inductive Task where
  | entering
  /-- Taking in what has arrived. -/
  | collecting
  | choosing
  | answering (place : Nat) (read : PendingRead)
  | applying (write : PendingWrite)
  /-- Idle since an instant, with the lock. -/
  | waiting (since : Instant)
  | releasing
  /-- Idle without the lock. -/
  | released
  /-- Taking the lock again, with what was received while it was given up. -/
  | reacquiring (outcome : Except StoreError (Option Request))
  /-- The work under the lock is over, by itself or on a failure. -/
  | leaving (failure : Option StoreError)
  | closing

namespace Task

/-- The reads in hand: those out of the queues that have no answer yet. -/
def tokens : Task → List Token
  | answering _ read => [read.token]
  | reacquiring (.ok (some request)) => Request.readTokens [request]
  | _ => []

/-- Whether the task is part of the work under the lock. -/
def isInside : Task → Bool
  | entering | leaving _ | closing => false
  | _ => true

end Task

/-- How far a run has come. -/
inductive Stage (S W : Type) where
  | opening (opener : Opener S W)
  | working (store : S) (task : Task)
  /-- The run ends of a failure; the store goes away, if there is one. -/
  | failing (store : Option S) (cause : Failure)
  /-- Counting what arrived too late. -/
  | draining (failed : Bool)
  | finishing (failed : Bool)
  /-- Letting go of the inbox and of all that was not served. -/
  | parting
  | ended

structure System (S W : Type) where
  keeper : Keeper
  stage : Stage S W
  world : W
  inbox : Inbox
  status : Status
  clock : Instant
  startedAt : Instant
  /-- The reads that were answered, in order. -/
  answers : List (Token × Option Bytes)
  /-- The reads that never will be. -/
  dropped : List Token
  log : List Failure

namespace System

variable {S W : Type} [Store S W]

/-- A keeper that is about to open its store. -/
def start (keeper : Keeper) (opener : Opener S W) (world : W) (inbox : Inbox)
    (status : Status) (clock : Instant) : System S W :=
  { keeper
    stage := .opening opener
    world
    inbox
    status
    clock
    startedAt := clock
    answers := []
    dropped := []
    log := [] }

/-! ### Pieces of steps -/

def go (s : System S W) (store : S) (task : Task) : System S W :=
  { s with stage := .working store task }

def fail (s : System S W) (store : Option S) (cause : Failure) : System S W :=
  { s with stage := .failing store cause }

/-- A task breaks off on an error. The reads in hand get no answer. -/
def breakOff (s : System S W) (store : S) (task : Task) (e : StoreError) : System S W :=
  let s := { s with dropped := s.dropped ++ task.tokens }
  if task.isInside then s.go store (.leaving (some e)) else s.fail (some store) (.store e)

/-- A task panics. -/
def crash (s : System S W) (store : S) (task : Task) (text : Option String) : System S W :=
  { s with dropped := s.dropped ++ task.tokens }.fail (some store) (.panic text)

/-- A task's call on the store, or what interferes with it. -/
def attempt {α : Type} (s : System S W) (interference : Option Interference) (store : S)
    (task : Task) (call : StoreCall S W α) (next : α → S → System S W → System S W) : System S W :=
  match interference with
  | some (.failure e) => s.breakOff store task e
  | some (.panic text) => s.crash store task text
  | none =>
    match call (store, s.world) with
    | .ok v (store, world) => next v store { s with world }
    | .error e (store, world) => { s with world }.breakOff store task e

/-- Give a read its answer. -/
def reply (s : System S W) (read : PendingRead) (value : Option Bytes) (fromWrites : Bool) :
    System S W :=
  let tally := s.keeper.tally
  let tally :=
    { tally with
      readsServed := tally.readsServed + 1
      readsFromPendingWrites := tally.readsFromPendingWrites + if fromWrites then 1 else 0 }
  { s with
    keeper := { s.keeper with tally }
    answers := s.answers ++ [(read.token, value)] }

/-- The cache of a request, opened on first use; `next` goes on once it is open. -/
def withCache (s : System S W) (interference : Option Interference) (store : S) (task : Task)
    (cache : CacheIdentity) (next : CacheId → System S W) : System S W :=
  match s.keeper.caches.get? cache.name with
  | some c => next c
  | none =>
    s.attempt interference store task (Store.openCache ((Store.baseDir store).join cache.fileName))
      fun c store s =>
        { s with keeper := { s.keeper with caches := s.keeper.caches.insert cache.name c } }.go
          store task

/-- Go back to work after a wait with what was received, if anything was; `none` is a stop. -/
def resume (s : System S W) (store : S) (waited : Duration) (lockReleased : Bool)
    (received : Option (Option Request)) : System S W :=
  match s.keeper.tally.recordIdle waited lockReleased with
  | none =>
    let lost := ((received.join).map fun r => Request.readTokens [r]).getD []
    { s with dropped := s.dropped ++ lost }.fail (some store) (.panic (some Tally.overflow))
  | some tally =>
    let keeper := { s.keeper with tally }
    let keeper :=
      match received with
      | some received => keeper.wake received
      | none => keeper
    { s with keeper }.go store .collecting

/-! ### The tasks -/

/-- One request is taken in, or there is none. -/
def collect (s : System S W) (store : S) : System S W :=
  match s.inbox.receive with
  | .request request inbox =>
    { s with keeper := s.keeper.enqueue request, inbox }.go store .collecting
  | .nothing => s.go store .choosing
  | .disconnected => { s with keeper := s.keeper.requestStop }.go store .choosing

/-- Reads come first, then writes, then the stop. -/
def choose (s : System S W) (store : S) : System S W :=
  match s.keeper.reads, s.keeper.writes with
  | (place, read) :: reads, _ =>
    { s with keeper := { s.keeper with reads } }.go store (.answering place read)
  | [], (_, write) :: writes =>
    { s with keeper := { s.keeper with writes } }.go store (.applying write)
  | [], [] =>
    if s.keeper.stopRequested then s.go store (.leaving none)
    else if s.keeper.pacing.isReleaseDue s.clock then
      { s with keeper := { s.keeper with pacing := s.keeper.pacing.release s.clock } }.go
        store .releasing
    else s.go store (.waiting s.clock)

def answer (s : System S W) (interference : Option Interference) (store : S) (place : Nat)
    (read : PendingRead) : System S W :=
  match s.keeper.queuedValue place read with
  | some value => (s.reply read value true).go store .collecting
  | none =>
    let task := .answering place read
    s.withCache interference store task read.cache fun c =>
      s.attempt interference store task (Store.get c read.key) fun value store s =>
        (s.reply read value false).go store .collecting

def apply (s : System S W) (interference : Option Interference) (store : S) (write : PendingWrite) :
    System S W :=
  let task := .applying write
  s.withCache interference store task write.cache fun c =>
    let call :=
      match write.change with
      | .put value => Store.put c write.key value
      | .remove => Store.remove c write.key
    s.attempt interference store task call fun _ store s =>
      let tally := { s.keeper.tally with writesApplied := s.keeper.tally.writesApplied + 1 }
      { s with keeper := { s.keeper with tally } }.go store .collecting

/-- Idle with the lock, until a request arrives or the deadline passes. -/
def wait (s : System S W) (store : S) (since : Instant) : Option (System S W) :=
  let waited := s.clock.since since
  match s.inbox.receive with
  | .request request inbox =>
    some ({ s with inbox }.resume store waited false (some (some request)))
  | .disconnected => some (s.resume store waited false (some none))
  | .nothing =>
    match s.keeper.pacing.deadline with
    | some deadline =>
      if deadline ≤ s.clock then some (s.resume store waited false none) else none
    | none => none

/-- Idle without the lock, until a request arrives. -/
def waitReleased (s : System S W) (interference : Option Interference) (store : S) :
    Option (System S W) :=
  match interference with
  | some (.failure e) => some (s.go store (.reacquiring (.error e)))
  | some (.panic text) => some (s.crash store .released text)
  | none =>
    match s.inbox.receive with
    | .request request inbox => some ({ s with inbox }.go store (.reacquiring (.ok (some request))))
    | .disconnected => some (s.go store (.reacquiring (.ok none)))
    | .nothing => none

/-- The lock is back. -/
def reacquired (s : System S W) (store : S) (outcome : Except StoreError (Option Request)) :
    System S W :=
  match outcome with
  | .error e => s.go store (.leaving (some e))
  | .ok received =>
    let (waited, pacing) := s.keeper.pacing.reacquire s.clock
    { s with keeper := { s.keeper with pacing } }.resume store waited true (some received)

def work (s : System S W) (interference : Option Interference) (store : S) (task : Task) :
    Option (System S W) :=
  match task with
  | .entering =>
    some <| s.attempt interference store task Store.enter fun _ store s =>
      let pacing := .start s.keeper.pacing.interval s.clock
      { s with keeper := { s.keeper with pacing } }.go store .collecting
  | .collecting => some (s.collect store)
  | .choosing => some (s.choose store)
  | .answering place read => some (s.answer interference store place read)
  | .applying write => some (s.apply interference store write)
  | .waiting since => s.wait store since
  | .releasing =>
    some <| s.attempt interference store task Store.release fun _ store s => s.go store .released
  | .released => s.waitReleased interference store
  | .reacquiring outcome =>
    some <| s.attempt interference store task Store.reacquire fun _ store s =>
      s.reacquired store outcome
  | .leaving failure =>
    some <| s.attempt interference store task Store.leave fun _ store s =>
      match failure with
      | some e => s.fail (some store) (.store e)
      | none => s.go store .closing
  | .closing =>
    some <| s.attempt interference store task Store.close fun _ _ s =>
      { s with stage := .draining false }

/-! ### Steps -/

/-- Open the store and publish where it is. -/
def openStore (s : System S W) (interference : Option Interference) (opener : Opener S W) :
    System S W :=
  match interference with
  | some (.failure e) => s.fail none (.store e)
  | some (.panic text) => s.fail none (.panic text)
  | none =>
    match opener s.world with
    | .ok store world =>
      { s with world, status := s.status.publishStore (Store.baseDir store) }.go store .entering
    | .error cause world => { s with world }.fail none cause

/-- The keeper's next step; none if it waits or has ended. -/
def step (s : System S W) (interference : Option Interference) : Option (System S W) :=
  match s.stage with
  | .opening opener => some (s.openStore interference opener)
  | .working store task => s.work interference store task
  | .failing store cause =>
    let world :=
      match store with
      | some store => (Store.abandon (store, s.world)).2
      | none => s.world
    some
      { s with
        world
        log := s.log ++ [cause]
        status := s.status.markFailed
        stage := .draining true }
  | .draining failed =>
    match s.inbox.receive with
    | .request request inbox => some { s with keeper := s.keeper.enqueue request, inbox }
    | _ => some { s with stage := .finishing failed }
  | .finishing failed =>
    let summary := s.keeper.summarize s.startedAt s.clock s.status.blocked failed
    some { s with status := s.status.finish summary, stage := .parting }
  | .parting =>
    let lost := Request.readTokens s.inbox.queue ++ s.keeper.reads.map (·.2.token)
    some
      { s with
        dropped := s.dropped ++ lost
        keeper := { s.keeper with reads := [], writes := [] }
        inbox := s.inbox.close
        stage := .ended }
  | .ended => none

def hasEnded (s : System S W) : Bool :=
  match s.stage with
  | .ended => true
  | _ => false

/-! ### What others do -/

/-- The clock moves on. -/
def tick (s : System S W) (nanos : Nat) : System S W :=
  { s with clock := ⟨s.clock.nanos + nanos⟩ }

/-- A request is sent, if the keeper still receives. -/
def send (s : System S W) (request : Request) : Option (System S W) :=
  (s.inbox.send request).map fun inbox => { s with inbox }

/-- The last sender is gone. -/
def disconnect (s : System S W) : System S W :=
  { s with inbox := { s.inbox with hasSenders := false } }

/-- What the caller of a read gets: its answer, an error once the read is dropped, and nothing
before that. -/
def outcome? (s : System S W) (token : Token) : Option (Except CacheError (Option Bytes)) :=
  match s.answers.find? (·.1 = token) with
  | some (_, value) => some (.ok value)
  | none => if s.dropped.contains token then some (.error s.status.disconnectedError) else none

end System

end HistoryKeeper
