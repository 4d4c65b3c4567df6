import HistoryKeeper.Keeper.System
import HistoryKeeper.Proofs.Store.StoreView

/-!
# What a step of a keeper can do

`System.Moves` lists the outcomes of a step, each with what has to be the case for it
(`moves_of_step`). What holds of every outcome is proved by cases on it; the functions that make up
`System.step` need not be opened again.

The rules at the beginning are for the pieces of steps: to show that the outcome of `attempt` has a
property, show it for each way in which the attempt can end.
-/

namespace HistoryKeeper

namespace Task

/-- The task is a call on the store. -/
def Calls : Task → Prop
  | .collecting | .choosing | .waiting _ | .released => False
  | _ => True

/-- The cache that a request in hand is about. -/
def cache? : Task → Option CacheIdentity
  | .answering _ read => some read.cache
  | .applying write => some write.cache
  | _ => none

end Task

/-- Go on with what has ended an idle time: a request, a stop, or only the deadline. -/
def Keeper.hear (k : Keeper) : Option (Option Request) → Keeper
  | some received => k.wake received
  | none => k

namespace Inbox

variable {inbox rest : Inbox} {request : Request}

theorem queue_of_receive (h : inbox.receive = .request request rest) :
    inbox.queue = request :: rest.queue ∧ rest.hasSenders = inbox.hasSenders ∧
      rest.hasReceiver = inbox.hasReceiver := by
  unfold receive at h
  split at h
  · rename_i hqueue
    cases h
    exact ⟨hqueue, rfl, rfl⟩
  · split at h <;> cases h

theorem queue_of_nothing (h : inbox.receive = .nothing) : inbox.queue = [] := by
  unfold receive at h
  split at h
  · cases h
  · assumption

theorem hasSenders_of_nothing (h : inbox.receive = .nothing) : inbox.hasSenders = true := by
  unfold receive at h
  split at h
  · cases h
  · split at h
    · assumption
    · cases h

theorem queue_of_disconnected (h : inbox.receive = .disconnected) : inbox.queue = [] := by
  unfold receive at h
  split at h
  · cases h
  · assumption

theorem hasSenders_of_disconnected (h : inbox.receive = .disconnected) :
    inbox.hasSenders = false := by
  unfold receive at h
  split at h
  · cases h
  · split at h
    · cases h
    · exact Bool.eq_false_iff.mpr ‹_›

theorem receive_ne_disconnected (h : inbox.hasSenders = true) : inbox.receive ≠ .disconnected := by
  unfold receive
  rw [h]
  split <;> exact nofun

end Inbox

namespace System

variable {S W : Type}

section
variable {P : System S W → Prop} {s : System S W} {interference : Option Interference} {store : S}
  {task : Task}

theorem attempt_rule {α : Type} {call : StoreCall S W α} {next : α → S → System S W → System S W}
    (hbreak : ∀ e, interference = some (.failure e) → P (s.breakOff store task e))
    (hcrash : ∀ text, interference = some (.panic text) → P (s.crash store task text))
    (herror : ∀ e st', interference = none → call (store, s.world) = .error e st' →
      P ({ s with world := st'.2 }.breakOff st'.1 task e))
    (hok : ∀ v st', interference = none → call (store, s.world) = .ok v st' →
      P (next v st'.1 { s with world := st'.2 })) :
    P (s.attempt interference store task call next) := by
  unfold attempt
  split
  · exact hbreak _ rfl
  · exact hcrash _ rfl
  · split
    · exact hok _ _ rfl ‹_›
    · exact herror _ _ rfl ‹_›

theorem attempt_of_ok {α : Type} {call : StoreCall S W α}
    {next : α → S → System S W → System S W} {world : W} {v : α} {st : S × W}
    (hworld : s.world = world) (hcall : call (store, world) = .ok v st) :
    s.attempt none store task call next = next v st.1 { s with world := st.2 } := by
  unfold attempt
  rw [hworld, hcall]

theorem attempt_of_error {α : Type} {call : StoreCall S W α}
    {next : α → S → System S W → System S W} {world : W} {e : StoreError} {st : S × W}
    (hworld : s.world = world) (hcall : call (store, world) = .error e st) :
    s.attempt none store task call next = { s with world := st.2 }.breakOff st.1 task e := by
  unfold attempt
  rw [hworld, hcall]

theorem breakOff_rule {e : StoreError}
    (hinside : task.isInside = true →
      P ({ s with dropped := s.dropped ++ task.tokens }.go store (.leaving (some e))))
    (houtside : task.isInside = false →
      P ({ s with dropped := s.dropped ++ task.tokens }.fail (some store) (.store e))) :
    P (s.breakOff store task e) := by
  unfold breakOff
  cases h : task.isInside with
  | true => exact hinside h
  | false => exact houtside h

theorem withCache_rule [Store S W] {cache : CacheIdentity} {next : CacheId → System S W}
    (hopen : ∀ c, s.keeper.caches.get? cache.name = some c → P (next c))
    (hclosed : s.keeper.caches.get? cache.name = none →
      P (s.attempt interference store task
        (Store.openCache ((Store.baseDir store).join cache.fileName)) fun c store s =>
          { s with keeper := { s.keeper with caches := s.keeper.caches.insert cache.name c } }.go
            store task)) :
    P (s.withCache interference store task cache next) := by
  unfold withCache
  cases h : s.keeper.caches.get? cache.name with
  | some c => exact hopen c h
  | none => exact hclosed h

theorem withCache_of_get? [Store S W] {cache : CacheIdentity} {next : CacheId → System S W} {c : CacheId}
    (h : s.keeper.caches.get? cache.name = some c) :
    s.withCache interference store task cache next = next c := by
  unfold withCache
  rw [h]

theorem apply_eq [Store S W] (s : System S W) (interference : Option Interference) (store : S)
    (write : PendingWrite) : s.apply interference store write =
      s.withCache interference store (.applying write) write.cache fun c =>
        s.attempt interference store (.applying write) (write.change.call c write.key) fun _ store s =>
          { s with keeper := { s.keeper with
              tally := { s.keeper.tally with
                writesApplied := s.keeper.tally.writesApplied + 1 } } }.go store .collecting := by
  unfold apply Change.call
  cases write.change <;> rfl

theorem resume_rule {waited : Duration} {lockReleased : Bool} {received : Option (Option Request)}
    (hoverflow : s.keeper.tally.recordIdle waited lockReleased = none →
      P ({ s with dropped := s.dropped ++ Request.readTokens received.join.toList }.fail (some store)
        (.panic (some Tally.overflow))))
    (hrecorded : ∀ tally, s.keeper.tally.recordIdle waited lockReleased = some tally →
      P ({ s with keeper := { s.keeper with tally }.hear received }.go store .collecting)) :
    P (s.resume store waited lockReleased received) := by
  unfold resume
  cases ht : s.keeper.tally.recordIdle waited lockReleased with
  | some tally =>
    have hnext := hrecorded tally ht
    cases received <;> exact hnext
  | none =>
    have hnext := hoverflow ht
    rcases received with _ | _ | request <;> exact hnext

end

/-! ### All outcomes -/

/-- What ends an idle time, and for how long it has been. The lock, if it was given up, is back. -/
inductive Awakes [Store S W] (s : System S W) (store : S) :
    Task → (received : Option (Option Request)) → (waited : Duration) → (lockReleased : Bool) →
      System S W → S → Prop
  | request {since request inbox} : s.inbox.receive = .request request inbox →
      Awakes s store (.waiting since) (some (some request)) (s.clock.since since) false
        { s with inbox } store
  | disconnected {since} : s.inbox.receive = .disconnected →
      Awakes s store (.waiting since) (some none) (s.clock.since since) false s store
  | deadline {since deadline} : s.inbox.receive = .nothing →
      s.keeper.pacing.deadline = some deadline → deadline ≤ s.clock →
      Awakes s store (.waiting since) none (s.clock.since since) false s store
  | reacquired {received store' world} :
      Store.reacquire (store, s.world) = .ok () (store', world) →
      Awakes s store (.reacquiring (.ok received)) (some received)
        (s.keeper.pacing.reacquire s.clock).1 true
        { s with
          world
          keeper := { s.keeper with pacing := (s.keeper.pacing.reacquire s.clock).2 } } store'

inductive Moves [Store S W] (s : System S W) (interference : Option Interference) :
    System S W → Prop
  | opened {opener store world} : s.stage = .opening opener → interference = none →
      opener s.world = .ok store world →
      Moves s interference
        ({ s with world, status := s.status.publishStore (Store.baseDir store) }.go store .entering)
  | unopened {opener cause world} : s.stage = .opening opener →
      (interference = none → opener s.world = .error cause world) →
      Moves s interference ({ s with world }.fail none cause)
  /-- A failure inside the work under the lock. -/
  | broken {store task store' world e} : s.stage = .working store task → task.Calls →
      task.isInside = true →
      Moves s interference
        ({ s with world, dropped := s.dropped ++ task.tokens }.go store' (.leaving (some e)))
  /-- A failure before it or after it. -/
  | failed {store task store' world e} : s.stage = .working store task → task.Calls →
      task.isInside = false →
      Moves s interference ({ s with world }.fail (some store') (.store e))
  | crashed {store task text} : s.stage = .working store task → task.Calls ∨ task = .released →
      interference = some (.panic text) →
      Moves s interference
        ({ s with dropped := s.dropped ++ task.tokens }.fail (some store) (.panic text))
  | entered {store store' world} : s.stage = .working store .entering → interference = none →
      Store.enter (store, s.world) = .ok () (store', world) →
      Moves s interference
        ({ s with
          world
          keeper := { s.keeper with pacing := .start s.keeper.pacing.interval s.clock } }.go
            store' .collecting)
  | took {store request inbox} : s.stage = .working store .collecting →
      s.inbox.receive = .request request inbox →
      Moves s interference ({ s with keeper := s.keeper.enqueue request, inbox }.go store .collecting)
  | tookAll {store} : s.stage = .working store .collecting → s.inbox.receive = .nothing →
      Moves s interference (s.go store .choosing)
  | sawEnd {store} : s.stage = .working store .collecting → s.inbox.receive = .disconnected →
      Moves s interference ({ s with keeper := s.keeper.requestStop }.go store .choosing)
  | pickedRead {store place read reads} : s.stage = .working store .choosing →
      s.keeper.reads = (place, read) :: reads →
      Moves s interference
        ({ s with keeper := { s.keeper with reads } }.go store (.answering place read))
  | pickedWrite {store place write writes} : s.stage = .working store .choosing →
      s.keeper.reads = [] → s.keeper.writes = (place, write) :: writes →
      Moves s interference ({ s with keeper := { s.keeper with writes } }.go store (.applying write))
  | exited {store} : s.stage = .working store .choosing → s.keeper.reads = [] →
      s.keeper.writes = [] → s.keeper.stopRequested = true →
      Moves s interference (s.go store (.leaving none))
  | releases {store} : s.stage = .working store .choosing → s.keeper.reads = [] →
      s.keeper.writes = [] → s.keeper.stopRequested = false →
      s.keeper.pacing.isReleaseDue s.clock = true →
      Moves s interference
        ({ s with keeper := { s.keeper with pacing := s.keeper.pacing.release s.clock } }.go
          store .releasing)
  | rests {store} : s.stage = .working store .choosing → s.keeper.reads = [] →
      s.keeper.writes = [] → s.keeper.stopRequested = false →
      s.keeper.pacing.isReleaseDue s.clock = false →
      Moves s interference (s.go store (.waiting s.clock))
  | answeredFromWrites {store place read value} : s.stage = .working store (.answering place read) →
      s.keeper.queuedValue place read = some value →
      Moves s interference ((s.reply read value true).go store .collecting)
  | answeredFromStore {store place read c value store' world} :
      s.stage = .working store (.answering place read) → interference = none →
      s.keeper.queuedValue place read = none → s.keeper.caches.get? read.cache.name = some c →
      Store.get c read.key (store, s.world) = .ok value (store', world) →
      Moves s interference (({ s with world }.reply read value false).go store' .collecting)
  | openedCache {store task cache c store' world} : s.stage = .working store task →
      interference = none → task.cache? = some cache → s.keeper.caches.get? cache.name = none →
      Store.openCache ((Store.baseDir store).join cache.fileName) (store, s.world) =
        .ok c (store', world) →
      Moves s interference
        ({ s with
          world
          keeper := { s.keeper with caches := s.keeper.caches.insert cache.name c } }.go store' task)
  | applied {store write c store' world} : s.stage = .working store (.applying write) →
      interference = none → s.keeper.caches.get? write.cache.name = some c →
      write.change.call c write.key (store, s.world) = .ok () (store', world) →
      Moves s interference
        ({ s with
          world
          keeper := { s.keeper with
            tally := { s.keeper.tally with
              writesApplied := s.keeper.tally.writesApplied + 1 } } }.go store' .collecting)
  | released {store store' world} : s.stage = .working store .releasing → interference = none →
      Store.release (store, s.world) = .ok () (store', world) →
      Moves s interference ({ s with world }.go store' .released)
  /-- The work without the lock fails, which is told when the lock is back. -/
  | brokenReleased {store e} : s.stage = .working store .released →
      interference = some (.failure e) →
      Moves s interference (s.go store (.reacquiring (.error e)))
  | tookReleased {store request inbox} : s.stage = .working store .released → interference = none →
      s.inbox.receive = .request request inbox →
      Moves s interference ({ s with inbox }.go store (.reacquiring (.ok (some request))))
  | sawEndReleased {store} : s.stage = .working store .released → interference = none →
      s.inbox.receive = .disconnected →
      Moves s interference (s.go store (.reacquiring (.ok none)))
  | reacquiredBroken {store e store' world} :
      s.stage = .working store (.reacquiring (.error e)) → interference = none →
      Store.reacquire (store, s.world) = .ok () (store', world) →
      Moves s interference ({ s with world }.go store' (.leaving (some e)))
  | awoke {store task received waited lockReleased s₁ store₁ tally} :
      s.stage = .working store task → Awakes s store task received waited lockReleased s₁ store₁ →
      s.keeper.tally.recordIdle waited lockReleased = some tally →
      Moves s interference
        ({ s₁ with keeper := { s₁.keeper with tally }.hear received }.go store₁ .collecting)
  /-- The idle times do not fit a duration. -/
  | overflowed {store task received waited lockReleased s₁ store₁} :
      s.stage = .working store task → Awakes s store task received waited lockReleased s₁ store₁ →
      s.keeper.tally.recordIdle waited lockReleased = none →
      Moves s interference
        ({ s₁ with dropped := s.dropped ++ Request.readTokens received.join.toList }.fail
          (some store₁) (.panic (some Tally.overflow)))
  | left {store store' world} : s.stage = .working store (.leaving none) → interference = none →
      Store.leave (store, s.world) = .ok () (store', world) →
      Moves s interference ({ s with world }.go store' .closing)
  | leftFailed {store e store' world} : s.stage = .working store (.leaving (some e)) →
      interference = none → Store.leave (store, s.world) = .ok () (store', world) →
      Moves s interference ({ s with world }.fail (some store') (.store e))
  | closed {store store' world} : s.stage = .working store .closing → interference = none →
      Store.close (store, s.world) = .ok () (store', world) →
      Moves s interference { s with world, stage := .draining false }
  | letGo {store cause} : s.stage = .failing store cause →
      Moves s interference
        { s with
          world := match store with
            | some store => (Store.abandon (store, s.world)).2
            | none => s.world
          log := s.log ++ [cause]
          status := s.status.markFailed
          stage := .draining true }
  | drained {failed request inbox} : s.stage = .draining failed →
      s.inbox.receive = .request request inbox →
      Moves s interference { s with keeper := s.keeper.enqueue request, inbox }
  | drainedAll {failed} : s.stage = .draining failed → s.inbox.queue = [] →
      Moves s interference { s with stage := .finishing failed }
  | finished {failed} : s.stage = .finishing failed →
      Moves s interference
        { s with
          status := s.status.finish (s.keeper.summarize s.startedAt s.clock s.status.blocked failed)
          stage := .parting }
  | parted : s.stage = .parting →
      Moves s interference
        { s with
          dropped := s.dropped ++
            (Request.readTokens s.inbox.queue ++ s.keeper.reads.map (·.2.token))
          keeper := { s.keeper with reads := [], writes := [] }
          inbox := s.inbox.close
          stage := .ended }

/-! ### Every step is one of them -/

section
variable [Store S W] {s s' : System S W} {interference : Option Interference} {store store' : S}
  {task : Task}

theorem moves_breakOff {e : StoreError} (world : W) (hstage : s.stage = .working store task)
    (hcalls : task.Calls) :
    s.Moves interference ({ s with world }.breakOff store' task e) := by
  refine breakOff_rule (fun hinside => .broken hstage hcalls hinside) fun houtside => ?_
  have htokens : task.tokens = [] := by
    cases task with
    | entering | leaving _ | closing => rfl
    | _ => cases houtside
  rw [htokens, List.append_nil]
  exact .failed hstage hcalls houtside

theorem moves_attempt {α : Type} {call : StoreCall S W α}
    {next : α → S → System S W → System S W} (hstage : s.stage = .working store task)
    (hcalls : task.Calls)
    (hnext : ∀ v store' world, interference = none → call (store, s.world) = .ok v (store', world) →
      s.Moves interference (next v store' { s with world })) :
    s.Moves interference (s.attempt interference store task call next) :=
  attempt_rule (fun _ _ => moves_breakOff s.world hstage hcalls)
    (fun _ htext => .crashed hstage (Or.inl hcalls) htext)
    (fun _ st' _ _ => moves_breakOff st'.2 hstage hcalls) fun v st' => hnext v st'.1 st'.2

theorem moves_withCache {cache : CacheIdentity} {next : CacheId → System S W}
    (hstage : s.stage = .working store task) (hcalls : task.Calls)
    (hcache : task.cache? = some cache)
    (hnext : ∀ c, s.keeper.caches.get? cache.name = some c → s.Moves interference (next c)) :
    s.Moves interference (s.withCache interference store task cache next) :=
  withCache_rule hnext fun hclosed => moves_attempt hstage hcalls fun _ _ _ hnone hopen =>
    .openedCache hstage hnone hcache hclosed hopen

theorem moves_resume {received : Option (Option Request)} {waited : Duration}
    {lockReleased : Bool} {s₁ : System S W} {store₁ : S} (hstage : s.stage = .working store task)
    (hawakes : Awakes s store task received waited lockReleased s₁ store₁)
    (htally : s₁.keeper.tally = s.keeper.tally) (hdropped : s₁.dropped = s.dropped) :
    s.Moves interference (s₁.resume store₁ waited lockReleased received) := by
  refine resume_rule (fun ht => ?_) fun tally ht => .awoke hstage hawakes (htally ▸ ht)
  rw [hdropped]
  exact .overflowed hstage hawakes (htally ▸ ht)

theorem moves_choose (hstage : s.stage = .working store .choosing) :
    s.Moves interference (s.choose store) := by
  unfold choose
  split
  · exact .pickedRead hstage ‹_›
  · exact .pickedWrite hstage ‹_› ‹_›
  · rename_i hreads hwrites
    cases hstop : s.keeper.stopRequested with
    | true => exact .exited hstage hreads hwrites hstop
    | false =>
      cases hdue : s.keeper.pacing.isReleaseDue s.clock with
      | true => exact .releases hstage hreads hwrites hstop hdue
      | false => exact .rests hstage hreads hwrites hstop hdue

theorem moves_of_work (hstage : s.stage = .working store task)
    (h : s.work interference store task = some s') : s.Moves interference s' := by
  cases task with
  | entering =>
    cases h
    exact moves_attempt hstage trivial fun _ _ _ => .entered hstage
  | collecting =>
    cases h
    unfold collect
    cases hreceive : s.inbox.receive with
    | request request inbox => exact .took hstage hreceive
    | nothing => exact .tookAll hstage hreceive
    | disconnected => exact .sawEnd hstage hreceive
  | choosing =>
    cases h
    exact moves_choose hstage
  | answering place read =>
    cases h
    unfold answer
    cases hqueued : s.keeper.queuedValue place read with
    | some value => exact .answeredFromWrites hstage hqueued
    | none =>
      exact moves_withCache hstage trivial rfl fun c hc => moves_attempt hstage trivial
        fun _ _ _ hnone => .answeredFromStore hstage hnone hqueued hc
  | applying write =>
    cases h
    exact moves_withCache hstage trivial rfl fun c hc => moves_attempt hstage trivial
      fun _ _ _ hnone => .applied hstage hnone hc
  | waiting since =>
    unfold work wait at h
    simp only at h
    cases hreceive : s.inbox.receive with
    | request request inbox =>
      rw [hreceive] at h
      cases h
      exact moves_resume hstage (.request hreceive) rfl rfl
    | disconnected =>
      rw [hreceive] at h
      cases h
      exact moves_resume hstage (.disconnected hreceive) rfl rfl
    | nothing =>
      rw [hreceive] at h
      simp only at h
      split at h
      · rename_i deadline hdeadline
        split at h
        · rename_i hpast
          cases h
          exact moves_resume hstage (.deadline hreceive hdeadline hpast) rfl rfl
        · cases h
      · cases h
  | releasing =>
    cases h
    exact moves_attempt hstage trivial fun _ _ _ => .released hstage
  | released =>
    unfold work waitReleased at h
    simp only at h
    split at h
    · cases h
      exact .brokenReleased hstage rfl
    · cases h
      exact .crashed hstage (Or.inr rfl) rfl
    · cases hreceive : s.inbox.receive with
      | request request inbox =>
        rw [hreceive] at h
        cases h
        exact .tookReleased hstage rfl hreceive
      | disconnected =>
        rw [hreceive] at h
        cases h
        exact .sawEndReleased hstage rfl hreceive
      | nothing =>
        rw [hreceive] at h
        cases h
  | reacquiring outcome =>
    cases h
    refine moves_attempt hstage trivial fun _ store' world hnone hr => ?_
    cases outcome with
    | error e => exact .reacquiredBroken hstage hnone hr
    | ok received => exact moves_resume hstage (.reacquired hr) rfl rfl
  | leaving failure =>
    cases h
    refine moves_attempt hstage trivial fun _ store' world hnone hr => ?_
    cases failure with
    | some e => exact .leftFailed hstage hnone hr
    | none => exact .left hstage hnone hr
  | closing =>
    cases h
    exact moves_attempt hstage trivial fun _ _ _ => .closed hstage

theorem moves_of_step (h : s.step interference = some s') : s.Moves interference s' := by
  unfold step at h
  split at h
  · rename_i opener hstage
    cases h
    unfold openStore
    split
    · exact .unopened hstage nofun
    · exact .unopened hstage nofun
    · cases hopen : opener s.world with
      | ok store world => exact .opened hstage rfl hopen
      | error cause world => exact .unopened hstage fun _ => hopen
  · exact moves_of_work ‹_› h
  · cases h
    exact .letGo ‹_›
  · rename_i failed hstage
    cases hreceive : s.inbox.receive with
    | request request inbox =>
      rw [hreceive] at h
      cases h
      exact .drained hstage hreceive
    | nothing =>
      rw [hreceive] at h
      cases h
      exact .drainedAll hstage (Inbox.queue_of_nothing hreceive)
    | disconnected =>
      rw [hreceive] at h
      cases h
      exact .drainedAll hstage (Inbox.queue_of_disconnected hreceive)
  · cases h
    exact .finished ‹_›
  · cases h
    exact .parted ‹_›
  · cases h

end

end System

end HistoryKeeper
