import HistoryKeeper.Proofs.Keeper.Consistent
import HistoryKeeper.Proofs.Keeper.Rounds
import HistoryKeeper.Proofs.Store.Willing

/-!
# A batch of requests

A keeper is started when its requests have all been sent, with a stop among them or nobody left to send
more, and its store does what it is asked to. Then it comes to its end, with one round for each read, in
order, then one for each write, in order, and one to leave (`System.Rounds.drains_batch`). A store whose
content can be seen has all the time the writes of the rounds, and all of the batch when it is closed
(`System.Rounds.content`, `System.Rounds.content_of_closing`).

Whatever has been taken in and whatever is still in the inbox, the keeper that has caught up with its
inbox (`System.caughtUp`) has the rounds to come in its queues, and what its reads will get can be told
from them. `Balance` says that what was done and what is to come add up to the whole batch; `OnTrack`
says how far the keeper is, and that it never waits.
-/

namespace HistoryKeeper

open Store (Used Willing)

/-- The last round, if it is still to come. -/
def Task.finale : Task → List Round
  | leaving _ | closing => []
  | _ => [.leave]

namespace Stage

variable {S W : Type}

/-- The write in hand. -/
def writing : Stage S W → List PendingWrite
  | .working _ task => task.writing
  | _ => []

/-- The last round, if it is still to come. -/
def leaving : Stage S W → List Round
  | .opening _ => [.leave]
  | .working _ task => task.finale
  | _ => []

end Stage

/-- The read and the write in hand, and the round to leave in. -/
def Stage.hands {S W : Type} (stage : Stage S W) :
    List (Nat × PendingRead) × List PendingWrite × List Round :=
  (stage.reading, stage.writing, stage.leaving)

namespace Keeper

variable {k k' : Keeper}

/-- The same is queued, and looked for in the same way. -/
structure SameQueues (k k' : Keeper) : Prop where
  reads : k'.reads = k.reads
  writes : k'.writes = k.writes
  lookup : k'.pendingLookup = k.pendingLookup

theorem SameQueues.ahead (h : k.SameQueues k') : k'.ahead = k.ahead := by
  rw [Keeper.ahead, Keeper.ahead, h.reads, h.writes]

theorem SameQueues.queuedValue (h : k.SameQueues k') (place : Nat) (read : PendingRead) :
    k'.queuedValue place read = k.queuedValue place read := by
  unfold Keeper.queuedValue queuedWrite
  rw [h.writes, h.lookup]

theorem SameQueues.foreseen (h : k.SameQueues k') (reads : List (Nat × PendingRead)) :
    k'.foreseen reads = k.foreseen reads :=
  List.map_congr_left fun x _ => by rw [h.queuedValue]

theorem SameQueues.hits (h : k.SameQueues k') (reads : List (Nat × PendingRead)) :
    k'.hits reads = k.hits reads :=
  List.countP_congr fun x _ => by rw [h.queuedValue]

theorem enqueueAll_pacing (k : Keeper) (pacing : Pacing) (requests : List Request) :
    ({ k with pacing } : Keeper).enqueueAll requests = { k.enqueueAll requests with pacing } := by
  induction requests using List.reverseRecOn with
  | nil => rfl
  | append_singleton requests request ih =>
    rw [enqueueAll_concat, enqueueAll_concat, ih]
    cases request <;> rfl

/-- The counts of the summary that a keeper with these queues leaves once it has served all. -/
def report (k : Keeper) : Summary :=
  { readsServed := k.reads.length
    readsFromPendingWrites := k.hits k.reads
    writesApplied := k.writes.length }

theorem report_newWith (interval : Duration) (lookup : Bool) (now : Instant) (requests : List Request) :
    (newWith interval lookup now requests).report =
      { readsServed := (Request.allReads requests).length
        readsFromPendingWrites := if lookup then Request.readsBehindWrites [] requests else 0
        writesApplied := (Request.writes requests).length } := by
  rw [report, hits_newWith, ← reads_newWith interval lookup now, ← writes_newWith interval lookup now,
    List.length_map, List.length_map]

end Keeper

namespace System

variable {S W : Type}

/-- The keeper once it has taken in all that has arrived. -/
def caughtUp (s : System S W) : Keeper :=
  s.keeper.enqueueAll s.inbox.queue

/-- The reads that have no answer yet. -/
def unanswered (s : System S W) : List (Nat × PendingRead) :=
  s.stage.reading ++ s.caughtUp.reads

/-- What was done and what is to come are the whole batch. -/
structure Balance (full : Keeper) (rounds : List Round) (s : System S W) : Prop where
  rounds : rounds ++ (s.caughtUp.ahead ++ s.stage.leaving) = full.ahead ++ [.leave]
  reads : s.keeper.tally.readsServed + s.unanswered.length = full.reads.length
  writes : s.keeper.tally.writesApplied + (s.stage.writing.length + s.caughtUp.writes.length) =
    full.writes.length
  answers : s.answers ++ s.caughtUp.foreseen s.unanswered = full.foreseen full.reads
  hits : s.keeper.tally.readsFromPendingWrites + s.caughtUp.hits s.unanswered = full.hits full.reads
  stops : s.caughtUp.stopRequested = true ∨ s.inbox.hasSenders = false
  idle : s.keeper.tally.idle = .zero
  lockReleased : s.keeper.tally.lockReleased = .zero
  releases : s.keeper.pacing.releaseCount = 0
  dropped : s.dropped = []

/-- All requests are served. -/
structure Drained (s : System S W) : Prop where
  queue : s.inbox.queue = []
  reads : s.keeper.reads = []
  writes : s.keeper.writes = []

theorem Drained.writes_caughtUp {s : System S W} (h : s.Drained) : s.caughtUp.writes = [] := by
  rw [caughtUp, h.queue]
  exact h.writes

variable [Store S W]

/-- The store is in use, the keeper's caches are open in it, and nothing was changed while reads are
there. -/
inductive Equipped (names : String → Prop) (store : S) (s : System S W) : Prop
  | intro {st₀ : S × W} {cs : List CacheId} {changed : Bool} (hwilling : Willing names st₀)
      (hused : Used names st₀ cs changed (store, s.world))
      (hcaches : ∀ {name c}, s.keeper.caches.get? name = some c → c ∈ cs)
      (hblank : s.unanswered ≠ [] → changed = false)

/-- How far the keeper is. -/
inductive OnTrack (names : String → Prop) (full : Keeper) (s : System S W) : Prop
  | opening {opener store world} (hstage : s.stage = .opening opener)
      (hopen : opener s.world = .ok store world) (hwilling : Willing names (store, world))
      (hcaches : s.keeper.caches = [])
  | entering {store} (hstage : s.stage = .working store .entering)
      (hwilling : Willing names (store, s.world)) (hcaches : s.keeper.caches = [])
  | collecting {store} (hstage : s.stage = .working store .collecting)
      (hequipped : s.Equipped names store)
  | choosing {store} (hstage : s.stage = .working store .choosing)
      (hequipped : s.Equipped names store) (hqueue : s.inbox.queue = [])
      (hstop : s.keeper.stopRequested = true)
  | answering {store place read} (hstage : s.stage = .working store (.answering place read))
      (hequipped : s.Equipped names store) (hqueue : s.inbox.queue = [])
      (hname : names read.cache.name)
  | applying {store write} (hstage : s.stage = .working store (.applying write))
      (hequipped : s.Equipped names store) (hqueue : s.inbox.queue = [])
      (hreads : s.keeper.reads = []) (hname : names write.cache.name)
  | leaving {store} (hstage : s.stage = .working store (.leaving none))
      (hequipped : s.Equipped names store) (hdrained : s.Drained)
  | closing {store st} (hstage : s.stage = .working store .closing)
      (hclose : Store.close (store, s.world) = .ok () st) (hdrained : s.Drained)
  | draining (hstage : s.stage = .draining false) (hdrained : s.Drained)
  | finishing (hstage : s.stage = .finishing false) (hdrained : s.Drained)
  | parting (hstage : s.stage = .parting) (hdrained : s.Drained)
      (htold : s.status.summary.map Summary.counts = some full.report)
  | ended (hstage : s.stage = .ended) (hdrained : s.Drained)
      (htold : s.status.summary.map Summary.counts = some full.report)

variable {names : String → Prop} {full : Keeper} {rounds : List Round} {store : S}
  {s s' : System S W}

omit [Store S W] in
theorem Balance.writes_rounds (h : s.Balance full rounds) :
    Round.writes rounds ++ s.caughtUp.writes.map (·.2) = full.writes.map (·.2) := by
  have hlast : Round.writes s.stage.leaving = [] := by
    cases s.stage with
    | working _ task => cases task <;> rfl
    | _ => rfl
  have hall := congrArg Round.writes h.rounds
  rw [Round.writes_append, Round.writes_append, Round.writes_append, Keeper.writes_ahead, Keeper.writes_ahead,
    hlast, List.append_nil] at hall
  exact hall.trans (List.append_nil _)

/-! ### Between the steps -/

omit [Store S W] in
theorem caughtUp_congr (hkeeper : s'.keeper = s.keeper) (hqueue : s'.inbox.queue = s.inbox.queue) :
    s'.caughtUp = s.caughtUp := by
  rw [caughtUp, caughtUp, hkeeper, hqueue]

omit [Store S W] in
/-- The balance does not depend on clocks, on the caches or on the store. -/
theorem Balance.congr (h : s.Balance full rounds) (hhands : s'.stage.hands = s.stage.hands)
    (hqueues : s.caughtUp.SameQueues s'.caughtUp) (htally : s'.keeper.tally = s.keeper.tally)
    (hstops : s'.caughtUp.stopRequested = true ∨ s'.inbox.hasSenders = false)
    (hreleases : s'.keeper.pacing.releaseCount = 0) (hanswers : s'.answers = s.answers)
    (hdropped : s'.dropped = s.dropped) : s'.Balance full rounds := by
  obtain ⟨hreading, hwriting, hleaving⟩ :
      s'.stage.reading = s.stage.reading ∧ s'.stage.writing = s.stage.writing ∧
        s'.stage.leaving = s.stage.leaving := by simpa [Stage.hands] using hhands
  have hunanswered : s'.unanswered = s.unanswered := by
    rw [unanswered, unanswered, hreading, hqueues.reads]
  constructor
  · rw [hqueues.ahead, hleaving]; exact h.rounds
  · rw [htally, hunanswered]; exact h.reads
  · rw [htally, hwriting, hqueues.writes]; exact h.writes
  · rw [hanswers, hqueues.foreseen, hunanswered]; exact h.answers
  · rw [htally, hqueues.hits, hunanswered]; exact h.hits
  · exact hstops
  · rw [htally]; exact h.idle
  · rw [htally]; exact h.lockReleased
  · exact hreleases
  · rw [hdropped]; exact h.dropped

theorem Equipped.congr (h : s.Equipped names store) (hworld : s'.world = s.world)
    (hcaches : s'.keeper.caches = s.keeper.caches) (hunanswered : s'.unanswered = s.unanswered) :
    s'.Equipped names store := by
  obtain @⟨_, cs, changed, hwilling, hused, hopen, hblank⟩ := h
  rw [← hworld] at hused
  refine ⟨hwilling, hused, ?_, ?_⟩
  · rw [hcaches]; exact hopen
  · rw [hunanswered]; exact hblank

theorem OnTrack.congr (h : s.OnTrack names full) (hstage : s'.stage = s.stage)
    (hworld : s'.world = s.world) (hkeeper : s'.keeper = s.keeper)
    (hqueue : s'.inbox.queue = s.inbox.queue)
    (htold : s'.status.summary.map Summary.counts = s.status.summary.map Summary.counts) :
    s'.OnTrack names full := by
  have hcaches : s'.keeper.caches = s.keeper.caches := by rw [hkeeper]
  have hunanswered : s'.unanswered = s.unanswered := by
    rw [unanswered, unanswered, hstage, caughtUp_congr hkeeper hqueue]
  have hdrained' : s.Drained → s'.Drained := fun hdrained =>
    ⟨hqueue.trans hdrained.queue, by rw [hkeeper]; exact hdrained.reads,
      by rw [hkeeper]; exact hdrained.writes⟩
  cases h with
  | opening hs hopen hwilling hc =>
    exact .opening (hstage.trans hs) (by rw [hworld]; exact hopen) hwilling (hcaches.trans hc)
  | entering hs hwilling hc =>
    exact .entering (hstage.trans hs) (by rw [hworld]; exact hwilling) (hcaches.trans hc)
  | collecting hs he => exact .collecting (hstage.trans hs) (he.congr hworld hcaches hunanswered)
  | choosing hs he hq hstop =>
    exact .choosing (hstage.trans hs) (he.congr hworld hcaches hunanswered) (hqueue.trans hq)
      (by rw [hkeeper]; exact hstop)
  | answering hs he hq hname =>
    exact .answering (hstage.trans hs) (he.congr hworld hcaches hunanswered) (hqueue.trans hq) hname
  | applying hs he hq hreads hname =>
    exact .applying (hstage.trans hs) (he.congr hworld hcaches hunanswered) (hqueue.trans hq)
      (by rw [hkeeper]; exact hreads) hname
  | leaving hs he hdrained =>
    exact .leaving (hstage.trans hs) (he.congr hworld hcaches hunanswered) (hdrained' hdrained)
  | closing hs hclose hdrained =>
    exact .closing (hstage.trans hs) (by rw [hworld]; exact hclose) (hdrained' hdrained)
  | draining hs hdrained => exact .draining (hstage.trans hs) (hdrained' hdrained)
  | finishing hs hdrained => exact .finishing (hstage.trans hs) (hdrained' hdrained)
  | parting hs hdrained ht => exact .parting (hstage.trans hs) (hdrained' hdrained) (htold.trans ht)
  | ended hs hdrained ht => exact .ended (hstage.trans hs) (hdrained' hdrained) (htold.trans ht)

/-- Where a step leads. -/
structure Advances (names : String → Prop) (full : Keeper) (rounds : List Round) (s s' : System S W) :
    Prop where
  balance : s'.Balance full (rounds ++ s.begins s')
  onTrack : s'.OnTrack names full

omit [Store S W] in
theorem begins_eq_nil (h : ∀ store, s.stage ≠ .working store .choosing) : s.begins s' = [] := by
  unfold begins
  split
  · exact absurd ‹_› (h _)
  · rfl

theorem Advances.of_balance (h : ∀ store, s.stage ≠ .working store .choosing)
    (hbalance : s'.Balance full rounds) (honTrack : s'.OnTrack names full) :
    Advances names full rounds s s' := by
  refine ⟨?_, honTrack⟩
  rw [begins_eq_nil h, List.append_nil]
  exact hbalance

theorem Advances.of_same (hbalance : s.Balance full rounds)
    (hbusy : ∀ store, s.stage ≠ .working store .choosing) (hhands : s'.stage.hands = s.stage.hands)
    (hkeeper : s'.keeper = s.keeper) (hinbox : s'.inbox = s.inbox) (hanswers : s'.answers = s.answers)
    (hdropped : s'.dropped = s.dropped) (honTrack : s'.OnTrack names full) :
    Advances names full rounds s s' := by
  have hcaught : s'.caughtUp = s.caughtUp := caughtUp_congr hkeeper (by rw [hinbox])
  refine .of_balance hbusy (hbalance.congr hhands ?_ (by rw [hkeeper]) ?_ ?_ hanswers hdropped) honTrack
  · rw [hcaught]
    exact ⟨rfl, rfl, rfl⟩
  · rw [hcaught, hinbox]
    exact hbalance.stops
  · rw [hkeeper]
    exact hbalance.releases

theorem advances_opening {opener : Opener S W} {world : W} (hbalance : s.Balance full rounds)
    (hstage : s.stage = .opening opener) (hopen : opener s.world = .ok store world)
    (hwilling : Willing names (store, world)) (hcaches : s.keeper.caches = []) :
    Advances names full rounds s (s.openStore none opener) := by
  unfold openStore
  rw [hopen]
  exact .of_same hbalance (by rw [hstage]; nofun) (by rw [hstage]; rfl) rfl rfl rfl rfl
    (.entering rfl hwilling hcaches)

theorem advances_entering (hbalance : s.Balance full rounds)
    (hstage : s.stage = .working store .entering) (hwilling : Willing names (store, s.world))
    (hcaches : s.keeper.caches = []) (hstep : s.work none store .entering = some s') :
    Advances names full rounds s s' := by
  obtain ⟨st, henter⟩ := hwilling.enter
  unfold work at hstep
  rw [attempt_of_ok rfl henter] at hstep
  cases hstep
  have hcaught := s.keeper.enqueueAll_pacing (.start s.keeper.pacing.interval s.clock) s.inbox.queue
  refine .of_balance (fun _ => by rw [hstage]; nofun) ?_ (.collecting rfl ?_)
  · refine hbalance.congr (by rw [hstage]; rfl) ?_ rfl ?_ rfl rfl rfl
    · exact ⟨congrArg (·.reads) hcaught, congrArg (·.writes) hcaught, congrArg (·.pendingLookup) hcaught⟩
    · exact hbalance.stops.imp_left (congrArg (·.stopRequested) hcaught).trans
  · refine ⟨hwilling, .entered henter, fun h => ?_, fun _ => rfl⟩
    change s.keeper.caches.get? _ = _ at h
    rw [hcaches] at h
    cases h

theorem advances_collecting (hbalance : s.Balance full rounds)
    (hstage : s.stage = .working store .collecting) (hequipped : s.Equipped names store) :
    Advances names full rounds s (s.collect store) := by
  have hbusy : ∀ store', s.stage ≠ .working store' .choosing := fun _ => by rw [hstage]; nofun
  unfold collect
  cases hreceive : s.inbox.receive with
  | request request inbox =>
    obtain ⟨hqueue, hsenders, -⟩ := Inbox.queue_of_receive hreceive
    have hcaught : (s.keeper.enqueue request).enqueueAll inbox.queue = s.caughtUp := by
      rw [caughtUp, hqueue]
      rfl
    refine .of_balance hbusy ?_ (.collecting rfl ?_)
    · refine hbalance.congr (by rw [hstage]; rfl) ?_ (tally_enqueue ..) ?_ ?_ rfl rfl
      · exact ⟨congrArg (·.reads) hcaught, congrArg (·.writes) hcaught, congrArg (·.pendingLookup) hcaught⟩
      · exact hbalance.stops.imp (congrArg (·.stopRequested) hcaught).trans hsenders.trans
      · cases request <;> exact hbalance.releases
    · refine hequipped.congr rfl (by cases request <;> rfl) ?_
      rw [unanswered, unanswered, hstage]
      exact congrArg (·.reads) hcaught
  | nothing =>
    have hqueue := Inbox.queue_of_nothing hreceive
    have hsenders := Inbox.hasSenders_of_nothing hreceive
    have hstop : s.keeper.stopRequested = true := by
      have hstops := hbalance.stops
      rw [caughtUp, hqueue, hsenders] at hstops
      exact hstops.resolve_right nofun
    refine .of_balance hbusy ?_ (.choosing rfl ?_ hqueue hstop)
    · exact hbalance.congr (by rw [hstage]; rfl) ⟨rfl, rfl, rfl⟩ rfl hbalance.stops hbalance.releases
        rfl rfl
    · refine hequipped.congr rfl rfl ?_
      rw [unanswered, unanswered, hstage]
      rfl
  | disconnected =>
    have hqueue := Inbox.queue_of_disconnected hreceive
    have hcaught : s.keeper.requestStop.enqueueAll s.inbox.queue = s.caughtUp.requestStop := by
      rw [caughtUp, hqueue]
      rfl
    refine .of_balance hbusy ?_ (.choosing rfl ?_ hqueue rfl)
    · refine hbalance.congr (by rw [hstage]; rfl) ?_ rfl ?_ hbalance.releases rfl rfl
      · exact ⟨congrArg (·.reads) hcaught, congrArg (·.writes) hcaught, congrArg (·.pendingLookup) hcaught⟩
      · exact .inl (congrArg (·.stopRequested) hcaught)
    · refine hequipped.congr rfl rfl ?_
      rw [unanswered, unanswered, hstage]
      exact congrArg (·.reads) hcaught

/-! ### A round -/

theorem advances_pickingRead {place : Nat} {read : PendingRead} {reads : List (Nat × PendingRead)}
    (hbalance : s.Balance full rounds) (hnamed : ∀ r ∈ full.ahead, r.Names names)
    (hstage : s.stage = .working store .choosing) (hequipped : s.Equipped names store)
    (hqueue : s.inbox.queue = []) (hreads : s.keeper.reads = (place, read) :: reads) :
    Advances names full rounds s (s.choose store) := by
  obtain ⟨⟨_, writes, _⟩, _, _, ⟨_, _, _⟩⟩ := s
  cases hstage
  cases hqueue
  cases hreads
  have hrounds : rounds ++ ((.read read :: (reads.map (.read ·.2) ++ writes.map (.write ·.2))) ++
      [.leave]) = full.ahead ++ [.leave] := hbalance.rounds
  have hmem : Round.read read ∈ full.ahead := by
    rw [← List.append_assoc] at hrounds
    rw [← List.append_cancel_right hrounds]
    exact List.mem_append_right _ (List.mem_cons_self ..)
  refine ⟨{ hbalance with rounds := ?_ }, .answering rfl ?_ rfl (hnamed _ hmem)⟩
  · rw [← hrounds]
    exact List.append_assoc ..
  · exact hequipped.congr rfl rfl rfl

theorem advances_pickingWrite {place : Nat} {write : PendingWrite} {writes : List (Nat × PendingWrite)}
    (hbalance : s.Balance full rounds) (hnamed : ∀ r ∈ full.ahead, r.Names names)
    (hstage : s.stage = .working store .choosing) (hequipped : s.Equipped names store)
    (hqueue : s.inbox.queue = []) (hreads : s.keeper.reads = [])
    (hwrites : s.keeper.writes = (place, write) :: writes) :
    Advances names full rounds s (s.choose store) := by
  obtain ⟨⟨_, _, _, _, _, tally, _⟩, _, _, ⟨_, _, _⟩⟩ := s
  cases hstage
  cases hqueue
  cases hreads
  cases hwrites
  have hrounds : rounds ++ ((.write write :: writes.map (.write ·.2)) ++ [.leave]) =
      full.ahead ++ [.leave] := hbalance.rounds
  have hmem : Round.write write ∈ full.ahead := by
    rw [← List.append_assoc] at hrounds
    rw [← List.append_cancel_right hrounds]
    exact List.mem_append_right _ (List.mem_cons_self ..)
  have hcount : tally.writesApplied + (0 + (writes.length + 1)) = full.writes.length := hbalance.writes
  refine ⟨{ hbalance with rounds := ?_, writes := ?_ }, .applying rfl ?_ rfl rfl (hnamed _ hmem)⟩
  · rw [← hrounds]
    exact List.append_assoc ..
  · show tally.writesApplied + (1 + writes.length) = full.writes.length
    omega
  · exact hequipped.congr rfl rfl rfl

theorem advances_leaving (hbalance : s.Balance full rounds)
    (hstage : s.stage = .working store .choosing) (hequipped : s.Equipped names store)
    (hqueue : s.inbox.queue = []) (hstop : s.keeper.stopRequested = true)
    (hreads : s.keeper.reads = []) (hwrites : s.keeper.writes = []) :
    Advances names full rounds s (s.choose store) := by
  obtain ⟨⟨_, _, _⟩, _, _, ⟨_, _, _⟩⟩ := s
  cases hstage
  cases hqueue
  cases hreads
  cases hwrites
  cases hstop
  refine ⟨{ hbalance with rounds := ?_ }, .leaving rfl ?_ ⟨rfl, rfl, rfl⟩⟩
  · rw [← hbalance.rounds]
    exact List.append_nil _
  · exact hequipped.congr rfl rfl rfl

/-- Nothing is waited for: a stop is known by the time that all is served. -/
theorem advances_choosing (hbalance : s.Balance full rounds) (hnamed : ∀ r ∈ full.ahead, r.Names names)
    (hstage : s.stage = .working store .choosing) (hequipped : s.Equipped names store)
    (hqueue : s.inbox.queue = []) (hstop : s.keeper.stopRequested = true) :
    Advances names full rounds s (s.choose store) := by
  cases hreads : s.keeper.reads with
  | cons x reads => exact advances_pickingRead hbalance hnamed hstage hequipped hqueue hreads
  | nil =>
    cases hwrites : s.keeper.writes with
    | cons x writes =>
      exact advances_pickingWrite hbalance hnamed hstage hequipped hqueue hreads hwrites
    | nil => exact advances_leaving hbalance hstage hequipped hqueue hstop hreads hwrites

/-- The cache of the request in hand is opened on first use. -/
theorem exists_openCache {task : Task} {cache : CacheIdentity} (next : CacheId → System S W)
    (hbalance : s.Balance full rounds) (hstage : s.stage = .working store task)
    (hequipped : s.Equipped names store) (hqueue : s.inbox.queue = []) (hname : names cache.name)
    (hclosed : s.keeper.caches.get? cache.name = none) :
    ∃ (c : CacheId) (st : S × W),
      let opened := ({ s with world := st.2, keeper := { s.keeper with
        caches := s.keeper.caches.insert cache.name c } } : System S W).go st.1 task
      s.withCache none store task cache next = opened ∧ opened.Balance full rounds ∧
        opened.Equipped names st.1 := by
  obtain @⟨_, cs, changed, hwilling, hused, hcaches, hblank⟩ := hequipped
  obtain ⟨c, st, hopen⟩ := hwilling.openCache hused hname
  refine ⟨c, st, ?_, ?_, hwilling, .opened cache hused hname hopen, fun {name c'} hc' => ?_, ?_⟩
  · unfold withCache
    rw [hclosed]
    exact attempt_of_ok rfl hopen
  · obtain ⟨_, _, _, ⟨_, _, _⟩⟩ := s
    cases hstage
    cases hqueue
    exact { hbalance with }
  · change (s.keeper.caches.insert cache.name c).get? name = some c' at hc'
    rw [Table.get?_insert] at hc'
    split at hc'
    · cases hc'
      exact List.mem_cons_self ..
    · exact List.mem_cons_of_mem _ (hcaches hc')
  · obtain ⟨_, _, _, ⟨_, _, _⟩⟩ := s
    cases hstage
    cases hqueue
    exact hblank

omit [Store S W] in
theorem balance_reply {place : Nat} {read : PendingRead} {value : Option Bytes} {fromWrites : Bool}
    (hbalance : s.Balance full rounds) (hstage : s.stage = .working store (.answering place read))
    (hqueue : s.inbox.queue = []) (hvalue : (s.keeper.queuedValue place read).join = value)
    (hfrom : (s.keeper.queuedValue place read).isSome = fromWrites) (store' : S) (world : W) :
    ((({ s with world } : System S W).reply read value fromWrites).go store' .collecting).Balance full
      rounds := by
  obtain ⟨keeper, _, _, ⟨_, _, _⟩, _, _, _, answers, _, _⟩ := s
  cases hstage
  cases hqueue
  cases hvalue
  cases hfrom
  have hreads : keeper.tally.readsServed + (keeper.reads.length + 1) = full.reads.length := hbalance.reads
  have hanswers : answers ++ keeper.foreseen ((place, read) :: keeper.reads) = full.foreseen full.reads :=
    hbalance.answers
  have hhits : keeper.tally.readsFromPendingWrites + keeper.hits ((place, read) :: keeper.reads) =
    full.hits full.reads := hbalance.hits
  refine { hbalance with reads := ?_, answers := ?_, hits := ?_ }
  · show keeper.tally.readsServed + 1 + keeper.reads.length = full.reads.length
    omega
  · rw [← hanswers]
    exact List.append_assoc ..
  · rw [Keeper.hits_cons, ← Nat.add_assoc, Nat.add_right_comm] at hhits
    exact hhits

/-- A read finds something among the queued writes, or else nothing in the store. -/
theorem advances_answering {place : Nat} {read : PendingRead} (hbalance : s.Balance full rounds)
    (hstage : s.stage = .working store (.answering place read)) (hequipped : s.Equipped names store)
    (hqueue : s.inbox.queue = []) (hname : names read.cache.name) :
    Advances names full rounds s (s.answer none store place read) := by
  have hbusy : ∀ store', s.stage ≠ .working store' .choosing := fun _ => by rw [hstage]; nofun
  unfold answer
  cases hvalue : s.keeper.queuedValue place read with
  | some value =>
    refine .of_balance hbusy ?_ (.collecting rfl ?_)
    · exact balance_reply hbalance hstage hqueue (by rw [hvalue]; rfl) (by rw [hvalue]; rfl) store s.world
    · obtain ⟨hwilling, hused, hcaches, hblank⟩ := hequipped
      refine ⟨hwilling, hused, hcaches, fun _ => hblank ?_⟩
      rw [unanswered, hstage]
      exact List.cons_ne_nil _ _
  | none =>
    dsimp only
    cases hc : s.keeper.caches.get? read.cache.name with
    | none =>
      obtain ⟨c, st, heq, hbalance', hequipped'⟩ :=
        exists_openCache _ hbalance hstage hequipped hqueue hname hc
      rw [heq]
      exact .of_balance hbusy hbalance' (.answering rfl hequipped' hqueue hname)
    | some c =>
      obtain ⟨hwilling, hused, hcaches, hblank⟩ := hequipped
      obtain ⟨v, st, hget, hv⟩ := hwilling.get hused (hcaches hc) read.key
      have hchanged := hblank (by rw [unanswered, hstage]; exact List.cons_ne_nil _ _)
      unfold withCache
      rw [hc]
      dsimp only
      rw [attempt_of_ok rfl hget, hv hchanged]
      refine .of_balance hbusy ?_ (.collecting rfl ?_)
      · exact balance_reply hbalance hstage hqueue (by rw [hvalue]; rfl) (by rw [hvalue]; rfl) st.1 st.2
      · exact ⟨hwilling, hused.looked read.key (hcaches hc) hget, hcaches, fun _ => hchanged⟩

theorem advances_applying {write : PendingWrite} (hbalance : s.Balance full rounds)
    (hstage : s.stage = .working store (.applying write)) (hequipped : s.Equipped names store)
    (hqueue : s.inbox.queue = []) (hreads : s.keeper.reads = []) (hname : names write.cache.name) :
    Advances names full rounds s (s.apply none store write) := by
  have hbusy : ∀ store', s.stage ≠ .working store' .choosing := fun _ => by rw [hstage]; nofun
  rw [apply_eq]
  cases hc : s.keeper.caches.get? write.cache.name with
  | none =>
    obtain ⟨c, st, heq, hbalance', hequipped'⟩ :=
      exists_openCache _ hbalance hstage hequipped hqueue hname hc
    rw [heq]
    exact .of_balance hbusy hbalance' (.applying rfl hequipped' hqueue hreads hname)
  | some c =>
    obtain ⟨hwilling, hused, hcaches, hblank⟩ := hequipped
    obtain ⟨st, hcall⟩ := hwilling.change hused (hcaches hc) write.key write.change
    unfold withCache
    rw [hc]
    dsimp only
    rw [attempt_of_ok rfl hcall]
    refine .of_balance hbusy ?_ (.collecting rfl ?_)
    · obtain ⟨keeper, _, _, ⟨_, _, _⟩⟩ := s
      cases hstage
      cases hqueue
      have hwrites : keeper.tally.writesApplied + (1 + keeper.writes.length) = full.writes.length :=
        hbalance.writes
      refine { hbalance with writes := ?_ }
      show keeper.tally.writesApplied + 1 + (0 + keeper.writes.length) = full.writes.length
      omega
    · refine ⟨hwilling, hused.changed write.key write.change (hcaches hc) hcall, hcaches, fun h => ?_⟩
      obtain ⟨_, _, _, ⟨_, _, _⟩⟩ := s
      cases hqueue
      exact absurd hreads h

/-! ### The end -/

theorem advances_leavingStore (hbalance : s.Balance full rounds)
    (hstage : s.stage = .working store (.leaving none)) (hequipped : s.Equipped names store)
    (hdrained : s.Drained) (hstep : s.work none store (.leaving none) = some s') :
    Advances names full rounds s s' := by
  obtain ⟨hwilling, hused, -, -⟩ := hequipped
  obtain ⟨st, hleave, st', hclose⟩ := hwilling.leave hused
  unfold work at hstep
  dsimp only at hstep
  rw [attempt_of_ok rfl hleave] at hstep
  cases hstep
  exact .of_same hbalance (by rw [hstage]; nofun) (by rw [hstage]; rfl) rfl rfl rfl rfl
    (.closing rfl hclose ⟨hdrained.queue, hdrained.reads, hdrained.writes⟩)

theorem advances_closing {st : S × W} (hbalance : s.Balance full rounds)
    (hstage : s.stage = .working store .closing) (hclose : Store.close (store, s.world) = .ok () st)
    (hdrained : s.Drained) (hstep : s.work none store .closing = some s') :
    Advances names full rounds s s' := by
  unfold work at hstep
  dsimp only at hstep
  rw [attempt_of_ok rfl hclose] at hstep
  cases hstep
  exact .of_same hbalance (by rw [hstage]; nofun) (by rw [hstage]; rfl) rfl rfl rfl rfl
    (.draining rfl ⟨hdrained.queue, hdrained.reads, hdrained.writes⟩)

omit [Store S W] in
theorem counts_summarize (hbalance : s.Balance full rounds) (hstage : s.stage = .finishing false)
    (hdrained : s.Drained) : (s.keeper.summarize s.startedAt s.clock s.status.blocked false).counts =
      full.report := by
  have hreads := hbalance.reads
  have hwrites := hbalance.writes
  have hhits := hbalance.hits
  have hunanswered : s.unanswered = [] := by
    rw [unanswered, hstage, caughtUp, hdrained.queue]
    exact hdrained.reads
  rw [hunanswered] at hreads hhits
  rw [hstage, hdrained.writes_caughtUp] at hwrites
  unfold Keeper.summarize Summary.counts Keeper.report
  dsimp only
  rw [hbalance.idle, hbalance.lockReleased, hbalance.releases, hdrained.reads, hdrained.writes, ← hreads,
    ← hwrites, ← hhits]
  rfl

theorem advances_draining (hbalance : s.Balance full rounds) (hstage : s.stage = .draining false)
    (hdrained : s.Drained) (hstep : s.step none = some s') : Advances names full rounds s s' := by
  have hreceive : ∀ request inbox, s.inbox.receive ≠ .request request inbox := by
    intro request inbox hreceive
    have hqueue := (Inbox.queue_of_receive hreceive).1
    rw [hdrained.queue] at hqueue
    cases hqueue
  unfold step at hstep
  rw [hstage] at hstep
  dsimp only at hstep
  split at hstep
  · exact absurd ‹_› (hreceive _ _)
  · cases hstep
    exact .of_same hbalance (by rw [hstage]; nofun) (by rw [hstage]; rfl) rfl rfl rfl rfl
      (.finishing rfl ⟨hdrained.queue, hdrained.reads, hdrained.writes⟩)

theorem advances_finishing (hbalance : s.Balance full rounds) (hstage : s.stage = .finishing false)
    (hdrained : s.Drained) (hstep : s.step none = some s') : Advances names full rounds s s' := by
  unfold step at hstep
  rw [hstage] at hstep
  cases hstep
  refine .of_same hbalance (by rw [hstage]; nofun) (by rw [hstage]; rfl) rfl rfl rfl rfl
    (.parting rfl ⟨hdrained.queue, hdrained.reads, hdrained.writes⟩ ?_)
  exact congrArg some (counts_summarize hbalance hstage hdrained)

theorem advances_parting (hbalance : s.Balance full rounds) (hstage : s.stage = .parting)
    (hdrained : s.Drained) (htold : s.status.summary.map Summary.counts = some full.report)
    (hstep : s.step none = some s') : Advances names full rounds s s' := by
  unfold step at hstep
  rw [hstage] at hstep
  cases hstep
  obtain ⟨⟨_, _, _⟩, _, _, ⟨_, _, _⟩, _, _, _, _, dropped, _⟩ := s
  obtain ⟨hqueue, hreads, hwrites⟩ := hdrained
  cases hstage
  cases hqueue
  cases hreads
  cases hwrites
  have hdropped : dropped = [] := hbalance.dropped
  cases hdropped
  exact .of_balance nofun { hbalance with } (.ended rfl ⟨rfl, rfl, rfl⟩ htold)

theorem advances_step (hbalance : s.Balance full rounds) (honTrack : s.OnTrack names full)
    (hnamed : ∀ r ∈ full.ahead, r.Names names) (hstep : s.step none = some s') :
    Advances names full rounds s s' := by
  unfold step at hstep
  cases honTrack with
  | opening hstage hopen hwilling hcaches =>
    rw [hstage] at hstep
    cases hstep
    exact advances_opening hbalance hstage hopen hwilling hcaches
  | entering hstage hwilling hcaches =>
    rw [hstage] at hstep
    exact advances_entering hbalance hstage hwilling hcaches hstep
  | collecting hstage hequipped =>
    rw [hstage] at hstep
    cases hstep
    exact advances_collecting hbalance hstage hequipped
  | choosing hstage hequipped hqueue hstop =>
    rw [hstage] at hstep
    cases hstep
    exact advances_choosing hbalance hnamed hstage hequipped hqueue hstop
  | answering hstage hequipped hqueue hname =>
    rw [hstage] at hstep
    cases hstep
    exact advances_answering hbalance hstage hequipped hqueue hname
  | applying hstage hequipped hqueue hreads hname =>
    rw [hstage] at hstep
    cases hstep
    exact advances_applying hbalance hstage hequipped hqueue hreads hname
  | leaving hstage hequipped hdrained =>
    rw [hstage] at hstep
    exact advances_leavingStore hbalance hstage hequipped hdrained hstep
  | closing hstage hclose hdrained =>
    rw [hstage] at hstep
    exact advances_closing hbalance hstage hclose hdrained hstep
  | draining hstage hdrained => exact advances_draining hbalance hstage hdrained hstep
  | finishing hstage hdrained => exact advances_finishing hbalance hstage hdrained hstep
  | parting hstage hdrained htold => exact advances_parting hbalance hstage hdrained htold hstep
  | ended hstage =>
    rw [hstage] at hstep
    cases hstep

theorem OnTrack.not_rests (h : s.OnTrack names full) : ¬ s.Rests := by
  rintro ⟨-, -, hrests⟩
  cases h with
  | _ hstage => rw [hstage] at hrests; exact hrests

section
variable {start : System S W} {steps : Nat}

theorem Rounds.onTrack (h : Rounds start steps rounds s) (hbalance : start.Balance full [])
    (honTrack : start.OnTrack names full) (hnamed : ∀ r ∈ full.ahead, r.Names names) :
    s.Balance full rounds ∧ s.OnTrack names full := by
  induction h with
  | start => exact ⟨hbalance, honTrack⟩
  | step _ hstep ih =>
    have hadvances := advances_step ih.1 ih.2 hnamed hstep
    exact ⟨hadvances.balance, hadvances.onTrack⟩
  | tick nanos _ ih =>
    obtain ⟨hbalance, honTrack⟩ := ih
    exact ⟨hbalance.congr rfl ⟨rfl, rfl, rfl⟩ rfl hbalance.stops hbalance.releases rfl rfl,
      honTrack.congr rfl rfl rfl rfl rfl⟩
  | disconnect _ ih =>
    obtain ⟨hbalance, honTrack⟩ := ih
    exact ⟨hbalance.congr rfl ⟨rfl, rfl, rfl⟩ rfl (.inr rfl) hbalance.releases rfl rfl,
      honTrack.congr rfl rfl rfl rfl rfl⟩
  | note status startedAt _ htold ih =>
    obtain ⟨hbalance, honTrack⟩ := ih
    exact ⟨hbalance.congr rfl ⟨rfl, rfl, rfl⟩ rfl hbalance.stops hbalance.releases rfl rfl,
      honTrack.congr rfl rfl rfl rfl htold⟩

theorem Rounds.steps_le (h : Rounds start steps rounds s) (hbalance : start.Balance full [])
    (honTrack : start.OnTrack names full) (hnamed : ∀ r ∈ full.ahead, r.Names names)
    (hidles : start.Idles) : steps + s.toil ≤ start.toil := by
  induction h with
  | start => exact (Nat.zero_add _).le
  | step h hstep ih =>
    have hrests := (h.onTrack hbalance honTrack hnamed).2.not_rests
    have hless := toil_step (h.run.idles hidles) hrests hstep
    omega
  | tick _ _ ih => exact ih
  | disconnect _ ih => exact ih
  | note _ _ _ _ ih => exact ih

end

section
variable {interval : Duration} {lookup hasSenders : Bool} {now clock : Instant} {requests : List Request}
  {opener : Opener S W} {world : W} {status : Status}

/-- A keeper whose requests have all been sent. -/
def loaded (interval : Duration) (lookup : Bool) (now : Instant) (requests : List Request)
    (hasSenders : Bool) (opener : Opener S W) (world : W) (status : Status) (clock : Instant) :
    System S W :=
  .start (.new interval lookup now) opener world { queue := requests, hasSenders, hasReceiver := true }
    status clock

omit [Store S W] in
theorem balance_loaded (hends : .stop ∈ requests ∨ hasSenders = false) :
    (loaded interval lookup now requests hasSenders opener world status clock).Balance
      (Keeper.newWith interval lookup now requests) [] where
  rounds := rfl
  reads := Nat.zero_add _
  writes := (Nat.zero_add _).trans (Nat.zero_add _)
  answers := rfl
  hits := Nat.zero_add _
  stops := hends.imp_left (Keeper.stopRequested_enqueueAll _)
  idle := rfl
  lockReleased := rfl
  releases := rfl
  dropped := rfl

theorem onTrack_loaded {world' : W} (hopen : opener world = .ok store world')
    (hwilling : Willing names (store, world')) :
    (loaded interval lookup now requests hasSenders opener world status clock).OnTrack names full :=
  .opening rfl hopen hwilling rfl

omit [Store S W] in
theorem idles_loaded :
    (loaded interval lookup now requests hasSenders opener world status clock).Idles :=
  idles_of_not_working nofun

end

omit [Store S W] in
theorem Balance.done (h : s.Balance full rounds) (hstage : s.stage = .ended) (hdrained : s.Drained) :
    rounds = full.ahead ++ [.leave] ∧ s.answers = full.foreseen full.reads := by
  obtain ⟨⟨_, _, _⟩, _, _, ⟨_, _, _⟩⟩ := s
  obtain ⟨hqueue, hreads, hwrites⟩ := hdrained
  cases hstage
  cases hqueue
  cases hreads
  cases hwrites
  exact ⟨(List.append_nil _).symm.trans h.rounds, (List.append_nil _).symm.trans h.answers⟩

theorem OnTrack.told (h : s.OnTrack names full) (hended : s.stage = .ended) :
    s.Drained ∧ s.status.summary.map Summary.counts = some full.report := by
  cases h with
  | ended _ hdrained htold => exact ⟨hdrained, htold⟩
  | _ hstage => rw [hstage] at hended; cases hended

section
variable {view : StoreView S W} {initial : String → CacheContent} {Ready : W → Prop} {opener : Opener S W}
  {world world' : W} {requests : List Request} {hasSenders lookup : Bool} {interval : Duration}
  {now clock : Instant} {status : Status} {steps : Nat} {store' : S} {task : Task}

theorem OnTrack.drained_of_closing (h : s.OnTrack names full) (hstage : s.stage = .working store .closing) :
    s.Drained := by
  cases h with
  | closing _ _ hdrained => exact hdrained
  | _ hother => cases hstage.symm.trans hother

theorem run_loaded (around : Surroundings S W) (requests : List Request) (hasSenders : Bool) :
    Run around (.start (.new interval lookup now) opener world .empty status clock) requests
      (loaded interval lookup now requests hasSenders opener world status clock) := by
  have hsent : Run around (.start (.new interval lookup now) opener world .empty status clock) requests
      (loaded interval lookup now requests true opener world status clock) :=
    Run.start.sendAll rfl requests
  cases hasSenders with
  | true => exact hsent
  | false => exact hsent.disconnect

omit [Store S W] in
theorem names_ahead_newWith (hnamed : ∀ r ∈ requests, r.Names names) :
    ∀ r ∈ (Keeper.newWith interval lookup now requests).ahead, r.Names names := by
  have hahead := Keeper.ahead_newWith interval lookup now requests
  exact fun r hr => Request.names_rounds hnamed r (hahead ▸ List.mem_append_left _ hr)

theorem Rounds.balanced (hopen : opener world = .ok store world') (hwilling : Willing names (store, world'))
    (hnamed : ∀ r ∈ requests, r.Names names) (hends : .stop ∈ requests ∨ hasSenders = false)
    (h : Rounds (loaded interval lookup now requests hasSenders opener world status clock) steps rounds s) :
    s.Balance (.newWith interval lookup now requests) rounds ∧
      s.OnTrack names (.newWith interval lookup now requests) :=
  h.onTrack (balance_loaded hends) (onTrack_loaded hopen hwilling) (names_ahead_newWith hnamed)

/-- The store has the writes of the rounds, but for the one in hand. -/
theorem Rounds.content (hview : view.Faithful) (hopens : Opens view initial Ready opener) (hready : Ready world)
    (hordered : ∀ {name entries}, initial name = .ok entries → entries.Ordered)
    (hopen : opener world = .ok store world') (hwilling : Willing view.Named (store, world'))
    (hnamed : ∀ r ∈ requests, r.Names view.Named) (hends : .stop ∈ requests ∨ hasSenders = false)
    (h : Rounds (loaded interval lookup now requests hasSenders opener world status clock) steps rounds s)
    (hstage : s.stage = .working store' task) :
    ∃ applied, Round.writes rounds = applied ++ task.writing ∧
      ∀ name, view.Named name → view.content (store', s.world) name =
        PendingWrite.contentAfter initial applied name := by
  obtain ⟨hbalance, -⟩ := h.balanced hopen hwilling hnamed hends
  have hconsistent : Consistent view initial Ready requests s := by
    have hrun := (run_loaded _ requests hasSenders).trans h.run
    rw [List.append_nil] at hrun
    exact hrun.consistent hview (fun _ _ => False.elim) hordered
      (.opening opener rfl hopens hready rfl (Books.start _ lookup)) hnamed
  -- the books tell which writes were applied, and the balance tells how many
  obtain ⟨applied, hcount, hprefix, hcontent⟩ : ∃ applied : List PendingWrite,
      s.keeper.tally.writesApplied = applied.length ∧ applied ++ task.writing <+: Request.writes requests ∧
        ∀ name, view.Named name → view.content (store', s.world) name =
          PendingWrite.contentAfter initial applied name := by
    by_cases hloop : task.InLoop
    · obtain ⟨taken, applied, hworking⟩ := hconsistent.inLoop hstage hloop
      refine ⟨applied, hworking.books.count, ?_, hworking.content⟩
      rw [hworking.books.sent, Request.writes_append, Request.writes_append, hworking.books.writes]
      exact ((List.prefix_append ..).trans (List.prefix_append ..)).trans (List.prefix_append ..)
    · have hleaving := hconsistent.outOfLoop hstage hloop
      refine ⟨_, ?_, ?_, hleaving.content⟩
      · exact (List.length_take_of_le hleaving.past.count).symm
      · have hwriting : task.writing = [] := by
          cases task <;> first | rfl | exact absurd trivial hloop
        rw [hwriting, List.append_nil]
        exact List.take_prefix ..
  refine ⟨applied, ?_, hcontent⟩
  have hrounds := hbalance.writes_rounds
  have hlength : (Round.writes rounds).length = (applied ++ task.writing).length := by
    have hall := congrArg List.length hrounds
    have hwrites := hbalance.writes
    rw [hstage, hcount] at hwrites
    change applied.length + (task.writing.length + s.caughtUp.writes.length) = _ at hwrites
    rw [List.length_append, List.length_map, List.length_map, ← hwrites] at hall
    rw [List.length_append]
    omega
  rw [Keeper.writes_newWith] at hrounds
  exact (List.prefix_of_prefix_length_le ⟨_, hrounds⟩ hprefix hlength.le).eq_of_length hlength

/-- When it is closed, the store has all the writes of the batch. -/
theorem Rounds.content_of_closing (hview : view.Faithful) (hopens : Opens view initial Ready opener)
    (hready : Ready world) (hordered : ∀ {name entries}, initial name = .ok entries → entries.Ordered)
    (hopen : opener world = .ok store world') (hwilling : Willing view.Named (store, world'))
    (hnamed : ∀ r ∈ requests, r.Names view.Named) (hends : .stop ∈ requests ∨ hasSenders = false)
    (h : Rounds (loaded interval lookup now requests hasSenders opener world status clock) steps rounds s)
    (hstage : s.stage = .working store' .closing) : ∀ name, view.Named name →
      view.content (store', s.world) name =
        PendingWrite.contentAfter initial (Request.writes requests) name := by
  obtain ⟨hbalance, honTrack⟩ := h.balanced hopen hwilling hnamed hends
  obtain ⟨applied, happlied, hcontent⟩ :=
    h.content hview hopens hready hordered hopen hwilling hnamed hends hstage
  have hrounds := hbalance.writes_rounds
  rw [(honTrack.drained_of_closing hstage).writes_caughtUp, Keeper.writes_newWith, happlied] at hrounds
  rw [← hrounds]
  simp only [Task.writing, List.append_nil, List.map_nil]
  exact hcontent

end

/-- A batch of requests is served to the end, in as many rounds as there are reads and writes and one
more, and the summary tells what was in it. -/
theorem Rounds.drains_batch {opener : Opener S W} {world world' : W} {requests : List Request}
    {hasSenders lookup : Bool} {interval : Duration} {now clock : Instant} {status : Status} {steps : Nat}
    (hopen : opener world = .ok store world') (hwilling : Willing names (store, world'))
    (hnamed : ∀ r ∈ requests, r.Names names) (hends : .stop ∈ requests ∨ hasSenders = false)
    (h : Rounds (loaded interval lookup now requests hasSenders opener world status clock) steps rounds s) :
    rounds <+: Request.rounds requests ∧ steps ≤ 16 * requests.length + 19 ∧
    (s.hasEnded = false → ∃ s', s.step none = some s') ∧
    (s.hasEnded = true → rounds = Request.rounds requests ∧ s.dropped = [] ∧
      s.answers = (if lookup then Request.answersInOrder (fun _ => .ok []) [] requests
        else (Request.allReads requests).map fun read => (read.token, none)) ∧
      s.status.summary.map Summary.counts = some
        { readsServed := (Request.allReads requests).length
          readsFromPendingWrites := if lookup then Request.readsBehindWrites [] requests else 0
          writesApplied := (Request.writes requests).length }) := by
  have hahead := Keeper.ahead_newWith interval lookup now requests
  obtain ⟨hbalance, honTrack⟩ := h.balanced hopen hwilling hnamed hends
  have hsteps := h.steps_le (balance_loaded hends) (onTrack_loaded hopen hwilling)
    (names_ahead_newWith hnamed) idles_loaded
  refine ⟨⟨_, hbalance.rounds.trans hahead⟩, ?_, fun hended => ?_, fun hended => ?_⟩
  · exact (Nat.le_add_right _ _).trans hsteps
  · refine exists_step honTrack.not_rests fun hstage => ?_
    unfold hasEnded at hended
    rw [hstage] at hended
    cases hended
  · have hstage := stage_of_hasEnded hended
    obtain ⟨hdrained, htold⟩ := honTrack.told hstage
    obtain ⟨hrounds, hanswers⟩ := hbalance.done hstage hdrained
    exact ⟨hrounds.trans hahead, hbalance.dropped, hanswers.trans (Keeper.foreseen_newWith ..),
      htold.trans (congrArg some (Keeper.report_newWith ..))⟩

/-- A stop before the last read: the first read finds nothing, the last one finds the write. -/
theorem Rounds.drains_batch_of_stop :
    let tasks : CacheIdentity := ⟨"tasks", "str", "utf8"⟩
    let requests : List Request := [.read ⟨⟨0⟩, tasks, "1"⟩, .write ⟨tasks, "1", .put [97]⟩, .stop,
      .read ⟨⟨1⟩, tasks, "1"⟩]
    ∃ (steps : Nat) (rounds : List Round) (s : System MemoryStore Probe),
      Rounds (loaded .zero true ⟨0⟩ requests true (.of MemoryStore.opener) {} {} ⟨0⟩) steps rounds s ∧
      s.hasEnded = true ∧
      rounds = [.read ⟨⟨0⟩, tasks, "1"⟩, .read ⟨⟨1⟩, tasks, "1"⟩, .write ⟨tasks, "1", .put [97]⟩, .leave] ∧
      s.answers = [(⟨0⟩, none), (⟨1⟩, some [97])] ∧
      s.status.summary.map Summary.counts = some
        { readsServed := 2, readsFromPendingWrites := 1, writesApplied := 1 } := by
  intro tasks requests
  let start : System MemoryStore Probe :=
    loaded .zero true ⟨0⟩ requests true (.of MemoryStore.opener) {} {} ⟨0⟩
  obtain ⟨steps, rounds, hrounds⟩ := (Rounds.start : Rounds start 0 [] start).proceed 30
  have hended : (start.proceed 30).hasEnded = true := by decide +kernel
  have hopen : Opener.of MemoryStore.opener {} =
      .ok (MemoryStore.openStore {}).1 (MemoryStore.openStore {}).2 := rfl
  have hwilling : Willing (fun _ => True) (MemoryStore.openStore {}) :=
    MemoryStore.willing _ rfl nofun
  have hnamed : ∀ r ∈ requests, r.Names fun _ => True := fun r _ => by cases r <;> trivial
  have hstop : .stop ∈ requests := by decide
  obtain ⟨-, -, -, hdone⟩ := Rounds.drains_batch hopen hwilling hnamed (.inl hstop) hrounds
  obtain ⟨hall, -, hanswers, hcounts⟩ := hdone hended
  exact ⟨steps, rounds, _, hrounds, hended, hall, hanswers, hcounts⟩

end System

end HistoryKeeper
