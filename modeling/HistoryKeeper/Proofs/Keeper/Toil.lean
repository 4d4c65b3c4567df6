import HistoryKeeper.Proofs.Data.Table
import HistoryKeeper.Proofs.Keeper.Run

/-!
# How much a keeper has left to do

A keeper comes to rest, or to its end: `System.toil` is a bound on the steps that it can take before
it has nothing left to do, and each of them makes it smaller (`toil_step`), whatever interferes. Only
a keeper that rests has no step (`exists_step`). `System.Idles` is what makes the bound one: an idle
keeper has empty queues and has not seen a stop.
-/

namespace HistoryKeeper

/-- How much requests count among what is left to do, and a stop that was not seen yet. -/
def Keeper.backlog (k : Keeper) (inbox : Inbox) : Nat :=
  16 * inbox.queue.length + 5 * (k.reads.length + k.writes.length) +
    if k.stopRequested then 0 else 6

namespace Task

/-- The keeper is idle. -/
def IsIdle : Task → Prop
  | .waiting _ | .releasing | .released | .reacquiring _ => True
  | _ => False

/-- How much a task counts among what is left to do. -/
def toil (caches : Table String CacheId) : Task → Nat
  | .entering => 12
  | .collecting => 11
  | .choosing => 10
  | .answering _ read => if (caches.get? read.cache.name).isSome then 12 else 13
  | .applying write => if (caches.get? write.cache.name).isSome then 12 else 13
  | .waiting _ | .releasing => 9
  | .released => 8
  | .reacquiring (.ok (some _)) => 17
  | .reacquiring _ => 7
  | .leaving _ => 6
  | .closing => 5

section
variable {task : Task} {cache : CacheIdentity}

theorem not_isIdle_of_cache (h : task.cache? = some cache) : ¬ task.IsIdle := by
  cases task with
  | answering _ _ | applying _ => exact id
  | _ => cases h

theorem toil_of_cache (h : task.cache? = some cache) (caches : Table String CacheId) :
    task.toil caches = if (caches.get? cache.name).isSome then 12 else 13 := by
  cases task with
  | answering _ _ | applying _ => cases h; rfl
  | _ => cases h

theorem lt_toil_of_cache (h : task.cache? = some cache) (caches : Table String CacheId) :
    11 < task.toil caches := by
  rw [toil_of_cache h]
  split <;> decide

theorem toil_le_of_cache (h : task.cache? = some cache) (caches : Table String CacheId) :
    task.toil caches ≤ 13 := by
  rw [toil_of_cache h]
  split <;> decide

theorem toil_insert {caches : Table String CacheId} (h : task.cache? = some cache)
    (hclosed : caches.get? cache.name = none) (c : CacheId) :
    task.toil (caches.insert cache.name c) < task.toil caches := by
  rw [toil_of_cache h, toil_of_cache h, hclosed, Table.get?_insert_self]
  exact Nat.lt_succ_self 12

end

theorem toil_of_inside {task : Task} (h : task.isInside = true) (caches : Table String CacheId) :
    6 < task.toil caches := by
  cases task with
  | entering | leaving _ | closing => cases h
  | answering _ _ | applying _ =>
    show 6 < if _ then _ else _
    split <;> decide
  | reacquiring outcome => rcases outcome with _ | _ | _ <;> exact Nat.le_of_ble_eq_true rfl
  | _ => exact Nat.le_of_ble_eq_true rfl

theorem toil_pos (task : Task) (caches : Table String CacheId) : 4 < task.toil caches := by
  by_cases hinside : task.isInside = true
  · exact Nat.lt_trans (by decide) (toil_of_inside hinside caches)
  · cases task with
    | entering | leaving _ | closing => exact Nat.le_of_ble_eq_true rfl
    | _ => exact absurd rfl hinside

end Task

/-- How much a stage counts among what is left to do. -/
def Stage.toil {S W : Type} (caches : Table String CacheId) : Stage S W → Nat
  | .opening _ => 13
  | .working _ task => task.toil caches
  | .failing _ _ => 4
  | .draining _ => 3
  | .finishing _ => 2
  | .parting => 1
  | .ended => 0

theorem Stage.toil_le {S W : Type} (stage : Stage S W) (caches : Table String CacheId) :
    stage.toil caches ≤ 17 := by
  cases stage with
  | working store task =>
    cases task with
    | answering _ _ | applying _ =>
      show (if _ then _ else _) ≤ 17
      split <;> decide
    | reacquiring outcome => rcases outcome with _ | _ | _ <;> exact Nat.le_of_ble_eq_true rfl
    | _ => exact Nat.le_of_ble_eq_true rfl
  | _ => exact Nat.le_of_ble_eq_true rfl

namespace Keeper

theorem backlog_enqueue (k : Keeper) (inbox : Inbox) (request : Request) :
    (k.enqueue request).backlog inbox ≤ k.backlog inbox + 5 := by
  unfold backlog
  cases request with
  | read r =>
    show _ + 5 * ((k.reads ++ [(k.nextPlace, r)]).length + k.writes.length) + _ ≤ _
    rw [List.length_append, List.length_singleton]
    show _ + (if k.stopRequested then 0 else 6) ≤ _
    omega
  | write w =>
    show _ + 5 * (k.reads.length + (k.writes ++ [(k.nextPlace, w)]).length) + _ ≤ _
    rw [List.length_append, List.length_singleton]
    show _ + (if k.stopRequested then 0 else 6) ≤ _
    omega
  | stop =>
    show 16 * inbox.queue.length + 5 * (k.reads.length + k.writes.length) + 0 ≤ _
    omega

theorem backlog_requestStop {k : Keeper} (h : k.stopRequested = false) (inbox : Inbox) :
    k.backlog inbox = k.requestStop.backlog inbox + 6 := by
  unfold backlog
  rw [h]
  rfl

theorem backlog_receive {request : Request} {inbox rest : Inbox} (k : Keeper)
    (h : inbox.receive = .request request rest) :
    k.backlog inbox = k.backlog rest + 16 := by
  rw [backlog, backlog, (Inbox.queue_of_receive h).1, List.length_cons]
  omega

theorem backlog_of_reads {k : Keeper} {x : Nat × PendingRead} {reads : List (Nat × PendingRead)}
    (h : k.reads = x :: reads) (inbox : Inbox) :
    k.backlog inbox = { k with reads }.backlog inbox + 5 := by
  unfold backlog
  rw [h, List.length_cons]
  show _ = 16 * inbox.queue.length + 5 * (reads.length + k.writes.length) +
    (if k.stopRequested then 0 else 6) + 5
  omega

theorem backlog_of_writes {k : Keeper} {x : Nat × PendingWrite} {writes : List (Nat × PendingWrite)}
    (h : k.writes = x :: writes) (inbox : Inbox) :
    k.backlog inbox = { k with writes }.backlog inbox + 5 := by
  unfold backlog
  rw [h, List.length_cons]
  show _ = 16 * inbox.queue.length + 5 * (k.reads.length + writes.length) +
    (if k.stopRequested then 0 else 6) + 5
  omega

theorem backlog_requestStop_le (k : Keeper) (inbox : Inbox) :
    k.requestStop.backlog inbox ≤ k.backlog inbox := by
  show 16 * inbox.queue.length + 5 * (k.reads.length + k.writes.length) + 0 ≤ _ + _
  omega

end Keeper

namespace System

variable {S W : Type}

/-- A bound on the steps that the keeper takes before it has nothing left to do. -/
def toil (s : System S W) : Nat :=
  s.keeper.backlog s.inbox + s.stage.toil s.keeper.caches

/-- The keeper waits for requests: there are none, and someone may still send some. -/
def Rests (s : System S W) : Prop :=
  s.inbox.queue = [] ∧ s.inbox.hasSenders = true ∧
    match s.stage with
    | .working _ (.waiting _) | .working _ .released => True
    | _ => False

/-- While it is idle, the keeper has nothing in its queues and knows of no stop. -/
structure Idles (s : System S W) : Prop where
  empty : ∀ {store task}, s.stage = .working store task → task.IsIdle →
    s.keeper.reads = [] ∧ s.keeper.writes = [] ∧ s.keeper.stopRequested = false

theorem idles_of_busy {s : System S W} {store : S} {task : Task}
    (h : s.stage = .working store task) (hbusy : ¬ task.IsIdle) : s.Idles := by
  refine ⟨fun hstage hidle => ?_⟩
  rw [h] at hstage
  cases hstage
  exact absurd hidle hbusy

theorem idles_of_not_working {s : System S W} (h : ∀ store task, s.stage ≠ .working store task) :
    s.Idles :=
  ⟨fun hstage => absurd hstage (h _ _)⟩

section
variable [Store S W] {s s' : System S W} {interference : Option Interference}

/-! ### Idle keepers -/

theorem Idles.step (h : s.Idles) (hstep : s.step interference = some s') : s'.Idles := by
  have hkeep : ∀ {s' : System S W} {store store' : S} {task task' : Task},
      s.stage = .working store task → task.IsIdle → s'.stage = .working store' task' →
      s'.keeper = s.keeper → s'.Idles := by
    intro s' store store' task task' hstage hidle hstage' hkeeper
    refine ⟨fun _ _ => ?_⟩
    rw [hkeeper]
    exact h.empty hstage hidle
  cases moves_of_step hstep with
  | releases hstage hreads hwrites hstop | rests hstage hreads hwrites hstop =>
    exact ⟨fun _ _ => ⟨hreads, hwrites, hstop⟩⟩
  | released hstage | brokenReleased hstage | tookReleased hstage | sawEndReleased hstage =>
    exact hkeep hstage (by trivial) rfl rfl
  | openedCache _ _ hcache => exact idles_of_busy rfl (Task.not_isIdle_of_cache hcache)
  | drained hstage | letGo hstage | drainedAll hstage | finished hstage | parted hstage =>
    refine idles_of_not_working fun store task hworking => ?_
    first | rw [hstage] at hworking; cases hworking | cases hworking
  | unopened | failed | crashed | overflowed | leftFailed | closed =>
    exact idles_of_not_working nofun
  | _ => exact idles_of_busy rfl id

omit [Store S W] in
theorem Idles.congr (h : s.Idles) (hstage : s'.stage = s.stage) (hkeeper : s'.keeper = s.keeper) :
    s'.Idles := by
  refine ⟨fun hworking => ?_⟩
  rw [hkeeper]
  exact h.empty (hstage.symm.trans hworking)

theorem Run.idles {around : Surroundings S W} {start : System S W} {sent : List Request}
    (h : Run around start sent s) (hstart : start.Idles) : s.Idles := by
  induction h with
  | start => exact hstart
  | step _ _ hstep ih => exact ih.step hstep
  | send _ hsend ih =>
    obtain ⟨inbox, -, rfl⟩ := Option.map_eq_some_iff.mp hsend
    exact ih.congr rfl rfl
  | tick _ _ ih => exact ih.congr rfl rfl
  | disconnect _ ih => exact ih.congr rfl rfl
  | change _ _ _ ih => exact ih.congr rfl rfl
  | note _ _ _ ih => exact ih.congr rfl rfl

omit [Store S W] in
theorem toil_eq {stage : Stage S W} (h : s.stage = stage) :
    s.toil = s.keeper.backlog s.inbox + stage.toil s.keeper.caches := by
  rw [toil, h]

omit [Store S W] in
theorem toil_lt {stage : Stage S W} (h : s.stage = stage)
    (hbacklog : s'.keeper.backlog s'.inbox ≤ s.keeper.backlog s.inbox)
    (hstage : s'.stage.toil s'.keeper.caches < stage.toil s.keeper.caches) : s'.toil < s.toil := by
  rw [toil_eq h]
  exact Nat.add_lt_add_of_le_of_lt hbacklog hstage

theorem toil_awoke {store store₁ : S} {task : Task} {received : Option (Option Request)}
    {waited : Duration} {lockReleased : Bool} {s₁ : System S W} {tally : Tally} (hidles : s.Idles)
    (hrests : ¬ s.Rests) (hstage : s.stage = .working store task)
    (hawakes : Awakes s store task received waited lockReleased s₁ store₁) :
    ({ s₁ with keeper := { s₁.keeper with tally }.hear received }.go store₁ .collecting).toil <
      s.toil := by
  have henqueue : ∀ (k : Keeper) (inbox : Inbox) (request : Request),
      k.backlog inbox = s.keeper.backlog inbox →
      (k.enqueue request).backlog inbox ≤ s.keeper.backlog inbox + 5 := by
    intro k inbox request h
    rw [← h]
    exact k.backlog_enqueue inbox request
  have hstop : ∀ {k : Keeper}, task.IsIdle → k.backlog s.inbox = s.keeper.backlog s.inbox →
      k.stopRequested = s.keeper.stopRequested →
      k.requestStop.backlog s.inbox + 6 = s.keeper.backlog s.inbox := by
    intro k hidle h hstop
    rw [← h, Keeper.backlog_requestStop (hstop.trans (hidles.empty hstage hidle).2.2)]
  rw [toil_eq hstage]
  cases hawakes with
  | @request since request inbox hreceive =>
    have hbacklog := henqueue { s.keeper with tally } inbox request rfl
    rw [Keeper.backlog_receive _ hreceive]
    show ({ s.keeper with tally }.enqueue request).backlog inbox + 11 < _ + 16 + 9
    omega
  | disconnected =>
    have hbacklog := hstop (k := { s.keeper with tally }) trivial rfl rfl
    show ({ s.keeper with tally } : Keeper).requestStop.backlog s.inbox + 11 < _ + 9
    omega
  | deadline hreceive =>
    refine absurd ⟨Inbox.queue_of_nothing hreceive, Inbox.hasSenders_of_nothing hreceive, ?_⟩ hrests
    rw [hstage]
    trivial
  | @reacquired received store' world =>
    let pacing := (s.keeper.pacing.reacquire s.clock).2
    cases received with
    | some request =>
      have hbacklog := henqueue { s.keeper with pacing, tally } s.inbox request rfl
      show ({ s.keeper with pacing, tally }.enqueue request).backlog s.inbox + 11 < _ + 17
      omega
    | none =>
      have hbacklog := hstop (k := { s.keeper with pacing, tally }) trivial rfl rfl
      show ({ s.keeper with pacing, tally } : Keeper).requestStop.backlog s.inbox + 11 < _ + 7
      omega

theorem toil_step (hidles : s.Idles) (hrests : ¬ s.Rests) (hstep : s.step interference = some s') :
    s'.toil < s.toil := by
  have hpicked : ∀ n, n + 13 < n + 5 + 10 := fun n => by omega
  cases moves_of_step hstep with
  | opened hstage | unopened hstage | entered hstage | tookAll hstage | exited hstage
  | releases hstage | rests hstage | released hstage | brokenReleased hstage
  | reacquiredBroken hstage | left hstage | leftFailed hstage | closed hstage | letGo hstage
  | drainedAll hstage | finished hstage =>
    exact toil_lt hstage (Nat.le_refl _) (Nat.le_of_ble_eq_true rfl)
  | sawEndReleased hstage => exact toil_lt hstage (Nat.le_refl _) (Nat.le_of_ble_eq_true rfl)
  | broken hstage _ hinside =>
    exact toil_lt hstage (Nat.le_refl _) (Task.toil_of_inside hinside _)
  | failed hstage | crashed hstage => exact toil_lt hstage (Nat.le_refl _) (Task.toil_pos _ _)
  | sawEnd hstage =>
    exact toil_lt hstage (s.keeper.backlog_requestStop_le _) (Nat.le_of_ble_eq_true rfl)
  | @took store request inbox hstage hreceive =>
    have hbacklog := s.keeper.backlog_enqueue inbox request
    rw [toil_eq hstage, Keeper.backlog_receive _ hreceive]
    show (s.keeper.enqueue request).backlog inbox + 11 < _ + 16 + 11
    omega
  | @drained failed request inbox hstage hreceive =>
    have hbacklog := s.keeper.backlog_enqueue inbox request
    rw [toil_eq hstage, Keeper.backlog_receive _ hreceive]
    show (s.keeper.enqueue request).backlog inbox + s.stage.toil _ < _ + 16 + 3
    rw [hstage]
    show _ + 3 < _
    omega
  | tookReleased hstage hnone hreceive =>
    rw [toil_eq hstage, Keeper.backlog_receive _ hreceive]
    exact Nat.lt_of_lt_of_eq (Nat.add_lt_add_left (by decide : 17 < 16 + 8) _) (Nat.add_assoc ..).symm
  | @pickedRead store place read reads hstage hreads =>
    have htask : Task.toil s.keeper.caches (.answering place read) ≤ 13 :=
      Task.toil_le_of_cache rfl _
    rw [toil_eq hstage, Keeper.backlog_of_reads hreads]
    exact Nat.lt_of_le_of_lt (Nat.add_le_add_left htask _) (hpicked _)
  | @pickedWrite store place write writes hstage hreads hwrites =>
    have htask : Task.toil s.keeper.caches (.applying write) ≤ 13 := Task.toil_le_of_cache rfl _
    rw [toil_eq hstage, Keeper.backlog_of_writes hwrites]
    exact Nat.lt_of_le_of_lt (Nat.add_le_add_left htask _) (hpicked _)
  | @answeredFromWrites _ place read _ hstage | @answeredFromStore _ place read _ _ _ _ hstage =>
    have htask : 11 < Task.toil s.keeper.caches (.answering place read) :=
      Task.lt_toil_of_cache rfl _
    exact toil_lt hstage (Nat.le_refl _) htask
  | @applied _ write _ _ _ hstage =>
    have htask : 11 < Task.toil s.keeper.caches (.applying write) := Task.lt_toil_of_cache rfl _
    exact toil_lt hstage (Nat.le_refl _) htask
  | openedCache hstage _ hcache hclosed =>
    exact toil_lt hstage (Nat.le_refl _) (Task.toil_insert hcache hclosed _)
  | awoke hstage hawakes => exact toil_awoke hidles hrests hstage hawakes
  | overflowed hstage hawakes =>
    refine toil_lt hstage ?_ (Task.toil_pos _ _)
    cases hawakes with
    | request hreceive =>
      rw [Keeper.backlog_receive _ hreceive]
      exact Nat.le_add_right ..
    | _ => exact Nat.le_refl _
  | parted hstage =>
    refine toil_lt hstage ?_ Nat.zero_lt_one
    show 16 * 0 + 5 * (0 + 0) + (if s.keeper.stopRequested then 0 else 6) ≤ _
    exact Nat.add_le_add_right (Nat.zero_le _) _

theorem exists_step (hrests : ¬ s.Rests) (hended : s.stage ≠ .ended) :
    ∃ s', s.step none = some s' := by
  have hwake : s.inbox.receive = .nothing → s.inbox.queue = [] ∧ s.inbox.hasSenders = true :=
    fun h => ⟨Inbox.queue_of_nothing h, Inbox.hasSenders_of_nothing h⟩
  unfold System.step
  cases hstage : s.stage with
  | working store task =>
    cases task with
    | waiting since =>
      show ∃ s', s.wait store since = some s'
      unfold System.wait
      cases hreceive : s.inbox.receive with
      | nothing =>
        obtain ⟨hqueue, hsenders⟩ := hwake hreceive
        exact absurd ⟨hqueue, hsenders, by rw [hstage]; trivial⟩ hrests
      | _ => exact ⟨_, rfl⟩
    | released =>
      show ∃ s', s.waitReleased none store = some s'
      unfold System.waitReleased
      cases hreceive : s.inbox.receive with
      | nothing =>
        obtain ⟨hqueue, hsenders⟩ := hwake hreceive
        exact absurd ⟨hqueue, hsenders, by rw [hstage]; trivial⟩ hrests
      | _ => exact ⟨_, rfl⟩
    | _ => exact ⟨_, rfl⟩
  | draining failed => cases hreceive : s.inbox.receive <;> exact ⟨_, rfl⟩
  | ended => exact absurd hstage hended
  | _ => exact ⟨_, rfl⟩

end

end System

end HistoryKeeper
