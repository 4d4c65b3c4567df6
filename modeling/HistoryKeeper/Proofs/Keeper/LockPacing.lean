import HistoryKeeper.Proofs.Keeper.Run
import HistoryKeeper.Proofs.Store.MemoryStore
import HistoryKeeper.Proofs.Store.Script

/-!
# When a keeper gives the lock up

A store in memory counts in its probe how often its lock was taken and given up, and which cache
operations came without it. The keeper keeps time in its `Pacing`, and the store has a flag. What the
three say fits together at every point of a run (`Clocked`): the keeper works only while the flag is
up, gives the lock up only when there is nothing to do and its deadline has come, and counts what the
probe counts. Only a run that has not failed closes the store (`Timed.gives_up_idle`).
-/

namespace HistoryKeeper

/-- What a probe knows of the lock: how often it was taken and given up, the operations without it,
whether the store was closed, and whether the lock is held. -/
def Probe.ledger (w : Probe) : Nat × Nat × Nat × Bool × Bool :=
  (w.lockAcquisitions, w.longOperations, w.unlockedAccesses, w.closed, w.lockHeld)

namespace MemoryStore

variable {s : MemoryStore} {w : Probe} {st st' : MemoryStore × Probe}

/-- Nothing happens to the lock. -/
def Quiet (st st' : MemoryStore × Probe) : Prop :=
  st'.1.locked = st.1.locked ∧ st'.2.ledger = st.2.ledger

theorem quiet_begin (hlocked : s.locked = true) (w : Probe) (key : String) :
    Quiet (s, w) (endState (begin key (s, w))) := by
  obtain ⟨locked, caches⟩ := s
  cases hlocked
  show Quiet _ (endState ((if w.failOnKey = some key then _ else pure () : Call Unit) _))
  split <;> exact ⟨rfl, rfl⟩

theorem quiet_lookup (hlocked : s.locked = true) (w : Probe) (c : CacheId) (key : String) :
    Quiet (s, w) (endState (lookup c key (s, w))) := by
  have hbegin := quiet_begin hlocked w key
  show Quiet _ (endState (EStateM.bind (begin key) _ _))
  unfold EStateM.bind
  cases hr : begin key (s, w) <;> (rw [hr] at hbegin; exact hbegin)

theorem quiet_change (hlocked : s.locked = true) (w : Probe) (change : Change) (c : CacheId)
    (key : String) : Quiet (s, w) (endState (change.call c key (s, w))) := by
  have hbegin := quiet_begin hlocked w key
  have hcall : change.call c key (s, w) =
      EStateM.bind (begin key) (fun _ => update c (change.applyTo key)) (s, w) := by
    cases change <;> rfl
  rw [hcall]
  unfold EStateM.bind
  cases hr : begin key (s, w) <;> (rw [hr] at hbegin; exact hbegin)

theorem quiet_openCache (file : Path) (s : MemoryStore) (w : Probe) :
    Quiet (s, w) (endState (openCache file (s, w))) := by
  rw [openCache_eq]
  split <;> exact ⟨rfl, rfl⟩

theorem enter_of_locked (hlocked : s.locked = true) (w : Probe) :
    enter (s, w) = .ok () (s, { w with touched := true }) := by
  obtain ⟨locked, caches⟩ := s
  cases hlocked
  rfl

end MemoryStore

namespace System

open MemoryStore (Quiet)

/-- The step at which the keeper begins to serve, and the one with which it gets the lock back, start
the time again. -/
def restart (since : Option Instant) (s : System MemoryStore Probe) : Option Instant :=
  match s.stage with
  | .working _ .entering | .working _ (.reacquiring (.ok _)) => some s.clock
  | _ => since

/-- Everything that can happen to a keeper and its store in memory, with the time since when the lock
has been kept: steps of the keeper, requests that are sent, time, senders that go away, a key that is
made to fail, and the marks of callers, who add to a summary how long they were blocked. -/
inductive Timed (start : System MemoryStore Probe) :
    Option Instant → System MemoryStore Probe → Prop
  | start : Timed start none start
  | step {since s s'} : Timed start since s → s.step none = some s' →
      Timed start (restart since s) s'
  | send {since s s' request} : Timed start since s → s.send request = some s' →
      Timed start since s'
  | tick {since s} (nanos : Nat) : Timed start since s → Timed start since (s.tick nanos)
  | disconnect {since s} : Timed start since s → Timed start since s.disconnect
  | failOnKey {since s} (key : Option String) : Timed start since s →
      Timed start since { s with world := { s.world with failOnKey := key } }
  | note {since s} (status : Status) (startedAt : Instant) (blocked : Duration) :
      Timed start since s →
      (status.summary = s.status.summary ∨
        status.summary = s.status.summary.map fun m => { m with blockedReads := blocked }) →
      Timed start since { s with status, startedAt }

variable {s s' : System MemoryStore Probe} {store store' : MemoryStore} {w : Probe}
  {interval : Duration} {since : Option Instant} {task : Task} {releases : Nat}

/-- The lock is held, and was given up so many times. -/
structure Holds (releases : Nat) (store : MemoryStore) (w : Probe) : Prop where
  locked : store.locked = true
  released : w.longOperations = releases
  acquired : w.lockAcquisitions = releases + 1
  refused : w.unlockedAccesses = 0
  unclosed : w.closed = false

/-- The lock is given up, for the time of this number. -/
structure GaveUp (releases : Nat) (store : MemoryStore) (w : Probe) : Prop where
  unlocked : store.locked = false
  released : w.longOperations = releases
  acquired : w.lockAcquisitions = releases
  refused : w.unlockedAccesses = 0
  unclosed : w.closed = false

/-- The work is over. -/
structure Done (releases : Nat) (failed : Bool) (w : Probe) : Prop where
  released : w.longOperations = releases
  acquired : w.lockAcquisitions = releases + 1
  refused : w.unlockedAccesses = 0
  closed : w.closed = !failed
  free : failed = false → w.lockHeld = false

theorem Holds.quiet (h : Holds releases store w) {st : MemoryStore × Probe}
    (hq : Quiet (store, w) st) : Holds releases st.1 st.2 := by
  obtain ⟨hlocked, hledger⟩ := hq
  simp only [Probe.ledger, Prod.mk.injEq] at hledger
  obtain ⟨ha, hl, hr, hc, -⟩ := hledger
  exact ⟨hlocked.trans h.locked, hl.trans h.released, ha.trans h.acquired, hr.trans h.refused,
    hc.trans h.unclosed⟩

theorem Holds.failed (h : Holds releases store w) : Done releases true w :=
  ⟨h.released, h.acquired, h.refused, h.unclosed, nofun⟩

/-- There is nothing to do, and the time for which the lock is kept is over. -/
structure Due (s : System MemoryStore Probe) : Prop where
  reads : s.keeper.reads = []
  writes : s.keeper.writes = []
  stop : s.keeper.stopRequested = false
  deadline : ∃ deadline, s.keeper.pacing.deadline = some deadline ∧ deadline ≤ s.clock

/-- The lock in the course of the work. -/
def AtTask (s : System MemoryStore Probe) (store : MemoryStore) : Task → Prop
  | .entering => Holds 0 store s.world
  | .releasing => s.Due ∧ ∃ releases, s.keeper.pacing.releaseCount = releases + 1 ∧
      Holds releases store s.world
  | .released | .reacquiring _ => GaveUp s.keeper.pacing.releaseCount store s.world
  | _ => Holds s.keeper.pacing.releaseCount store s.world

def AtStage (s : System MemoryStore Probe) : Prop :=
  match s.stage with
  | .opening opener => opener = .of MemoryStore.opener ∧ s.world.longOperations = 0 ∧
      s.world.lockAcquisitions = 0 ∧ s.world.unlockedAccesses = 0 ∧ s.world.closed = false
  | .working store task => s.AtTask store task
  | .failing _ _ => Done s.keeper.pacing.releaseCount true s.world
  | .draining failed | .finishing failed => Done s.keeper.pacing.releaseCount failed s.world
  | .parting | .ended => ∃ m, s.status.summary = some m ∧ Done m.lockReleaseCount m.failed s.world

/-- The keeper has not begun to serve. -/
def IsUnserved (s : System MemoryStore Probe) : Prop :=
  match s.stage with
  | .opening _ | .working _ .entering => True
  | _ => False

/-- The lock and the time, where `since` is when the keeper began to serve or last got the lock
back. -/
structure Clocked (interval : Duration) (since : Option Instant) (s : System MemoryStore Probe) :
    Prop where
  pacing : s.keeper.pacing.interval = interval
  unserved : since = none → s.IsUnserved
  deadline : ∀ t, since = some t → s.keeper.pacing.deadline = t.after? interval
  stage : s.AtStage

/-! ### Steps -/

theorem Clocked.proceed (h : Clocked interval since s)
    (hpacing : s'.keeper.pacing = s.keeper.pacing) (hunserved : s.IsUnserved → s'.IsUnserved)
    (hstage : s'.AtStage) : Clocked interval since s' :=
  ⟨hpacing ▸ h.pacing, fun hs => hunserved (h.unserved hs), fun t ht => hpacing ▸ h.deadline t ht,
    hstage⟩

theorem atStage_resume {waited : Duration} {lockReleased : Bool}
    {received : Option (Option Request)}
    (h : Holds s.keeper.pacing.releaseCount store s.world) :
    (s.resume store waited lockReleased received).AtStage ∧
      (s.resume store waited lockReleased received).keeper.pacing = s.keeper.pacing := by
  refine resume_rule (P := fun s' => s'.AtStage ∧ s'.keeper.pacing = s.keeper.pacing)
    (fun _ => ⟨h.failed, rfl⟩) fun tally _ => ?_
  have hpacing := pacing_hear { s.keeper with tally } received
  refine ⟨?_, hpacing⟩
  show Holds (Keeper.hear { s.keeper with tally } received).pacing.releaseCount store s.world
  rw [hpacing]
  exact h

/-- A call that leaves the lock alone; on a failure the keeper leaves its work. -/
theorem atStage_attempt {α : Type} {call : StoreCall MemoryStore Probe α}
    {next : α → MemoryStore → System MemoryStore Probe → System MemoryStore Probe}
    (h : Holds s.keeper.pacing.releaseCount store s.world) (hinside : task.isInside = true)
    (hquiet : Quiet (store, s.world) (endState (call (store, s.world))))
    (hnext : ∀ v store' world, Holds s.keeper.pacing.releaseCount store' world →
      (next v store' { s with world }).AtStage ∧
        (next v store' { s with world }).keeper.pacing = s.keeper.pacing) :
    (s.attempt none store task call next).AtStage ∧
      (s.attempt none store task call next).keeper.pacing = s.keeper.pacing := by
  refine attempt_rule (P := fun s' => s'.AtStage ∧ s'.keeper.pacing = s.keeper.pacing) nofun nofun
    (fun e st' _ hr => ?_) fun v st' _ hr => ?_
  · rw [hr] at hquiet
    unfold breakOff
    rw [if_pos hinside]
    exact ⟨h.quiet hquiet, rfl⟩
  · rw [hr] at hquiet
    exact hnext v st'.1 st'.2 (h.quiet hquiet)

theorem atStage_withCache {cache : CacheIdentity} {next : CacheId → System MemoryStore Probe}
    (h : Holds s.keeper.pacing.releaseCount store s.world) (hinside : task.isInside = true)
    (htask : ∀ s : System MemoryStore Probe, ∀ store,
      Holds s.keeper.pacing.releaseCount store s.world → s.AtTask store task)
    (hnext : ∀ c, (next c).AtStage ∧ (next c).keeper.pacing = s.keeper.pacing) :
    (s.withCache none store task cache next).AtStage ∧
      (s.withCache none store task cache next).keeper.pacing = s.keeper.pacing := by
  refine withCache_rule (P := fun s' => s'.AtStage ∧ s'.keeper.pacing = s.keeper.pacing)
    (fun c _ => hnext c) fun _ => ?_
  refine atStage_attempt h hinside (MemoryStore.quiet_openCache _ store s.world) ?_
  intro c store' world h'
  exact ⟨htask _ _ h', rfl⟩

theorem atStage_choose (h : Holds s.keeper.pacing.releaseCount store s.world) :
    (s.choose store).AtStage ∧ (s.choose store).keeper.pacing.interval = s.keeper.pacing.interval ∧
      (s.choose store).keeper.pacing.deadline = s.keeper.pacing.deadline := by
  unfold choose
  split
  · exact ⟨h, rfl, rfl⟩
  · exact ⟨h, rfl, rfl⟩
  · rename_i hreads hwrites
    split
    · exact ⟨h, rfl, rfl⟩
    · split
      · rename_i hstop hdue
        refine ⟨⟨⟨hreads, hwrites, Bool.eq_false_iff.mpr hstop, ?_⟩, _, rfl, h⟩, rfl, rfl⟩
        unfold Pacing.isReleaseDue at hdue
        cases hdeadline : s.keeper.pacing.deadline with
        | some deadline =>
          rw [hdeadline, Bool.and_eq_true] at hdue
          exact ⟨deadline, hdeadline, of_decide_eq_true hdue.2⟩
        | none =>
          rw [hdeadline, Bool.and_false] at hdue
          cases hdue
      · exact ⟨h, rfl, rfl⟩

/-- With the time going on, there is the lock to look after. -/
theorem Clocked.goes (h : Clocked interval since s) (hstage : s.stage = .working store task)
    (hserved : task ≠ .entering) (hkept : ∀ received, task ≠ .reacquiring (.ok received))
    (hnext : s'.AtStage ∧ s'.keeper.pacing.interval = s.keeper.pacing.interval ∧
      s'.keeper.pacing.deadline = s.keeper.pacing.deadline) :
    Clocked interval (restart since s) s' := by
  obtain ⟨hstage', hinterval, hdeadline⟩ := hnext
  have hrestart : restart since s = since := by
    unfold restart
    rw [hstage]
    split
    · rename_i heq; cases heq; exact absurd rfl hserved
    · rename_i heq; cases heq; exact absurd rfl (hkept _)
    · rfl
  have hunserved : ¬ s.IsUnserved := by
    unfold IsUnserved
    rw [hstage]
    split
    · rename_i heq; cases heq
    · rename_i heq; cases heq; exact absurd rfl hserved
    · exact id
  rw [hrestart]
  exact ⟨hinterval.trans h.pacing, fun hs => absurd (h.unserved hs) hunserved,
    fun t ht => hdeadline.trans (h.deadline t ht), hstage'⟩

theorem Clocked.entered (h : Clocked interval since s) (hstage : s.stage = .working store .entering)
    (hat : Holds 0 store s.world) (hwork : s.work none store .entering = some s') :
    Clocked interval (restart since s) s' := by
  have hcall : Store.enter (store, s.world) = .ok () (store, { s.world with touched := true }) :=
    MemoryStore.enter_of_locked hat.locked s.world
  have hrestart : restart since s = some s.clock := by rw [restart, hstage]
  unfold System.work at hwork
  rw [attempt_of_ok rfl hcall] at hwork
  cases hwork
  rw [hrestart]
  refine ⟨h.pacing, nofun, fun t ht => ?_,
    ⟨hat.locked, hat.released, hat.acquired, hat.refused, hat.unclosed⟩⟩
  cases ht
  rw [← h.pacing]
  rfl

theorem GaveUp.reacquired (h : GaveUp releases store w) :
    Holds releases { store with locked := true }
      { w with lockHeld := true, lockAcquisitions := w.lockAcquisitions + 1 } :=
  ⟨rfl, h.released, congrArg (· + 1) h.acquired, h.refused, h.unclosed⟩

theorem Clocked.reacquired {outcome : Except StoreError (Option Request)}
    (h : Clocked interval since s) (hstage : s.stage = .working store (.reacquiring outcome))
    (hat : GaveUp s.keeper.pacing.releaseCount store s.world)
    (hwork : s.work none store (.reacquiring outcome) = some s') :
    Clocked interval (restart since s) s' := by
  cases outcome with
  | error e =>
    cases hwork
    exact h.goes hstage nofun nofun ⟨hat.reacquired, rfl, rfl⟩
  | ok received =>
    cases hwork
    have hrestart : restart since s = some s.clock := by rw [restart, hstage]
    -- the time starts again before the keeper goes back to work
    let back : System MemoryStore Probe :=
      { s with
        world := { s.world with
          lockHeld := true, lockAcquisitions := s.world.lockAcquisitions + 1 }
        keeper := { s.keeper with pacing := (s.keeper.pacing.reacquire s.clock).2 } }
    obtain ⟨hstage', hpacing⟩ := atStage_resume (s := back) hat.reacquired
    rw [hrestart]
    refine ⟨?_, nofun, fun t ht => ?_, hstage'⟩
    · exact (congrArg Pacing.interval hpacing).trans h.pacing
    · cases ht
      rw [← h.pacing]
      exact congrArg Pacing.deadline hpacing

/-- The lock in the next step of the work, whatever task it is. -/
theorem Clocked.work (h : Clocked interval since s) (hstage : s.stage = .working store task)
    (hwork : s.work none store task = some s') : Clocked interval (restart since s) s' := by
  have hat : s.AtTask store task := by
    have hat := h.stage
    unfold AtStage at hat
    rw [hstage] at hat
    exact hat
  have hsame : s'.AtStage ∧ s'.keeper.pacing = s.keeper.pacing → s'.AtStage ∧
      s'.keeper.pacing.interval = s.keeper.pacing.interval ∧
        s'.keeper.pacing.deadline = s.keeper.pacing.deadline :=
    fun ⟨h, hp⟩ => ⟨h, congrArg Pacing.interval hp, congrArg Pacing.deadline hp⟩
  cases task with
  | entering => exact h.entered hstage hat hwork
  | collecting =>
    cases hwork
    refine h.goes hstage nofun nofun (hsame ?_)
    unfold collect
    split
    · rename_i request inbox _
      refine ⟨?_, pacing_enqueue ..⟩
      show Holds (s.keeper.enqueue request).pacing.releaseCount store s.world
      rw [pacing_enqueue]
      exact hat
    · exact ⟨hat, rfl⟩
    · exact ⟨hat, rfl⟩
  | choosing =>
    cases hwork
    exact h.goes hstage nofun nofun (atStage_choose hat)
  | answering place read =>
    cases hwork
    refine h.goes hstage nofun nofun (hsame ?_)
    unfold answer
    split
    · exact ⟨hat, rfl⟩
    · refine atStage_withCache hat rfl (fun _ _ => id) fun c => ?_
      refine atStage_attempt hat rfl (MemoryStore.quiet_lookup hat.locked s.world c read.key) ?_
      exact fun _ _ _ h' => ⟨h', rfl⟩
  | applying write =>
    cases hwork
    refine h.goes hstage nofun nofun (hsame ?_)
    refine atStage_withCache hat rfl (fun _ _ => id) fun c => ?_
    refine atStage_attempt hat rfl
      (MemoryStore.quiet_change hat.locked s.world write.change c write.key) ?_
    exact fun _ _ _ h' => ⟨h', rfl⟩
  | waiting idle =>
    refine h.goes hstage nofun nofun (hsame ?_)
    unfold System.work wait at hwork
    simp only at hwork
    split at hwork
    · cases hwork; exact atStage_resume hat
    · cases hwork; exact atStage_resume hat
    · split at hwork
      · split at hwork <;> cases hwork
        exact atStage_resume hat
      · cases hwork
  | releasing =>
    obtain ⟨-, releases, hcount, hholds⟩ := hat
    cases hwork
    refine h.goes hstage nofun nofun ⟨?_, rfl, rfl⟩
    show GaveUp s.keeper.pacing.releaseCount _ _
    rw [hcount]
    exact ⟨rfl, congrArg (· + 1) hholds.released, hholds.acquired, hholds.refused,
      hholds.unclosed⟩
  | released =>
    refine h.goes hstage nofun nofun (hsame ?_)
    unfold System.work waitReleased at hwork
    simp only at hwork
    split at hwork
    · cases hwork; exact ⟨hat, rfl⟩
    · cases hwork; exact ⟨hat, rfl⟩
    · cases hwork
  | reacquiring outcome => exact h.reacquired hstage hat hwork
  | leaving failure =>
    cases hwork
    refine h.goes hstage nofun nofun (hsame ?_)
    cases failure with
    | none => exact ⟨hat, rfl⟩
    | some e => exact ⟨hat.failed, rfl⟩
  | closing =>
    cases hwork
    exact h.goes hstage nofun nofun
      ⟨⟨hat.released, hat.acquired, hat.refused, rfl, fun _ => rfl⟩, rfl, rfl⟩

/-- Behind the work nothing is left but to count and to part. -/
theorem Clocked.winds (h : Clocked interval since s) (hover : s.IsOver)
    (hnext : s'.AtStage ∧ s'.keeper.pacing = s.keeper.pacing) :
    Clocked interval (restart since s) s' := by
  have hstage : (∀ opener, s.stage ≠ .opening opener) ∧
      ∀ store task, s.stage ≠ .working store task := by
    unfold IsOver at hover
    constructor
    · intro opener heq; rw [heq] at hover; exact hover
    · intro store task heq; rw [heq] at hover; exact hover
  have hrestart : restart since s = since := by
    unfold restart
    split
    · exact absurd ‹_› (hstage.2 _ _)
    · exact absurd ‹_› (hstage.2 _ _)
    · rfl
  have hunserved : ¬ s.IsUnserved := by
    unfold IsUnserved
    split
    · exact absurd ‹_› (hstage.1 _)
    · exact absurd ‹_› (hstage.2 _ _)
    · exact id
  rw [hrestart]
  exact h.proceed hnext.2 (fun hs => absurd hs hunserved) hnext.1

theorem Clocked.step (h : Clocked interval since s) (hstep : s.step none = some s') :
    Clocked interval (restart since s) s' := by
  have hat := h.stage
  unfold AtStage at hat
  unfold System.step at hstep
  split at hstep
  · rename_i opener hstage
    rw [hstage] at hat
    obtain ⟨rfl, hlong, hacquired, hrefused, hclosed⟩ := hat
    cases hstep
    rw [show restart since s = since by rw [restart, hstage]]
    exact h.proceed rfl (fun _ => trivial)
      ⟨rfl, hlong, congrArg (· + 1) hacquired, hrefused, hclosed⟩
  · exact h.work ‹_› hstep
  · rename_i store cause hstage
    rw [hstage] at hat
    cases hstep
    refine h.winds (by rw [IsOver, hstage]; trivial) ⟨?_, rfl⟩
    cases store <;> exact hat
  · rename_i failed hstage
    rw [hstage] at hat
    have hover : s.IsOver := by rw [IsOver, hstage]; trivial
    split at hstep
    · rename_i request inbox _
      cases hstep
      refine h.winds hover ⟨?_, pacing_enqueue ..⟩
      unfold AtStage
      rw [hstage]
      show Done (s.keeper.enqueue request).pacing.releaseCount failed s.world
      rw [pacing_enqueue]
      exact hat
    · cases hstep
      exact h.winds hover ⟨hat, rfl⟩
  · rename_i failed hstage
    rw [hstage] at hat
    cases hstep
    exact h.winds (by rw [IsOver, hstage]; trivial) ⟨⟨_, rfl, hat⟩, rfl⟩
  · rename_i hstage
    rw [hstage] at hat
    cases hstep
    exact h.winds (by rw [IsOver, hstage]; trivial) ⟨hat, rfl⟩
  · cases hstep

/-! ### Whole runs -/

/-- What others do leaves the lock alone, and time only goes on. -/
theorem Clocked.others (h : Clocked interval since s) (hkeeper : s'.keeper = s.keeper)
    (hstage : s'.stage = s.stage) (hledger : s'.world.ledger = s.world.ledger)
    (hclock : s.clock ≤ s'.clock)
    (hsummary : ∀ m, s.status.summary = some m → ∃ m', s'.status.summary = some m' ∧
      m'.lockReleaseCount = m.lockReleaseCount ∧ m'.failed = m.failed) :
    Clocked interval since s' := by
  refine ⟨hkeeper ▸ h.pacing, fun hs => ?_, hkeeper ▸ h.deadline, ?_⟩
  · have hun := h.unserved hs
    unfold IsUnserved at hun ⊢
    rwa [hstage]
  have hat := h.stage
  have hledger' := hledger
  simp only [Probe.ledger, Prod.mk.injEq] at hledger'
  obtain ⟨hacquired, hlong, hrefused, hclosed, hheld⟩ := hledger'
  have hdone : ∀ {n failed}, Done n failed s.world → Done n failed s'.world := fun h =>
    ⟨hlong.trans h.released, hacquired.trans h.acquired, hrefused.trans h.refused,
      hclosed.trans h.closed, fun hf => hheld.trans (h.free hf)⟩
  have hholds : ∀ {n store}, Holds n store s.world → Holds n store s'.world := fun h =>
    h.quiet (⟨rfl, hledger⟩ : Quiet (_, s.world) (_, s'.world))
  unfold AtStage at hat ⊢
  rw [hstage]
  cases hs : s.stage with
  | opening opener =>
    rw [hs] at hat
    exact ⟨hat.1, hlong.trans hat.2.1, hacquired.trans hat.2.2.1, hrefused.trans hat.2.2.2.1,
      hclosed.trans hat.2.2.2.2⟩
  | working store task =>
    rw [hs] at hat
    show AtTask s' store task
    unfold AtTask at hat ⊢
    rw [hkeeper]
    cases task with
    | releasing =>
      obtain ⟨⟨hreads, hwrites, hstop, deadline, hdeadline, hdue⟩, releases, hcount, h⟩ := hat
      exact ⟨⟨hkeeper ▸ hreads, hkeeper ▸ hwrites, hkeeper ▸ hstop, deadline, hkeeper ▸ hdeadline,
        Nat.le_trans hdue hclock⟩, releases, hcount, hholds h⟩
    | released | reacquiring _ =>
      exact ⟨hat.unlocked, hlong.trans hat.released, hacquired.trans hat.acquired,
        hrefused.trans hat.refused, hclosed.trans hat.unclosed⟩
    | _ => exact hholds hat
  | failing store cause =>
    rw [hs] at hat
    exact hkeeper ▸ hdone hat
  | draining failed | finishing failed =>
    rw [hs] at hat
    exact hkeeper ▸ hdone hat
  | parting | ended =>
    rw [hs] at hat
    obtain ⟨m, hm, hat⟩ := hat
    obtain ⟨m', hm', hcount, hfailed⟩ := hsummary m hm
    exact ⟨m', hm', hcount ▸ hfailed ▸ hdone hat⟩

theorem Timed.clocked {start : System MemoryStore Probe} (hstart : Clocked interval none start)
    (hrun : Timed start since s) : Clocked interval since s := by
  induction hrun with
  | start => exact hstart
  | step _ hstep ih => exact ih.step hstep
  | send _ hsend ih =>
    obtain ⟨inbox, -, rfl⟩ := Option.map_eq_some_iff.mp hsend
    exact ih.others rfl rfl rfl (Nat.le_refl _) fun m hm => ⟨m, hm, rfl, rfl⟩
  | tick nanos _ ih =>
    exact ih.others rfl rfl rfl (Nat.le_add_right ..) fun m hm => ⟨m, hm, rfl, rfl⟩
  | disconnect _ ih => exact ih.others rfl rfl rfl (Nat.le_refl _) fun m hm => ⟨m, hm, rfl, rfl⟩
  | failOnKey key _ ih =>
    exact ih.others rfl rfl rfl (Nat.le_refl _) fun m hm => ⟨m, hm, rfl, rfl⟩
  | note status startedAt blocked _ hsummary ih =>
    refine ih.others rfl rfl rfl (Nat.le_refl _) fun m hm => ?_
    rw [hm] at hsummary
    rcases hsummary with hsummary | hsummary
    · exact ⟨m, hsummary, rfl, rfl⟩
    · exact ⟨_, hsummary, rfl, rfl⟩

/-- No long operation is begun. -/
def Spares {α : Type} (call : StoreCall MemoryStore Probe α) : Prop :=
  Leads (fun st st' => st'.2.longOperations = st.2.longOperations) call

theorem spares_touch : Spares MemoryStore.touch :=
  fun _ => rfl

theorem Spares.bind {α β : Type} {x : StoreCall MemoryStore Probe α}
    {f : α → StoreCall MemoryStore Probe β} (hx : Spares x) (hf : ∀ a, Spares (f a)) :
    Spares (x >>= f) :=
  Leads.bind (fun h h' => Eq.trans h' h) hx hf

theorem spares_begin (key : String) : Spares (MemoryStore.begin key) := by
  refine spares_touch.bind fun _ st => ?_
  obtain ⟨⟨locked, caches⟩, w⟩ := st
  cases locked with
  | false => rfl
  | true =>
    show (endState ((if w.failOnKey = some key then _ else pure () :
      MemoryStore.Call Unit) _)).2.longOperations = w.longOperations
    split <;> rfl

theorem spares_enter : Spares MemoryStore.enter := by
  refine spares_touch.bind fun _ st => ?_
  obtain ⟨⟨locked, caches⟩, w⟩ := st
  cases locked <;> rfl

theorem spares_openCache (file : Path) : Spares (MemoryStore.openCache file) := by
  intro st
  rw [MemoryStore.openCache_eq]
  split <;> rfl

theorem spares_attempt {α : Type} {call : StoreCall MemoryStore Probe α}
    {next : α → MemoryStore → System MemoryStore Probe → System MemoryStore Probe}
    (hcall : Spares call) (hnext : ∀ v store s, (next v store s).world = s.world) :
    (s.attempt none store task call next).world.longOperations = s.world.longOperations := by
  have hst := hcall (store, s.world)
  refine attempt_rule (P := fun s' : System MemoryStore Probe =>
    s'.world.longOperations = s.world.longOperations) nofun nofun
    (fun e st' _ hr => ?_) fun v st' _ hr => ?_
  · rw [hr] at hst
    unfold breakOff
    split <;> exact hst
  · rw [hr] at hst
    rw [hnext]
    exact hst

theorem spares_withCache {cache : CacheIdentity} {next : CacheId → System MemoryStore Probe}
    (hnext : ∀ c, (next c).world.longOperations = s.world.longOperations) :
    (s.withCache none store task cache next).world.longOperations = s.world.longOperations :=
  withCache_rule (P := fun s' : System MemoryStore Probe =>
    s'.world.longOperations = s.world.longOperations)
    (fun c _ => hnext c) fun _ => spares_attempt (spares_openCache _) fun _ _ _ => rfl

theorem world_resume {waited : Duration} {lockReleased : Bool}
    {received : Option (Option Request)} :
    (s.resume store waited lockReleased received).world = s.world :=
  resume_rule (P := fun s' => s'.world = s.world) (fun _ => rfl) fun _ _ => rfl

theorem spares_work (htask : task ≠ .releasing) (hwork : s.work none store task = some s') :
    s'.world.longOperations = s.world.longOperations := by
  cases task with
  | releasing => exact absurd rfl htask
  | entering => cases hwork; exact spares_attempt spares_enter fun _ _ _ => rfl
  | collecting =>
    cases hwork
    unfold collect
    split <;> rfl
  | choosing =>
    cases hwork
    unfold choose
    split
    · rfl
    · rfl
    · split
      · rfl
      · split <;> rfl
  | answering place read =>
    cases hwork
    unfold answer
    split
    · rfl
    · exact spares_withCache fun c => spares_attempt
        ((spares_begin read.key).bind fun _ _ => rfl) fun _ _ _ => rfl
  | applying write =>
    cases hwork
    refine spares_withCache fun c => spares_attempt ?_ fun _ _ _ => rfl
    cases write.change <;> exact (spares_begin write.key).bind fun _ _ => rfl
  | waiting idle =>
    unfold System.work wait at hwork
    simp only at hwork
    split at hwork
    · cases hwork; exact congrArg Probe.longOperations world_resume
    · cases hwork; exact congrArg Probe.longOperations world_resume
    · split at hwork
      · split at hwork <;> cases hwork
        exact congrArg Probe.longOperations world_resume
      · cases hwork
  | released =>
    unfold System.work waitReleased at hwork
    simp only at hwork
    split at hwork <;> cases hwork <;> rfl
  | reacquiring outcome =>
    cases hwork
    refine spares_attempt (fun _ => rfl) fun _ _ _ => ?_
    cases outcome with
    | error e => rfl
    | ok received => exact world_resume
  | leaving failure =>
    cases hwork
    refine spares_attempt (fun _ => rfl) fun _ _ _ => ?_
    cases failure <;> rfl
  | closing => cases hwork; exact spares_attempt (fun _ => rfl) fun _ _ _ => rfl

theorem stage_of_longOperations (hat : s.AtStage) (hstep : s.step none = some s')
    (hlong : s'.world.longOperations ≠ s.world.longOperations) :
    ∃ store, s.stage = .working store .releasing := by
  unfold AtStage at hat
  unfold System.step at hstep
  split at hstep
  · rename_i opener hstage
    rw [hstage] at hat
    obtain ⟨rfl, -⟩ := hat
    cases hstep
    exact absurd rfl hlong
  · rename_i store task hstage
    by_cases htask : task = .releasing
    · exact ⟨store, htask ▸ hstage⟩
    · exact absurd (spares_work htask hstep) hlong
  · rename_i store cause hstage
    cases hstep
    cases store <;> exact absurd rfl hlong
  · split at hstep <;> cases hstep <;> exact absurd rfl hlong
  · cases hstep; exact absurd rfl hlong
  · cases hstep; exact absurd rfl hlong
  · cases hstep

theorem refused_of_atStage (hat : s.AtStage) : s.world.unlockedAccesses = 0 := by
  unfold AtStage at hat
  split at hat
  · exact hat.2.2.2.1
  · rename_i store task _
    cases task with
    | releasing =>
      obtain ⟨-, releases, -, hholds⟩ := hat
      exact hholds.refused
    | _ => exact hat.refused
  · exact hat.refused
  · exact hat.refused
  · exact hat.refused
  · obtain ⟨m, -, hdone⟩ := hat
    exact hdone.refused
  · obtain ⟨m, -, hdone⟩ := hat
    exact hdone.refused

/-- The keeper gives its lock up only when there is nothing to do and the time for which it keeps the
lock is over; nothing is asked of the store without the lock; and in the end the counts agree, and the
store is closed and its lock free unless the run has failed. -/
theorem Timed.gives_up_idle {lookup : Bool} {made clock : Instant} {inbox : Inbox}
    {status : Status} {key : Option String}
    (hrun : Timed (.start (.new interval lookup made) (.of MemoryStore.opener)
      { failOnKey := key } inbox status clock) since s) :
    (∀ s', s.step none = some s' → s'.world.longOperations ≠ s.world.longOperations →
      s.keeper.reads = [] ∧ s.keeper.writes = [] ∧ s.keeper.stopRequested = false ∧
        ∃ t deadline, since = some t ∧ t.after? interval = some deadline ∧ deadline ≤ s.clock) ∧
    s.world.unlockedAccesses = 0 ∧
    (s.stage = .ended → ∃ m, s.status.summary = some m ∧
      m.lockReleaseCount = s.world.longOperations ∧
      s.world.lockAcquisitions = s.world.longOperations + 1 ∧
      (m.failed = false → s.world.closed = true ∧ s.world.lockHeld = false) ∧
      (m.failed = true → s.world.closed = false)) := by
  have hstart : Clocked interval none (.start (.new interval lookup made) (.of MemoryStore.opener)
      { failOnKey := key } inbox status clock) :=
    ⟨rfl, fun _ => trivial, nofun, rfl, rfl, rfl, rfl, rfl⟩
  have h := hrun.clocked hstart
  have hat := h.stage
  refine ⟨fun s' hstep hlong => ?_, refused_of_atStage hat, fun hended => ?_⟩
  · obtain ⟨store, hstage⟩ := stage_of_longOperations hat hstep hlong
    unfold AtStage at hat
    rw [hstage] at hat
    obtain ⟨⟨hreads, hwrites, hstop, deadline, hdeadline, hdue⟩, -⟩ := hat
    refine ⟨hreads, hwrites, hstop, ?_⟩
    cases since with
    | none =>
      have hunserved := h.unserved rfl
      unfold IsUnserved at hunserved
      rw [hstage] at hunserved
      exact hunserved.elim
    | some t => exact ⟨t, deadline, rfl, (h.deadline t rfl).symm.trans hdeadline, hdue⟩
  · unfold AtStage at hat
    rw [hended] at hat
    obtain ⟨m, hm, hdone⟩ := hat
    refine ⟨m, hm, hdone.released.symm, by rw [hdone.acquired, hdone.released], fun hf => ?_,
      fun hf => ?_⟩
    · exact ⟨by rw [hdone.closed, hf]; rfl, hdone.free hf⟩
    · rw [hdone.closed, hf]; rfl

theorem Timed.proceed {start : System MemoryStore Probe} (hrun : Timed start since s) (n : Nat) :
    ∃ since', Timed start since' (s.proceed n) := by
  induction n generalizing since s with
  | zero => exact ⟨since, hrun⟩
  | succ n ih =>
    unfold System.proceed
    split
    · exact ih (hrun.step ‹_›)
    · exact ⟨since, hrun⟩

theorem Timed.sent {start : System MemoryStore Probe} (hrun : Timed start since s)
    (hreceives : s.inbox.hasReceiver = true) (request : Request) : Timed start since
      { s with inbox := { s.inbox with queue := s.inbox.queue ++ [request] } } := by
  have hsend : s.send request =
      some { s with inbox := { s.inbox with queue := s.inbox.queue ++ [request] } } := by
    rw [System.send, Inbox.send, if_pos hreceives]
    rfl
  exact hrun.send hsend

/-- A keeper that gives the lock up at once when it is idle, and is woken by a put and by the last
sender's leaving. -/
theorem Timed.gives_up_idle_of_put :
    ∃ (since : Option Instant) (s : System MemoryStore Probe) (m : Summary),
      Timed (.start (.new .zero true ⟨0⟩) (.of MemoryStore.opener) {} .empty {} ⟨0⟩) since s ∧
        s.world.longOperations = 2 ∧ s.status.summary = some m ∧ m.lockReleaseCount = 2 ∧
        s.world.lockAcquisitions = 3 ∧ s.world.unlockedAccesses = 0 := by
  let start : System MemoryStore Probe :=
    .start (.new .zero true ⟨0⟩) (.of MemoryStore.opener) {} .empty {} ⟨0⟩
  let request : Request := .write ⟨⟨"tasks", "str", "utf8"⟩, "1", .put []⟩
  let idle := start.proceed 5
  let woken := { idle with inbox := { idle.inbox with queue := idle.inbox.queue ++ [request] } }
  obtain ⟨s, hs⟩ : ∃ s, s = (woken.proceed 9).disconnect.proceed 12 := ⟨_, rfl⟩
  have hreceives : idle.inbox.hasReceiver = true := by decide +kernel
  have hlong : s.world.longOperations = 2 := by rw [hs]; decide +kernel
  have hover : s.hasEnded = true := by rw [hs]; decide +kernel
  obtain ⟨since, hrun⟩ : ∃ since, Timed start since s := by
    obtain ⟨_, hidle⟩ := (Timed.start : Timed start none start).proceed 5
    obtain ⟨_, hagain⟩ := (hidle.sent hreceives request).proceed 9
    rw [hs]
    exact hagain.disconnect.proceed 12
  obtain ⟨-, hrefused, hend⟩ := hrun.gives_up_idle
  obtain ⟨m, hm, hcount, hacquired, -, -⟩ := hend (stage_of_hasEnded hover)
  exact ⟨since, s, m, hrun, hlong, hm, hcount.trans hlong, by rw [hacquired, hlong], hrefused⟩

end System
end HistoryKeeper
