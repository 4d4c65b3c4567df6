import HistoryKeeper.Proofs.Keeper.Conserved

/-!
# What a keeper does to its store

`System.Applied` is a run that notes the writes which the store has taken. Whatever the store is, these are the
first writes that were sent, in their order, as many as the tally counts (`Applied.eq_take`). A keeper that
departs has applied all that was sent until then (`Run.applied_of_not_departed`).
-/

namespace HistoryKeeper.System

variable {S W : Type}

/-- The writes that were received and that the store has not taken: the one in hand, those in the queue, and one
that was received in idle time. -/
def pending (s : System S W) : List PendingWrite :=
  Request.writes s.stage.serving ++ s.keeper.writes.map (·.2) ++ Request.writes s.stage.received

theorem writes_enqueue (k : Keeper) (request : Request) :
    (k.enqueue request).writes.map (·.2) = k.writes.map (·.2) ++ Request.writes [request] := by
  cases request <;> simp [Keeper.enqueue, Keeper.requestStop, Request.writes]

theorem writes_hear (k : Keeper) (received : Option (Option Request)) :
    (k.hear received).writes.map (·.2) =
      k.writes.map (·.2) ++ Request.writes received.join.toList := by
  rcases received with _ | _ | request
  · exact (List.append_nil _).symm
  · exact (List.append_nil _).symm
  · exact writes_enqueue k request

/-- The write that the next step applies: it is in hand, and the store takes it. -/
def applies [Store S W] (s : System S W) (interference : Option Interference) : List PendingWrite :=
  match s.stage, interference with
  | .working store (.applying write), none =>
    match s.keeper.caches.get? write.cache.name with
    | some c =>
      match write.change.call c write.key (store, s.world) with
      | .ok _ _ => [write]
      | .error _ _ => []
    | none => []
  | _, _ => []

/-- A run that notes the writes which are applied in it. -/
inductive Applied [Store S W] (around : Surroundings S W) (start : System S W) :
    List Request → List PendingWrite → System S W → Prop
  | start : Applied around start [] [] start
  | step {sent ws s s' interference} : Applied around start sent ws s → around.steps s interference →
      s.step interference = some s' → Applied around start sent (ws ++ s.applies interference) s'
  | send {sent ws s s' request} : Applied around start sent ws s → s.send request = some s' →
      Applied around start (sent ++ [request]) ws s'
  | tick {sent ws s} (nanos : Nat) : Applied around start sent ws s →
      Applied around start sent ws (s.tick nanos)
  | disconnect {sent ws s} : Applied around start sent ws s →
      Applied around start sent ws s.disconnect
  | change {sent ws s} (world : W) : Applied around start sent ws s → around.others s.world world →
      Applied around start sent ws { s with world }
  | note {sent ws s} (status : Status) (startedAt : Instant) : Applied around start sent ws s →
      Applied around start sent ws { s with status, startedAt }

section
variable [Store S W] {around : Surroundings S W} {start s s' : System S W} {sent later : List Request}
  {ws : List PendingWrite} {interference : Option Interference}

theorem Applied.run (h : Applied around start sent ws s) : Run around start sent s := by
  induction h with
  | start => exact .start
  | step _ hsteps hstep ih => exact ih.step hsteps hstep
  | send _ hsend ih => exact ih.send hsend
  | tick nanos _ ih => exact ih.tick nanos
  | disconnect _ ih => exact ih.disconnect
  | change world _ hchange ih => exact ih.change world hchange
  | note status startedAt _ ih => exact ih.note status startedAt

theorem Run.applied (h : Run around start sent s) : ∃ ws, Applied around start sent ws s := by
  induction h with
  | start => exact ⟨[], .start⟩
  | step _ hsteps hstep ih => exact ih.imp' _ fun _ h => h.step hsteps hstep
  | send _ hsend ih => exact ih.imp fun _ h => h.send hsend
  | tick nanos _ ih => exact ih.imp fun _ h => h.tick nanos
  | disconnect _ ih => exact ih.imp fun _ h => h.disconnect
  | change world _ hchange ih => exact ih.imp fun _ h => h.change world hchange
  | note status startedAt _ ih => exact ih.imp fun _ h => h.note status startedAt

theorem applies_of_stage {stage : Stage S W} (hstage : s.stage = stage)
    (hserving : Request.writes stage.serving = []) : s.applies interference = [] := by
  subst hstage
  unfold applies
  split
  · rename_i hstage
    rw [hstage] at hserving
    cases hserving
  · rfl

theorem applies_of_closed {store : S} {write : PendingWrite} (hstage : s.stage = .working store (.applying write))
    (hclosed : s.keeper.caches.get? write.cache.name = none) : s.applies interference = [] := by
  unfold applies
  rw [hstage]
  cases interference with
  | none => simp only [hclosed]
  | some _ => rfl

theorem applies_of_error {store : S} {write : PendingWrite} {c : CacheId} {e : StoreError} {st : S × W}
    (hstage : s.stage = .working store (.applying write)) (hc : s.keeper.caches.get? write.cache.name = some c)
    (hcall : write.change.call c write.key (store, s.world) = .error e st) : s.applies interference = [] := by
  unfold applies
  rw [hstage]
  cases interference with
  | none => simp only [hc, hcall]
  | some _ => rfl

theorem applies_of_ok {store : S} {write : PendingWrite} {c : CacheId} {st : S × W}
    (hstage : s.stage = .working store (.applying write)) (hc : s.keeper.caches.get? write.cache.name = some c)
    (hcall : write.change.call c write.key (store, s.world) = .ok () st) : s.applies none = [write] := by
  unfold applies
  rw [hstage]
  simp only [hc, hcall]

theorem applies_some (s : System S W) (interference : Interference) : s.applies (some interference) = [] := by
  unfold applies
  cases s.stage with
  | working store task => cases task <;> rfl
  | _ => rfl

/-- A step that applies a write is the store's call for it, and goes on with what that call has left. -/
theorem step_of_applies {write : PendingWrite} (hmem : write ∈ s.applies interference)
    (h : s.step interference = some s') : ∃ store c store',
      s.stage = .working store (.applying write) ∧ interference = none ∧
        s.keeper.caches.get? write.cache.name = some c ∧
        write.change.call c write.key (store, s.world) = .ok () (store', s'.world) ∧
        s'.stage = .working store' .collecting ∧ s'.keeper.caches = s.keeper.caches ∧ s'.log = s.log := by
  unfold applies at hmem
  split at hmem
  · rename_i store write' hstage
    split at hmem
    · rename_i c hcache
      split at hmem
      · rename_i u st hcall
        obtain rfl := List.mem_singleton.mp hmem
        have happly : s' = s.apply none store write := by
          unfold System.step at h
          rw [hstage] at h
          exact (Option.some_inj.mp h).symm
        rw [apply_eq, withCache_of_get? hcache, attempt_of_ok rfl hcall] at happly
        subst happly
        exact ⟨store, c, st.1, hstage, rfl, hcache, hcall, rfl, rfl, rfl⟩
      · cases hmem
    · cases hmem
  · cases hmem

/-- A step moves writes on: they are received, and then, unless the run fails, the store takes them. -/
theorem pending_step (hfails : ¬ s'.Fails) (hparting : s.stage ≠ .parting)
    (h : s.step interference = some s') {received : List Request}
    (hreceived : s.inbox.queue = received ++ s'.inbox.queue) :
    s.pending ++ Request.writes received = s.applies interference ++ s'.pending ∧
      s'.keeper.tally.writesApplied =
        s.keeper.tally.writesApplied + (s.applies interference).length := by
  have hquiet : ∀ {stage : Stage S W}, s.stage = stage → Request.writes stage.serving = [] →
      s.pending ++ Request.writes received = s'.pending →
      s'.keeper.tally.writesApplied = s.keeper.tally.writesApplied →
      s.pending ++ Request.writes received = s.applies interference ++ s'.pending ∧
        s'.keeper.tally.writesApplied =
          s.keeper.tally.writesApplied + (s.applies interference).length := by
    intro stage hstage hserving hpending hcount
    rw [applies_of_stage hstage hserving]
    exact ⟨hpending, hcount⟩
  cases moves_of_step h with
  | opened hstage | entered hstage | tookAll hstage | sawEnd hstage | exited hstage | releases hstage
  | rests hstage | released hstage | brokenReleased hstage | sawEndReleased hstage | left hstage
  | closed hstage | drainedAll hstage | finished hstage | pickedRead hstage
  | answeredFromWrites hstage | answeredFromStore hstage =>
    obtain rfl := received_eq_nil hreceived rfl
    refine hquiet hstage rfl ?_ rfl
    unfold pending
    rw [hstage]
    exact List.append_nil _
  | took hstage hreceive | drained hstage hreceive =>
    obtain rfl := received_eq_singleton hreceived hreceive
    refine hquiet hstage rfl ?_ (congrArg _ (tally_enqueue ..))
    simp [pending, hstage, Stage.serving, Stage.received, Task.serving, Task.received, go,
      writes_enqueue, Request.writes]
  | tookReleased hstage _ hreceive =>
    obtain rfl := received_eq_singleton hreceived hreceive
    refine hquiet hstage rfl ?_ rfl
    simp [pending, hstage, Stage.serving, Stage.received, Task.serving, Task.received, go,
      Request.writes]
  | pickedWrite hstage _ hwrites =>
    obtain rfl := received_eq_nil hreceived rfl
    refine hquiet hstage rfl ?_ rfl
    simp [pending, hstage, hwrites, Stage.serving, Stage.received, Task.serving, Task.received, go,
      Request.writes]
  | @openedCache _ task cache _ _ _ hstage _ hcache hclosed =>
    obtain rfl := received_eq_nil hreceived rfl
    -- nothing is applied while the cache is opened
    have hnothing : s.applies interference = [] := by
      cases task with
      | applying write =>
        cases hcache
        exact applies_of_closed hstage hclosed
      | _ => exact applies_of_stage hstage rfl
    rw [hnothing]
    refine ⟨?_, rfl⟩
    unfold pending
    rw [hstage]
    exact List.append_nil _
  | @applied _ write _ _ _ hstage hnone hc hcall =>
    obtain rfl := received_eq_nil hreceived rfl
    rw [hnone, applies_of_ok hstage hc hcall]
    refine ⟨?_, rfl⟩
    simp [pending, hstage, Stage.serving, Stage.received, Task.serving, Task.received, go,
      Request.writes]
  | @awoke store task heard _ _ s₁ store₁ tally hstage hawakes htally =>
    obtain ⟨⟨-, hwrites, -⟩, hserving, hheard⟩ := heard_of_awakes hawakes hreceived
    refine hquiet hstage (congrArg Request.writes hserving) ?_ ?_
    · have hwoken := writes_hear { s₁.keeper with tally } heard
      rw [hheard, Request.writes_append, hwrites] at hwoken
      refine Eq.trans ?_ (hwoken.symm.trans (List.append_nil _).symm)
      rw [pending, hstage, Stage.serving, hserving, Stage.received, ← List.append_assoc]
      rfl
    · exact (congrArg _ (tally_hear ..)).trans (served_of_recordIdle htally).2
  | parted hstage => exact absurd hstage hparting
  | letGo => exact absurd (Or.inl (by simp)) hfails
  | _ => exact absurd (Or.inr trivial) hfails

/-! ### Runs -/

/-- Where the writes are that were sent. In the end the keeper lets go of those that the store does not have. -/
structure Ledger (sent : List Request) (ws : List PendingWrite) (s : System S W) : Prop where
  count : s.keeper.tally.writesApplied = ws.length
  applied : ws <+: Request.writes sent
  taken : s.stage = .ended ∨
    ∃ taken, sent = taken ++ s.inbox.queue ∧ Request.writes taken = ws ++ s.pending

omit [Store S W] in
theorem Ledger.congr (h : Ledger sent ws s) (hstage : s'.stage = s.stage) (hkeeper : s'.keeper = s.keeper)
    (hinbox : s'.inbox.queue = s.inbox.queue ++ later) : Ledger (sent ++ later) ws s' := by
  refine ⟨hkeeper ▸ h.count, ?_, h.taken.imp hstage.trans fun ⟨taken, hsent, hwrites⟩ => ⟨taken, ?_, ?_⟩⟩
  · rw [Request.writes_append]
    exact h.applied.trans (List.prefix_append ..)
  · rw [hinbox, hsent, List.append_assoc]
  · rw [hwrites, pending, pending, hstage, hkeeper]

theorem Ledger.step (hfails : ¬ s'.Fails) (h : Ledger sent ws s)
    (hstep : s.step interference = some s') : Ledger sent (ws ++ s.applies interference) s' := by
  rcases h.taken with hended | ⟨taken, hsent, hwrites⟩
  · rw [step_of_ended hended] at hstep
    cases hstep
  by_cases hparting : s.stage = .parting
  · -- the keeper lets go of everything, and applies nothing
    rw [applies_of_stage hparting rfl, List.append_nil]
    unfold System.step at hstep
    rw [hparting] at hstep
    cases hstep
    exact ⟨h.count, h.applied, .inl rfl⟩
  · obtain ⟨received, hreceived⟩ := (inbox_step hstep).1
    obtain ⟨hpending, hcount⟩ := pending_step hfails hparting hstep hreceived.symm
    have htaken : Request.writes (taken ++ received) = ws ++ s.applies interference ++ s'.pending := by
      rw [Request.writes_append, hwrites, List.append_assoc, hpending, List.append_assoc]
    refine ⟨?_, ?_, .inr ⟨taken ++ received, ?_, htaken⟩⟩
    · rw [hcount, h.count, List.length_append]
    · rw [hsent, ← hreceived, ← List.append_assoc, Request.writes_append, htaken, List.append_assoc]
      exact List.prefix_append ..
    · rw [hsent, ← hreceived, List.append_assoc]

/-- The store has what it was given, as long as the run does not fail. -/
theorem Applied.ledger (hstart : Ledger [] [] start) (h : Applied around start sent ws s)
    (hfails : ¬ s.Fails) : Ledger sent ws s := by
  induction h with
  | start => exact hstart
  | step _ _ hstep ih => exact (ih fun h => hfails (h.step hstep)).step hfails hstep
  | send _ hsend ih =>
    obtain ⟨inbox, hinbox, rfl⟩ := Option.map_eq_some_iff.mp hsend
    unfold Inbox.send at hinbox
    split at hinbox
    · cases hinbox
      exact (ih hfails).congr rfl rfl rfl
    · cases hinbox
  | tick _ _ ih | disconnect _ ih | change _ _ _ ih | note _ _ _ ih =>
    exact ⟨(ih hfails).count, (ih hfails).applied, (ih hfails).taken⟩

/-- The store is given what was sent, in order, however the run goes. -/
theorem Applied.isPrefix (hstart : Ledger [] [] start) (hlog : start.log ≠ [] → start.IsOver)
    (h : Applied around start sent ws s) : ws <+: Request.writes sent := by
  induction h with
  | start => exact List.prefix_rfl
  | @step sent ws s s' interference hbefore hsteps hstep ih =>
    cases happlies : s.applies interference with
    | nil =>
      rw [List.append_nil]
      exact ih
    | cons write more =>
      -- a step that applies something does not fail
      obtain ⟨store, c, store', hstage, -, -, -, hstage', -, hsame⟩ :=
        step_of_applies (happlies ▸ List.mem_cons_self) hstep
      have hfails : ¬ s'.Fails := by
        rintro (hne | hfails)
        · have hover := hbefore.run.isOver_of_log hlog (hsame ▸ hne)
          unfold IsOver at hover
          rw [hstage] at hover
          exact hover
        · rw [hstage'] at hfails
          exact hfails
      rw [← happlies]
      exact ((hbefore.step hsteps hstep).ledger hstart hfails).applied
  | send _ _ ih =>
    rw [Request.writes_append]
    exact ih.trans (List.prefix_append ..)
  | tick _ _ ih | disconnect _ ih | change _ _ _ ih | note _ _ _ ih => exact ih

omit [Store S W] in
theorem Ledger.eq_take (h : Ledger sent ws s) :
    ws = (Request.writes sent).take s.keeper.tally.writesApplied := by
  rw [h.count]
  exact List.prefix_iff_eq_take.mp h.applied

omit [Store S W] in
theorem ledger_start {keeper : Keeper} {opener : Opener S W} {world : W} {status : Status}
    {clock : Instant} (hcount : keeper.tally.writesApplied = 0) (hwrites : keeper.writes = []) :
    Ledger [] [] (System.start keeper opener world .empty status clock) :=
  ⟨hcount, List.prefix_rfl, .inr ⟨[], rfl, by
    show [] = [] ++ ([] ++ keeper.writes.map (·.2) ++ [])
    rw [hwrites]
    rfl⟩⟩

/-- A keeper that departs has applied all that was sent, unless it fails. -/
theorem departs (hledger : Ledger sent ws s) (hbefore : ¬ s.Departed)
    (h : s.step interference = some s') (hafter : s'.Departed) :
    s'.Fails ∨ s'.keeper.tally.writesApplied = (Request.writes sent).length ∧
      s'.keeper.stopRequested = true := by
  have hlast : ∀ {store : S} {keeper : Keeper}, s.stage = .working store .collecting →
      s.inbox.queue = [] → keeper.writes = [] → keeper.writes = s.keeper.writes →
      keeper.tally = s.keeper.tally →
      keeper.tally.writesApplied = (Request.writes sent).length := by
    intro store keeper hstage hqueue hnone hwrites htally
    obtain ⟨taken, hsent, htaken⟩ := hledger.taken.resolve_left (by rw [hstage]; nofun)
    rw [pending, hstage, ← hwrites, hnone] at htaken
    rw [hqueue, List.append_nil] at hsent
    rw [htally, hledger.count, hsent, htaken]
    exact congrArg List.length (List.append_nil ws).symm
  unfold Departed at hbefore
  cases moves_of_step h with
  | tookAll hstage hreceive =>
    obtain ⟨-, hwrites, hstop⟩ := hafter
    exact Or.inr ⟨hlast hstage (Inbox.queue_of_nothing hreceive) hwrites rfl rfl, hstop⟩
  | sawEnd hstage hreceive =>
    obtain ⟨-, hwrites, hstop⟩ := hafter
    exact Or.inr ⟨hlast hstage (Inbox.queue_of_disconnected hreceive) hwrites rfl rfl, hstop⟩
  | unopened | broken | failed | crashed | overflowed | reacquiredBroken => exact Or.inl (Or.inr trivial)
  | exited hstage hreads hwrites hstop =>
    rw [hstage] at hbefore
    exact absurd ⟨hreads, hwrites, hstop⟩ hbefore
  | left hstage | leftFailed hstage | closed hstage | letGo hstage | drained hstage
  | drainedAll hstage | finished hstage | parted hstage =>
    rw [hstage] at hbefore
    exact absurd trivial hbefore
  | @openedCache _ task _ _ _ _ _ _ hcache =>
    cases task with
    | answering _ _ | applying _ => exact hafter.elim
    | _ => cases hcache
  | _ => exact hafter.elim

/-- What is sent before the keeper departs is applied, unless it fails. -/
theorem Run.applied_of_not_departed (hstart : Ledger [] [] start) (hrun : Run around start sent s)
    (hbefore : ¬ s.Departed) (hafter : Run around s later s') (hdeparted : s'.Departed)
    (hfails : ¬ s'.Fails) :
    (Request.writes sent).length ≤ s'.keeper.tally.writesApplied ∧
      s'.keeper.stopRequested = true := by
  induction hafter with
  | start => exact absurd hdeparted hbefore
  | @step later t t' _ hafter _ hstep ih =>
    have hbefore' : ¬ t.Fails := fun h => hfails (h.step hstep)
    by_cases hearlier : t.Departed
    · have ih := ih hearlier hbefore'
      obtain ⟨-, hcount, hstop⟩ := hearlier.step hstep
      exact ⟨hcount ▸ ih.1, hstop ih.2⟩
    · obtain ⟨ws, happlied⟩ := (hrun.trans hafter).applied
      obtain ⟨hcount, hstop⟩ := (departs (happlied.ledger hstart hbefore') hearlier hstep
        hdeparted).resolve_left hfails
      refine ⟨?_, hstop⟩
      rw [hcount, Request.writes_append, List.length_append]
      exact Nat.le_add_right ..
  | send _ hsend ih =>
    obtain ⟨inbox, -, rfl⟩ := Option.map_eq_some_iff.mp hsend
    exact ih hdeparted hfails
  | tick _ _ ih | disconnect _ ih | change _ _ _ ih | note _ _ _ ih => exact ih hdeparted hfails

theorem Run.stopRequested_of_departed (hstart : Ledger [] [] start) (hbefore : ¬ start.Departed)
    (hrun : Run around start sent s) (hdeparted : s.Departed) (hfails : ¬ s.Fails) :
    s.keeper.stopRequested = true :=
  (Run.applied_of_not_departed hstart .start hbefore hrun hdeparted hfails).2

end

end HistoryKeeper.System
