import HistoryKeeper.Proofs.Keeper.Moves

/-!
# Runs of a keeper

`System.Run` is everything that can happen to a keeper's system from a start on: steps of the keeper,
requests that are sent, time, senders that go away, what others do in the world, and what callers
note in the status, in any order.
-/

namespace HistoryKeeper.System

variable {S W : Type}

/-- What may happen around a keeper. -/
structure Surroundings (S W : Type) where
  /-- The steps that the keeper may take. -/
  steps : System S W → Option Interference → Prop
  /-- What others may do in the world. -/
  others : W → W → Prop

/-- A run, with the requests that were sent in it, the oldest first. -/
inductive Run [Store S W] (around : Surroundings S W) (start : System S W) :
    List Request → System S W → Prop
  | start : Run around start [] start
  | step {sent s s' interference} : Run around start sent s → around.steps s interference →
      s.step interference = some s' → Run around start sent s'
  | send {sent s s' request} : Run around start sent s → s.send request = some s' →
      Run around start (sent ++ [request]) s'
  | tick {sent s} (nanos : Nat) : Run around start sent s → Run around start sent (s.tick nanos)
  | disconnect {sent s} : Run around start sent s → Run around start sent s.disconnect
  | change {sent s} (world : W) : Run around start sent s → around.others s.world world →
      Run around start sent { s with world }
  /-- Callers leave their marks. -/
  | note {sent s} (status : Status) (startedAt : Instant) : Run around start sent s →
      Run around start sent { s with status, startedAt }

theorem Run.trans [Store S W] {around : Surroundings S W} {start s s' : System S W}
    {sent later : List Request} (h : Run around start sent s) (h' : Run around s later s') :
    Run around start (sent ++ later) s' := by
  induction h' with
  | start =>
    rw [List.append_nil]
    exact h
  | step _ hsteps hstep ih => exact ih.step hsteps hstep
  | send _ hsend ih =>
    rw [← List.append_assoc]
    exact ih.send hsend
  | tick nanos _ ih => exact ih.tick nanos
  | disconnect _ ih => exact ih.disconnect
  | change world _ hchange ih => exact ih.change world hchange
  | note status startedAt _ ih => exact ih.note status startedAt

/-- The keeper takes its steps undisturbed, for as long as it has some. -/
def proceed [Store S W] : Nat → System S W → System S W
  | 0, s => s
  | n + 1, s =>
    match s.step none with
    | some s' => proceed n s'
    | none => s

theorem Run.proceed [Store S W] {around : Surroundings S W} {start s : System S W}
    {sent : List Request} (h : Run around start sent s) (n : Nat)
    (hsteps : ∀ m < n, around.steps (s.proceed m) none) : Run around start sent (s.proceed n) := by
  induction n generalizing s with
  | zero => exact h
  | succ n ih =>
    have hfirst := hsteps 0 (Nat.zero_lt_succ n)
    unfold System.proceed
    split
    · rename_i s' hstep
      refine ih (h.step hfirst hstep) fun m hm => ?_
      have hlater := hsteps (m + 1) (Nat.succ_lt_succ hm)
      unfold System.proceed at hlater
      rw [hstep] at hlater
      exact hlater
    · exact h

theorem Run.sendAll [Store S W] {around : Surroundings S W} {start s : System S W}
    {sent : List Request} (h : Run around start sent s) (hreceives : s.inbox.hasReceiver = true)
    (requests : List Request) : Run around start (sent ++ requests)
      { s with inbox := { s.inbox with queue := s.inbox.queue ++ requests } } := by
  induction requests generalizing sent s with
  | nil =>
    rw [List.append_nil, List.append_nil]
    exact h
  | cons request requests ih =>
    have hsend : s.send request =
        some { s with inbox := { s.inbox with queue := s.inbox.queue ++ [request] } } := by
      rw [System.send, Inbox.send, if_pos hreceives]
      rfl
    have hrest := ih (h.send hsend) hreceives
    rw [List.append_assoc, List.append_assoc] at hrest
    exact hrest

variable {s s' : System S W} {interference : Option Interference}

/-- What only callers have to say, where answers are looked for, and the time. -/
def constants (s : System S W) : Bool × Bool × Bool × Instant :=
  (s.status.started, s.status.stopRequested, s.keeper.pendingLookup, s.clock)

theorem lookup_enqueue (k : Keeper) (request : Request) :
    (k.enqueue request).pendingLookup = k.pendingLookup := by
  cases request <;> rfl

theorem lookup_hear (k : Keeper) (received : Option (Option Request)) :
    (k.hear received).pendingLookup = k.pendingLookup := by
  rcases received with _ | _ | request
  · rfl
  · rfl
  · exact lookup_enqueue k request

theorem tally_enqueue (k : Keeper) (request : Request) : (k.enqueue request).tally = k.tally := by
  cases request <;> rfl

theorem tally_hear (k : Keeper) (received : Option (Option Request)) :
    (k.hear received).tally = k.tally := by
  rcases received with _ | _ | request
  · rfl
  · rfl
  · exact tally_enqueue k request

theorem served_of_recordIdle {t tally : Tally} {waited : Duration} {lockReleased : Bool}
    (h : t.recordIdle waited lockReleased = some tally) :
    tally.readsServed = t.readsServed ∧ tally.writesApplied = t.writesApplied := by
  simp only [Tally.recordIdle, Option.bind_eq_bind, Option.bind_eq_some_iff, Option.pure_def] at h
  obtain ⟨idle, -, h⟩ := h
  split at h
  · simp only [Option.bind_eq_some_iff, Option.some.injEq] at h
    obtain ⟨released, -, rfl⟩ := h
    exact ⟨rfl, rfl⟩
  · cases h
    exact ⟨rfl, rfl⟩

theorem pacing_enqueue (k : Keeper) (request : Request) : (k.enqueue request).pacing = k.pacing := by
  cases request <;> rfl

theorem pacing_hear (k : Keeper) (received : Option (Option Request)) :
    (k.hear received).pacing = k.pacing := by
  rcases received with _ | _ | request
  · rfl
  · rfl
  · exact pacing_enqueue k request

theorem constants_step [Store S W] (h : s.step interference = some s') :
    s'.constants = s.constants := by
  have hlookup : ∀ {k : Keeper}, k.pendingLookup = s.keeper.pendingLookup →
      (s.status.started, s.status.stopRequested, k.pendingLookup, s.clock) = s.constants :=
    congrArg (s.status.started, s.status.stopRequested, ·, s.clock)
  cases moves_of_step h with
  | took | drained => exact hlookup (lookup_enqueue ..)
  | awoke _ hawakes => cases hawakes <;> exact hlookup (lookup_hear ..)
  | overflowed _ hawakes => cases hawakes <;> rfl
  | _ => rfl

theorem Run.pendingLookup [Store S W] {around : Surroundings S W} {start : System S W}
    {sent : List Request} (h : Run around start sent s) :
    s.keeper.pendingLookup = start.keeper.pendingLookup := by
  induction h with
  | start => rfl
  | step _ _ hstep ih => exact (congrArg (·.2.2.1) (constants_step hstep)).trans ih
  | send _ hsend ih =>
    obtain ⟨inbox, -, rfl⟩ := Option.map_eq_some_iff.mp hsend
    exact ih
  | tick _ _ ih => exact ih
  | disconnect _ ih => exact ih
  | change _ _ _ ih => exact ih
  | note _ _ _ ih => exact ih

/-- The run is over, but for what has to be told and let go. -/
def IsOver (s : System S W) : Prop :=
  match s.stage with
  | .opening _ | .working _ _ => False
  | _ => True

theorem stage_of_hasEnded (h : s.hasEnded = true) : s.stage = .ended := by
  unfold hasEnded at h
  split at h
  · assumption
  · cases h

/-- A run that is over comes to its end: nothing more is served, and all that the world sees is that
the store goes away. -/
structure Winds [Store S W] (s s' : System S W) : Prop where
  isOver : s'.IsOver
  log : s.log <+: s'.log
  tally : s'.keeper.tally = s.keeper.tally
  lookup : s'.keeper.pendingLookup = s.keeper.pendingLookup
  answers : s'.answers = s.answers
  world : s'.world = s.world ∨ ∃ store : S, s'.world = (Store.abandon (store, s.world)).2

theorem winds_of_step [Store S W] (hover : s.IsOver) (h : s.step interference = some s') :
    s.Winds s' := by
  unfold IsOver at hover
  cases moves_of_step h with
  | @letGo store cause _ =>
    refine ⟨trivial, List.prefix_append .., rfl, rfl, rfl, ?_⟩
    cases store with
    | none => exact Or.inl rfl
    | some store => exact Or.inr ⟨store, rfl⟩
  | @drained failed request inbox hstage =>
    have hover' : ({ s with keeper := s.keeper.enqueue request, inbox } : System S W).IsOver := by
      unfold IsOver
      rw [hstage]
      trivial
    cases request <;> exact ⟨hover', List.prefix_rfl, rfl, rfl, rfl, Or.inl rfl⟩
  | drainedAll | finished | parted =>
    exact ⟨trivial, List.prefix_rfl, rfl, rfl, rfl, Or.inl rfl⟩
  -- at every other stage the run is not over
  | _ hstage => rw [hstage] at hover; exact hover.elim

end HistoryKeeper.System
