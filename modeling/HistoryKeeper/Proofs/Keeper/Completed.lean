import HistoryKeeper.Proofs.Keeper.Attended
import HistoryKeeper.Proofs.Keeper.Outcomes

/-!
# Calls come to their end

A call that is the only one (`Service.Alone`) waits only for a keeper that has something to do, whatever the
keeper is at (`Service.Run.turns`): a read has been sent and has no answer, or a stop is on its way
(`System.Stopping`). So to see it through is to see it return (`Service.Run.completes`).
-/

namespace HistoryKeeper

namespace Call

/-- The call has the thread of the keeper in hand. -/
def HasThread : Call → Prop
  | .requestingStop | .sendingStop | .joining | .finishing => True
  | _ => False

/-- The call waits for the keeper or for another call, or it has returned. -/
def Pauses : Call → Prop
  | .awaiting _ _ | .registering | .claiming | .joining | .returned _ => True
  | _ => False

end Call

namespace System

variable {S W : Type}

/-- A stop is on its way to the keeper, or the keeper knows of it or does not need it any more. -/
def Stopping (s : System S W) : Prop :=
  .stop ∈ s.inbox.queue ∨ .stop ∈ s.stage.received ∨ s.keeper.stopRequested = true ∨ s.Departed

variable [Store S W] {around : Surroundings S W} {start s s' : System S W} {sent : List Request}
  {interference : Option Interference}

theorem stopRequested_step (h : s.step interference = some s') (hstop : s.keeper.stopRequested = true) :
    s'.keeper.stopRequested = true := by
  have henqueue : ∀ {k : Keeper} (request : Request), k.stopRequested = true →
      (k.enqueue request).stopRequested = true := by
    intro k request hk
    cases request with
    | stop => rfl
    | _ => exact hk
  cases moves_of_step h with
  | took | drained => exact henqueue _ hstop
  | sawEnd => rfl
  | awoke _ hawakes =>
    cases hawakes with
    | request => exact henqueue (k := { s.keeper with tally := _ }) _ hstop
    | disconnected => rfl
    | deadline => exact hstop
    | @reacquired received =>
      cases received with
      | none => rfl
      | some request => exact henqueue (k := { s.keeper with pacing := _, tally := _ }) _ hstop
  | overflowed _ hawakes => cases hawakes <;> exact hstop
  | _ => exact hstop

theorem Stopping.step (hstopping : s.Stopping) (h : s.step interference = some s') : s'.Stopping := by
  have hknown : s.keeper.stopRequested = true → s'.Stopping := fun hstop =>
    .inr (.inr (.inl (stopRequested_step h hstop)))
  have hreceived : ∀ {request : Request} {inbox : Inbox}, s.inbox.receive = .request request inbox →
      .stop ∈ s.inbox.queue → request = .stop ∨ .stop ∈ inbox.queue := by
    intro request inbox hreceive hmem
    rw [(Inbox.queue_of_receive hreceive).1, List.mem_cons] at hmem
    exact hmem.imp_left Eq.symm
  have hgone : s'.Departed → s'.Stopping := fun h => .inr (.inr (.inr h))
  rcases hstopping with hqueue | hhand | hstop | hdeparted
  · cases moves_of_step h with
    | took _ hreceive | drained _ hreceive =>
      rcases hreceived hreceive hqueue with rfl | hmem
      · exact .inr (.inr (.inl rfl))
      · exact .inl hmem
    | tookReleased _ _ hreceive =>
      rcases hreceived hreceive hqueue with rfl | hmem
      · exact .inr (.inl (List.mem_singleton_self _))
      · exact .inl hmem
    | awoke _ hawakes =>
      cases hawakes with
      | request hreceive =>
        rcases hreceived hreceive hqueue with rfl | hmem
        · exact .inr (.inr (.inl rfl))
        · exact .inl hmem
      | _ => exact .inl hqueue
    | overflowed | parted => exact hgone trivial
    | _ => exact .inl hqueue
  · cases moves_of_step h with
    | broken | failed | crashed | overflowed => exact hgone trivial
    | awoke hstage hawakes =>
      rw [hstage] at hhand
      cases hawakes with
      | @reacquired received =>
        cases received with
        | none => cases hhand
        | some request =>
          obtain rfl := List.mem_singleton.mp hhand
          exact .inr (.inr (.inl rfl))
      | _ => cases hhand
    | @openedCache _ task _ _ _ _ hstage _ hcache =>
      rw [hstage] at hhand
      cases task with
      | answering | applying => cases hhand
      | _ => cases hcache
    | reacquiredBroken => exact hgone trivial
    | _ hstage =>
      rw [hstage] at hhand
      cases hhand
  · exact hknown hstop
  · exact hgone (hdeparted.step h).1

omit [Store S W] in
theorem Stopping.congr (h : s.Stopping) (hstage : s'.stage = s.stage) (hkeeper : s'.keeper = s.keeper)
    (hqueue : s.inbox.queue ⊆ s'.inbox.queue) : s'.Stopping := by
  unfold Stopping Departed at h ⊢
  rw [hstage, hkeeper]
  exact h.imp_left fun h => hqueue h

theorem Run.stopping (hrun : Run around start sent s) (hsent : .stop ∈ sent) : s.Stopping := by
  induction hrun with
  | start => cases hsent
  | step _ _ hstep ih => exact (ih hsent).step hstep
  | send _ hsend ih =>
    obtain ⟨inbox, hinbox, rfl⟩ := Option.map_eq_some_iff.mp hsend
    unfold Inbox.send at hinbox
    split at hinbox
    · cases hinbox
      rcases List.mem_append.mp hsent with hold | hnew
      · exact (ih hold).congr rfl rfl (List.subset_append_left ..)
      · exact .inl (List.mem_append_right _ hnew)
    · cases hinbox
  | tick _ _ ih | disconnect _ ih | change _ _ _ ih | note _ _ _ ih =>
    exact (ih hsent).congr rfl rfl (List.Subset.refl _)

omit [Store S W] in
theorem Stopping.not_rests (h : s.Stopping) (hidles : s.Idles) : ¬ s.Rests := by
  rintro ⟨hqueue, -, hwaits⟩
  obtain ⟨store, task, hstage, hidle, hreceived, hstays⟩ : ∃ store task, s.stage = .working store task ∧
      task.IsIdle ∧ task.received = [] ∧ ¬ s.Departed := by
    unfold Departed
    split at hwaits
    · exact ⟨_, .waiting _, ‹_›, trivial, rfl, by rw [‹s.stage = _›]; exact id⟩
    · exact ⟨_, .released, ‹_›, trivial, rfl, by rw [‹s.stage = _›]; exact id⟩
    · exact hwaits.elim
  rcases h with hmem | hhand | hstop | hdeparted
  · rw [hqueue] at hmem
    cases hmem
  · rw [hstage, Stage.received, hreceived] at hhand
    cases hhand
  · rw [(hidles.empty hstage hidle).2.2] at hstop
    cases hstop
  · exact hstays hdeparted
end System

namespace Service

variable {S W : Type}

section
variable {s s' : Service S W} {i j : CallId}

theorem lt_of_callStep (h : s.callStep i = some s') : i < s.calls.length := by
  obtain ⟨call, -, hcall, -⟩ := calls_callStep h
  exact (List.getElem?_eq_some_iff.mp hcall).1

/-- A stop that holds the place of the thread has not returned. -/
theorem Run.hasThread [Store S W] {around : System.Surroundings S W} {first : Service S W}
    {sent : List Request} (hfirst : first.holder = none) (hrun : Run around first sent s)
    (hholder : s.holder = some i) :
    ∃ call, s.calls[i]? = some call ∧ call.HasThread := by
  induction hrun with
  | first =>
    rw [hfirst] at hholder
    cases hholder
  | @call _ s s' j _ hstep ih =>
    have hkeeps : ∀ {call call' : Call}, s.calls[j]? = some call → s'.calls = s.calls.set j call' →
        s'.holder = s.holder → (call.HasThread → call'.HasThread) →
        ∃ call, s'.calls[i]? = some call ∧ call.HasThread := by
      intro call call' hcall hcalls hsame hthread
      obtain ⟨held, hheld, hhas⟩ := ih (hsame ▸ hholder)
      rw [hcalls]
      by_cases hij : j = i
      · subst hij
        obtain ⟨hj, -⟩ := List.getElem?_eq_some_iff.mp hcall
        rw [hcall] at hheld
        cases hheld
        exact ⟨call', List.getElem?_set_self hj, hthread hhas⟩
      · exact ⟨held, (List.getElem?_set_ne hij).trans hheld, hhas⟩
    cases acts_of_callStep hstep with
    | claimed hcall =>
      cases hholder
      obtain ⟨hj, -⟩ := List.getElem?_eq_some_iff.mp hcall
      exact ⟨_, List.getElem?_set_self hj, trivial⟩
    | stopped | abandoned => cases hholder
    | requestedStop hcall | sentStop hcall | unsentStop hcall | joined hcall =>
      exact hkeeps hcall rfl rfl fun _ => trivial
    | accepted hcall | stops hcall | sent hcall | refused hcall | unencoded hcall | unsent hcall
    | sentRead hcall | got hcall | tooLate hcall | launches hcall | spawned hcall | registered hcall
    | started hcall | tooEarly hcall | reported hcall | unreported hcall =>
      exact hkeeps hcall rfl rfl False.elim
  | keeper _ _ hstep ih =>
    obtain ⟨-, system, -, rfl⟩ := keeperStep_eq_some hstep
    exact ih hholder
  | tick _ _ ih | change _ _ _ ih => exact ih hholder

theorem pauses_of_callStep {call : Call} (hcall : s.calls[i]? = some call) (h : s.callStep i = none) :
    call.Pauses := by
  unfold callStep at h
  rw [hcall] at h
  cases call with
  | asking request =>
    simp only at h
    split at h <;> cases h
  | starting | stopping =>
    simp only at h
    split at h <;> cases h
  | sending | spawning | marking | requestingStop | sendingStop | finishing => cases h
  | awaiting | registering | claiming | joining | returned => trivial

/-- The call is the only one that is being made. -/
def Alone (s : Service S W) (i : CallId) : Prop :=
  i < s.calls.length ∧ ∀ j call, j ≠ i → s.calls[j]? = some call → ∃ result, call = .returned result

theorem Alone.callStep (h : s.Alone i) (hstep : s.callStep i = some s') : s'.Alone i := by
  obtain ⟨call, call', hcall, hcalls, -⟩ := calls_callStep hstep
  refine ⟨?_, fun j other hij hother => ?_⟩
  · rw [hcalls, List.length_set]
    exact h.1
  · rw [hcalls, List.getElem?_set_ne (Ne.symm hij)] at hother
    exact h.2 j other hij hother

theorem sum_toil_of_alone (h : s.Alone i) {call : Call} (hcall : s.calls[i]? = some call) :
    (s.calls.map Call.toil).sum = call.toil := by
  have hsum := sum_set (l := s.calls.map Call.toil) (i := i) (by rw [List.getElem?_map, hcall]; rfl) 0
  have hzero : ((s.calls.map Call.toil).set i 0).sum = 0 := by
    refine List.sum_eq_zero_iff_forall_eq_nat.mpr fun x hx => ?_
    obtain ⟨j, hj⟩ := List.mem_iff_getElem?.mp hx
    by_cases hij : i = j
    · subst hij
      rw [List.getElem?_set_self (by simpa using h.1)] at hj
      exact (Option.some_inj.mp hj).symm
    · rw [List.getElem?_set_ne hij, List.getElem?_map] at hj
      obtain ⟨other, hother, rfl⟩ := Option.map_eq_some_iff.mp hj
      obtain ⟨result, rfl⟩ := h.2 j other (Ne.symm hij) hother
      rfl
  omega

theorem toil_le_effort_of_alone (h : s.Alone i) : s.toil ≤ s.effort + 16 :=
  toil_le_effort_of_sum (Call.toil_le _) (sum_toil_of_alone h (List.getElem?_eq_getElem h.1))

end
section
variable [Store S W] {around : System.Surroundings S W} {interval : Duration} {lookup : Bool}
  {now clock : Instant} {opener : Opener S W} {world : W} {calls : List Call} {sent : List Request}
  {s : Service S W} {i : CallId}

/-- A stop that waits for the keeper's end has been sent, if there was still someone to receive it. -/
theorem Run.sent_of_joining {first : Service S W} (hopen : first.system.inbox.hasReceiver = true)
    (hnew : ∀ call ∈ first.calls, call ≠ .joining) (hrun : Run around first sent s)
    (hcall : s.calls[i]? = some .joining) : .stop ∈ sent ∨ s.system.stage = .ended := by
  induction hrun with
  | first => exact absurd rfl (hnew _ (List.mem_of_getElem? hcall))
  | @call _ s s' j hrun hstep ih =>
    have hstage : s'.system.stage = s.system.stage := by
      rcases system_callStep hstep with ⟨-, status, startedAt, hsystem⟩ | ⟨request, -, hsend⟩
      · rw [hsystem]
      · obtain ⟨inbox, -, hsystem⟩ := Option.map_eq_some_iff.mp hsend
        rw [← hsystem]
    have hi := lt_of_callStep hstep
    by_cases hji : j = i
    · subst hji
      cases acts_of_callStep hstep with
      | sentStop hj hsend =>
        rw [sends_stop hj hsend]
        exact .inl (List.mem_append_right _ (List.mem_singleton_self _))
      | unsentStop _ hsend =>
        exact .inr (hrun.system.ended_of_closed hopen (hasReceiver_of_send hsend))
      | _ =>
        have hnow := hcall.symm.trans (List.getElem?_set_self hi)
        cases hnow
    · obtain ⟨call, call', -, hcalls, -⟩ := calls_callStep hstep
      rw [hcalls, List.getElem?_set_ne hji] at hcall
      exact (ih hcall).imp (List.mem_append_left _) hstage.trans
  | keeper _ _ hstep ih =>
    obtain ⟨-, system, hsystem, rfl⟩ := keeperStep_eq_some hstep
    refine (ih hcall).imp_right fun hended => ?_
    rw [System.step_of_ended hended] at hsystem
    cases hsystem
  | tick _ _ ih | change _ _ _ ih => exact ih hcall

/-- A call that waits alone does so for a keeper that has something to do. -/
theorem Run.turns (hfresh : Fresh calls)
    (hrun : Run around (.facing (.start (.new interval lookup now) opener world .empty {} clock) calls)
      sent s) (halone : s.Alone i) (hstep : s.callStep i = none)
    (hwaits : ∀ result, s.calls[i]? ≠ some (.returned result)) :
    ∃ s', s.keeperTurn = some s' ∧ s'.toil < s.toil := by
  obtain ⟨htracked, hstaffed⟩ := hrun.tracked hfresh
  obtain ⟨phase, -, hat⟩ := hrun.reaches (at_facing hfresh.new)
  obtain ⟨call, hcall⟩ : ∃ call, s.calls[i]? = some call := ⟨_, List.getElem?_eq_getElem halone.1⟩
  have hfree : ¬ call.HasThread → s.holder = none := by
    intro hnot
    by_contra hne
    obtain ⟨j, hholder⟩ := Option.ne_none_iff_exists'.mp hne
    obtain ⟨held, hheld, hthread⟩ := hrun.hasThread rfl hholder
    by_cases hji : j = i
    · subst hji
      rw [hcall] at hheld
      cases hheld
      exact hnot hthread
    · obtain ⟨result, rfl⟩ := halone.2 j held hji hheld
      exact hthread
  have hturn : s.running = true → ¬ s.system.Rests → s.system.stage ≠ .ended →
      ∃ s', s.keeperTurn = some s' ∧ s'.toil < s.toil := by
    intro hrunning hrests hended
    obtain ⟨system, hsystem⟩ := System.exists_step hrests hended
    have hkeeper : s.keeperStep none = some { s with system } := by
      rw [keeperStep, if_pos hrunning, hsystem]
      rfl
    have htoil := toil_keeperStep htracked.idles hrests hkeeper
    exact ⟨{ s with system := system.tick 1 }, by rw [keeperTurn, hkeeper]; rfl, htoil⟩
  cases call with
  | awaiting token since =>
    have ht := htracked.awaited (List.mem_of_getElem? hcall)
    have hnone : s.system.outcome? token = none := by
      unfold callStep at hstep
      rw [hcall] at hstep
      simp only at hstep
      split at hstep
      · assumption
      · cases hstep
    have hnot : ¬ (s.system.Rests ∨ s.system.stage = .ended) := by
      intro hover
      have hdealt := htracked.dealt ht hover
      by_cases hanswered : token ∈ s.system.tokensAt .answered
      · obtain ⟨⟨t, value⟩, hmem, rfl⟩ := List.mem_map.mp hanswered
        exact System.outcome?_ne_none_of_answered hmem hnone
      · rw [System.outcome?_of_dropped hanswered (hdealt.resolve_left hanswered)] at hnone
        cases hnone
    obtain ⟨hrests, hended⟩ := not_or.mp hnot
    refine hturn (hstaffed.sent fun hnil => ?_) hrests hended
    rw [hnil] at ht
    cases ht
  | registering =>
    unfold callStep at hstep
    rw [hcall] at hstep
    simp [hfree id] at hstep
  | claiming =>
    unfold callStep at hstep
    rw [hcall] at hstep
    simp [hfree id] at hstep
  | joining =>
    obtain ⟨-, -, -, starter, rfl⟩ := hat.permits hcall
    have hstarted : s.system.status.started = true := hat.shows.started
    have hended : s.system.stage ≠ .ended := by
      intro hended
      unfold callStep System.hasEnded at hstep
      rw [hcall, hended] at hstep
      cases hstep
    have hsent := (hrun.sent_of_joining rfl (fun call hmem hjoins => by
      subst hjoins
      exact hfresh.new _ hmem) hcall).resolve_right hended
    exact hturn (hstaffed.started hstarted) ((hrun.system.stopping hsent).not_rests htracked.idles) hended
  | returned result => exact absurd hcall (hwaits result)
  | _ => exact (pauses_of_callStep hcall hstep).elim

/-- Seeing a call through is part of the run, and while the call is alone it comes to its end. -/
theorem Run.completes (hquiet : ∀ s, around.steps s none) (hfresh : Fresh calls)
    (hrun : Run around (.facing (.start (.new interval lookup now) opener world .empty {} clock) calls)
      sent s) (halone : s.Alone i) {n : Nat} (hn : s.toil ≤ n) :
    ∃ later result, Run around s later (s.completeWithin n i) ∧
      (s.completeWithin n i).result? i = some result := by
  induction n generalizing s sent with
  | zero =>
    obtain ⟨call, hcall⟩ : ∃ call, s.calls[i]? = some call := ⟨_, List.getElem?_eq_getElem halone.1⟩
    have hsum := sum_toil_of_alone halone hcall
    have hzero : call.toil = 0 := by
      unfold toil at hn
      omega
    cases call with
    | returned result => exact ⟨[], result, .first, result?_eq_some_iff.mpr hcall⟩
    | _ => cases hzero
  | succ n ih =>
    cases hstep : s.callStep i with
    | some s' =>
      have hcalled : Run around s (s.sends i) s' := Run.first.call i hstep
      obtain ⟨later, result, hrun', hresult⟩ := ih (hrun.trans hcalled) (halone.callStep hstep)
        (Nat.le_of_lt_succ (Nat.lt_of_lt_of_le (toil_callStep hstep) hn))
      rw [completeWithin_call hstep]
      exact ⟨_, result, hcalled.trans hrun', hresult⟩
    | none =>
      obtain ⟨call, hcall⟩ : ∃ call, s.calls[i]? = some call := ⟨_, List.getElem?_eq_getElem halone.1⟩
      by_cases hreturned : ∃ result, call = .returned result
      · obtain ⟨result, rfl⟩ := hreturned
        rw [completeWithin_returned hcall]
        exact ⟨[], result, .first, result?_eq_some_iff.mpr hcall⟩
      · have hwaits : ∀ result, call ≠ .returned result := fun result h => hreturned ⟨result, h⟩
        obtain ⟨s', hturn, htoil⟩ := hrun.turns hfresh halone hstep fun result h =>
          hwaits result (Option.some_inj.mp (hcall.symm.trans h))
        rw [completeWithin_turn hcall hwaits hstep hturn]
        obtain ⟨service, hkeeper, rfl⟩ := keeperTurn_eq_some hturn
        have hturned : Run around s [] { service with system := service.system.tick 1 } :=
          (Run.first.keeper (hquiet _) hkeeper).tick 1
        obtain ⟨-, system, -, rfl⟩ := keeperStep_eq_some hkeeper
        obtain ⟨later, result, hrun', hresult⟩ := ih (hrun.trans hturned) halone
          (Nat.le_of_lt_succ (Nat.lt_of_lt_of_le htoil hn))
        exact ⟨_, result, hturned.trans hrun', hresult⟩

end

end Service

end HistoryKeeper
