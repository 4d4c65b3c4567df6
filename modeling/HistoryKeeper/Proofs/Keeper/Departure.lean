import HistoryKeeper.Proofs.Keeper.Run

/-!
# The last look into the inbox

A keeper that has seen a stop leaves once it finds its inbox empty with nothing left to do. From this
last look on it has `Departed`, and what is sent is not applied any more (`Run.applied_of_departed`).

`System.Fails` is the other way out of the loop.
-/

namespace HistoryKeeper.System

variable {S W : Type}

/-- The keeper does not look into its inbox any more, but to count. -/
def Departed (s : System S W) : Prop :=
  match s.stage with
  | .opening _ => False
  | .working _ task =>
    match task with
    | .choosing => s.keeper.reads = [] ∧ s.keeper.writes = [] ∧ s.keeper.stopRequested = true
    | .leaving _ | .closing => True
    | _ => False
  | _ => True

/-- The run has failed, or is on its way to. -/
def Fails (s : System S W) : Prop :=
  s.log ≠ [] ∨
    match s.stage with
    | .working _ (.leaving (some _)) | .failing _ _ => True
    | _ => False

variable [Store S W] {around : Surroundings S W} {start s s' : System S W}
  {sent later : List Request} {interference : Option Interference}

theorem log_step (h : s.step interference = some s') : s.log <+: s'.log := by
  cases moves_of_step h with
  | letGo => exact List.prefix_append ..
  | awoke _ hawakes => cases hawakes <;> exact List.prefix_rfl
  | overflowed _ hawakes => cases hawakes <;> exact List.prefix_rfl
  | _ => exact List.prefix_rfl

theorem Fails.step (hfails : s.Fails) (h : s.step interference = some s') : s'.Fails := by
  rcases hfails with hlog | hstage
  · exact Or.inl fun hnil => hlog (List.prefix_nil.mp (hnil ▸ log_step h))
  · have hcases : (∃ store e, s.stage = .working store (.leaving (some e))) ∨
        ∃ store cause, s.stage = .failing store cause := by
      split at hstage
      · exact Or.inl ⟨_, _, ‹_›⟩
      · exact Or.inr ⟨_, _, ‹_›⟩
      · exact hstage.elim
    cases moves_of_step h with
    | broken | failed | crashed | unopened | overflowed | leftFailed => exact Or.inr trivial
    | letGo => exact Or.inl (by simp)
    | openedCache hworking _ hcache =>
      rcases hcases with ⟨_, _, hleaving⟩ | ⟨_, _, hfailing⟩
      · rw [hworking] at hleaving
        cases hleaving
        cases hcache
      · rw [hworking] at hfailing
        cases hfailing
    | awoke hworking hawakes =>
      rcases hcases with ⟨_, _, hleaving⟩ | ⟨_, _, hfailing⟩
      · rw [hworking] at hleaving
        cases hleaving
        cases hawakes
      · rw [hworking] at hfailing
        cases hfailing
    | _ hother =>
      rcases hcases with ⟨_, _, hleaving⟩ | ⟨_, _, hfailing⟩
      · rw [hother] at hleaving
        cases hleaving
      · rw [hother] at hfailing
        cases hfailing

theorem Departed.step (hdeparted : s.Departed) (h : s.step interference = some s') :
    s'.Departed ∧ s'.keeper.tally.writesApplied = s.keeper.tally.writesApplied ∧
      (s.keeper.stopRequested = true → s'.keeper.stopRequested = true) := by
  unfold Departed at hdeparted
  cases moves_of_step h with
  | letGo | drainedAll | finished | parted => exact ⟨trivial, rfl, id⟩
  | @drained failed request inbox hstage =>
    have hdeparted' : ({ s with keeper := s.keeper.enqueue request, inbox } : System S W).Departed := by
      unfold Departed
      rw [hstage]
      trivial
    cases request with
    | stop => exact ⟨hdeparted', rfl, fun _ => rfl⟩
    | _ => exact ⟨hdeparted', rfl, id⟩
  | broken | failed | crashed | unopened | leftFailed | left | closed => exact ⟨trivial, rfl, id⟩
  | exited => exact ⟨trivial, rfl, id⟩
  | overflowed hworking hawakes => cases hawakes <;> exact ⟨trivial, rfl, id⟩
  | pickedRead hstage hreads =>
    rw [hstage] at hdeparted
    rw [hdeparted.1] at hreads
    cases hreads
  | pickedWrite hstage _ hwrites =>
    rw [hstage] at hdeparted
    rw [hdeparted.2.1] at hwrites
    cases hwrites
  | releases hstage _ _ hstop | rests hstage _ _ hstop =>
    rw [hstage] at hdeparted
    rw [hdeparted.2.2] at hstop
    cases hstop
  | @openedCache _ task _ _ _ _ hstage _ hcache =>
    rw [hstage] at hdeparted
    cases task with
    | answering _ _ | applying _ => exact hdeparted.elim
    | _ => cases hcache
  | awoke hstage hawakes =>
    rw [hstage] at hdeparted
    cases hawakes <;> exact hdeparted.elim
  | _ hstage =>
    rw [hstage] at hdeparted
    exact hdeparted.elim

theorem stopRequested_enqueue {k : Keeper} {request : Request}
    (h : (k.enqueue request).stopRequested = true) : k.stopRequested = true ∨ request = .stop := by
  cases request with
  | stop => exact Or.inr rfl
  | _ => exact Or.inl h

theorem inbox_step (h : s.step interference = some s') :
    s'.inbox.queue <:+ s.inbox.queue ∧ s'.inbox.hasSenders = s.inbox.hasSenders := by
  have hreceived : ∀ {request : Request} {inbox : Inbox}, s.inbox.receive = .request request inbox →
      inbox.queue <:+ s.inbox.queue ∧ inbox.hasSenders = s.inbox.hasSenders := by
    intro request inbox hreceive
    obtain ⟨hqueue, hsenders, -⟩ := Inbox.queue_of_receive hreceive
    rw [hqueue]
    exact ⟨List.suffix_cons .., hsenders⟩
  cases moves_of_step h with
  | took _ hreceive | drained _ hreceive | tookReleased _ _ hreceive => exact hreceived hreceive
  | awoke _ hawakes | overflowed _ hawakes =>
    cases hawakes with
    | request hreceive => exact hreceived hreceive
    | _ => exact ⟨List.suffix_rfl, rfl⟩
  | parted => exact ⟨List.nil_suffix, rfl⟩
  | _ => exact ⟨List.suffix_rfl, rfl⟩

/-- A keeper that has seen a stop was sent one, if there is someone who can send. -/
structure Heard (sent : List Request) (s : System S W) : Prop where
  inbox : ∀ request ∈ s.inbox.queue, request ∈ sent
  held : ∀ {store received}, s.stage = .working store (.reacquiring (.ok received)) →
    received.getD .stop ∈ sent ∨ s.inbox.hasSenders = false
  stop : s.keeper.stopRequested = true → .stop ∈ sent ∨ s.inbox.hasSenders = false

omit [Store S W] in
theorem heard_start {keeper : Keeper} {opener : Opener S W} {world : W} {status : Status}
    {clock : Instant} (hstop : keeper.stopRequested = false) :
    (System.start keeper opener world .empty status clock).Heard [] := by
  refine ⟨nofun, nofun, fun h => ?_⟩
  rw [show keeper.stopRequested = true from h] at hstop
  cases hstop

theorem Heard.step (h : s.Heard sent) (hstep : s.step interference = some s') : s'.Heard sent := by
  obtain ⟨hinbox, hsenders⟩ := inbox_step hstep
  have hreceived : ∀ {request : Request} {inbox : Inbox}, s.inbox.receive = .request request inbox →
      request ∈ sent := by
    intro request inbox hreceive
    refine h.inbox request ?_
    rw [(Inbox.queue_of_receive hreceive).1]
    exact List.mem_cons_self
  have henqueue : ∀ {k : Keeper} {request : Request}, k.stopRequested = s.keeper.stopRequested →
      (request ∈ sent ∨ s.inbox.hasSenders = false) → (k.enqueue request).stopRequested = true →
        .stop ∈ sent ∨ s.inbox.hasSenders = false := by
    intro k request hk hsent hstop
    rcases stopRequested_enqueue hstop with hold | rfl
    · exact h.stop (hk ▸ hold)
    · exact hsent
  refine ⟨fun request hmem => h.inbox request (hinbox.subset hmem), fun hheld => ?_, fun hstop => ?_⟩
  · rw [hsenders]
    cases moves_of_step hstep with
    | tookReleased _ _ hreceive =>
      cases hheld
      exact Or.inl (hreceived hreceive)
    | sawEndReleased _ _ hreceive => exact Or.inr (Inbox.hasSenders_of_disconnected hreceive)
    | openedCache _ _ hcache =>
      cases hheld
      cases hcache
    | drained hstage =>
      rw [show s.stage = _ from hheld] at hstage
      cases hstage
    | _ => cases hheld
  · rw [hsenders]
    cases moves_of_step hstep with
    | took _ hreceive | drained _ hreceive => exact henqueue rfl (Or.inl (hreceived hreceive)) hstop
    | sawEnd _ hreceive => exact Or.inr (Inbox.hasSenders_of_disconnected hreceive)
    | @awoke _ _ _ _ _ _ _ tally hstage hawakes =>
      cases hawakes with
      | request hreceive =>
        exact henqueue (k := { s.keeper with tally }) rfl (Or.inl (hreceived hreceive)) hstop
      | disconnected hreceive => exact Or.inr (Inbox.hasSenders_of_disconnected hreceive)
      | deadline => exact h.stop hstop
      | @reacquired received =>
        have hheld := h.held hstage
        cases received with
        | some request =>
          let pacing := (s.keeper.pacing.reacquire s.clock).2
          exact henqueue (k := { s.keeper with pacing, tally }) rfl hheld hstop
        | none => exact hheld
    | overflowed _ hawakes => cases hawakes <;> exact h.stop hstop
    | _ => exact h.stop hstop

variable {opener : Opener S W}

omit [Store S W] in
theorem Heard.congr {sent' : List Request} (h : s.Heard sent) (hsent : sent ⊆ sent')
    (hstage : s'.stage = s.stage) (hkeeper : s'.keeper = s.keeper)
    (hinbox : ∀ request ∈ s'.inbox.queue, request ∈ sent')
    (hsenders : s.inbox.hasSenders = false → s'.inbox.hasSenders = false) : s'.Heard sent' := by
  refine ⟨hinbox, fun hheld => ?_, fun hstop => ?_⟩
  · exact (h.held (hstage ▸ hheld)).imp (fun hmem => hsent hmem) hsenders
  · exact (h.stop (hkeeper ▸ hstop)).imp (fun hmem => hsent hmem) hsenders

theorem Run.heard (hrun : Run around start sent s) (hstart : start.Heard []) : s.Heard sent := by
  induction hrun with
  | start => exact hstart
  | step _ _ hstep ih => exact ih.step hstep
  | @send sent s _ request _ hsend ih =>
    obtain ⟨inbox, hinbox, rfl⟩ := Option.map_eq_some_iff.mp hsend
    unfold Inbox.send at hinbox
    split at hinbox
    · cases hinbox
      refine ih.congr (List.subset_append_left ..) rfl rfl (fun r hr => ?_) id
      rcases List.mem_append.mp hr with hold | hnew
      · exact List.mem_append_left _ (ih.inbox r hold)
      · exact List.mem_append_right _ hnew
    · cases hinbox
  | tick _ _ ih | change _ _ _ ih | note _ _ _ ih =>
    exact ih.congr (List.Subset.refl _) rfl rfl ih.inbox id
  | disconnect _ ih => exact ih.congr (List.Subset.refl _) rfl rfl ih.inbox fun _ => rfl

theorem Run.applied_of_departed (hafter : Run around s later s') (hdeparted : s.Departed) :
    s'.Departed ∧ s'.keeper.tally.writesApplied = s.keeper.tally.writesApplied := by
  induction hafter with
  | start => exact ⟨hdeparted, rfl⟩
  | step _ _ hstep ih =>
    obtain ⟨hstill, hcount, -⟩ := ih.1.step hstep
    exact ⟨hstill, hcount.trans ih.2⟩
  | send _ hsend ih =>
    obtain ⟨inbox, -, rfl⟩ := Option.map_eq_some_iff.mp hsend
    exact ih
  | tick _ _ ih | disconnect _ ih | change _ _ _ ih | note _ _ _ ih => exact ih

theorem Run.fails (hrun : Run around s later s') (h : s.Fails) : s'.Fails := by
  induction hrun with
  | start => exact h
  | step _ _ hstep ih => exact ih.step hstep
  | send _ hsend ih =>
    obtain ⟨inbox, -, rfl⟩ := Option.map_eq_some_iff.mp hsend
    exact ih
  | tick _ _ ih | disconnect _ ih | change _ _ _ ih | note _ _ _ ih => exact ih

end HistoryKeeper.System
