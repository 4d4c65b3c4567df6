import HistoryKeeper.Proofs.Keeper.Shutdown
import HistoryKeeper.Proofs.Keeper.SingleRun

/-!
# Reads that nobody stops

As long as a keeper has been started and nobody has asked it to stop (`Service.Attended`), it accepts what is
asked of it, and a read returns its answer unless the keeper fails (`Service.Run.reads`).
-/

namespace HistoryKeeper

/-- What the call may still send. -/
def Call.asks : Call → List Request
  | .asking (.ok request) | .sending request => [request]
  | .stopping | .claiming | .requestingStop | .sendingStop => [.stop]
  | _ => []

namespace System

variable {S W : Type} [Store S W] {around : Surroundings S W} {start s s' : System S W} {sent : List Request}
  {interference : Option Interference}

theorem unharmed_step (h : s.step interference = some s') (hfails : ¬ s'.Fails) :
    s'.status.failed = s.status.failed ∧ (¬ s'.Departed →
      s'.status.stopped = s.status.stopped ∧ s'.dropped = s.dropped) := by
  cases moves_of_step h with
  | unopened | broken | failed | crashed | overflowed | leftFailed | reacquiredBroken =>
    exact absurd (.inr trivial) hfails
  | letGo => exact absurd (.inl (by simp)) hfails
  | finished | parted => exact ⟨rfl, fun hnot => absurd trivial hnot⟩
  | awoke _ hawakes => cases hawakes <;> exact ⟨rfl, fun _ => ⟨rfl, rfl⟩⟩
  | _ => exact ⟨rfl, fun _ => ⟨rfl, rfl⟩⟩

theorem answers_step (h : s.step interference = some s') : s.answers <+: s'.answers := by
  cases moves_of_step h with
  | answeredFromWrites | answeredFromStore => exact List.prefix_append ..
  | awoke _ hawakes | overflowed _ hawakes => cases hawakes <;> exact List.prefix_rfl
  | _ => exact List.prefix_rfl

theorem Run.answers_prefix (hrun : Run around start sent s) : start.answers <+: s.answers := by
  induction hrun with
  | start => exact List.prefix_rfl
  | step _ _ hstep ih => exact ih.trans (answers_step hstep)
  | send _ hsend ih =>
    obtain ⟨inbox, -, rfl⟩ := Option.map_eq_some_iff.mp hsend
    exact ih
  | tick _ _ ih | disconnect _ ih | change _ _ _ ih | note _ _ _ ih => exact ih

theorem Run.ended_of_closed (hstart : start.inbox.hasReceiver = true) (hrun : Run around start sent s)
    (hclosed : s.inbox.hasReceiver = false) : s.stage = .ended := by
  induction hrun with
  | start =>
    rw [hstart] at hclosed
    cases hclosed
  | @step _ t t' _ _ _ hstep ih =>
    have hnot : t.inbox.hasReceiver = false → t'.stage = .ended := by
      intro h
      rw [step_of_ended (ih h)] at hstep
      cases hstep
    have hreceived : ∀ {request : Request} {inbox : Inbox}, t.inbox.receive = .request request inbox →
        inbox.hasReceiver = t.inbox.hasReceiver := fun h => (Inbox.queue_of_receive h).2.2
    cases moves_of_step hstep with
    | took _ hreceive | drained _ hreceive | tookReleased _ _ hreceive =>
      exact hnot ((hreceived hreceive).symm.trans hclosed)
    | awoke _ hawakes | overflowed _ hawakes =>
      cases hawakes with
      | request hreceive => exact hnot ((hreceived hreceive).symm.trans hclosed)
      | _ => exact hnot hclosed
    | parted => rfl
    | _ => exact hnot hclosed
  | send _ hsend ih =>
    obtain ⟨inbox, hinbox, rfl⟩ := Option.map_eq_some_iff.mp hsend
    unfold Inbox.send at hinbox
    split at hinbox
    · rename_i hopen
      cases hinbox
      rw [show _ = true from hopen] at hclosed
      cases hclosed
    · cases hinbox
  | tick _ _ ih | change _ _ _ ih | note _ _ _ ih | disconnect _ ih => exact ih hclosed

end System

namespace Service

variable {S W : Type}

section
variable {s s' : Service S W} {i j : CallId}

theorem sends_subset {call : Call} (hcall : s.calls[i]? = some call) : s.sends i ⊆ call.asks := by
  unfold sends
  rw [hcall]
  cases call with
  | sending request | sendingStop =>
    dsimp only
    split
    · exact List.Subset.refl _
    · exact List.nil_subset _
  | _ => exact List.nil_subset _

theorem asks_callStep (h : s.callStep i = some s') : ∃ call call', s.calls[i]? = some call ∧
    s'.calls = s.calls.set i call' ∧ call'.asks ⊆ call.asks ∧
    (s'.system.status.stopRequested = true →
      s.system.status.stopRequested = true ∨ .stop ∈ call.asks) := by
  cases acts_of_callStep h with
  | accepted hcall | stops hcall | claimed hcall | unsentStop hcall | sentStop hcall =>
    exact ⟨_, _, hcall, rfl, by first | exact List.Subset.refl _ | exact List.nil_subset _, .inl⟩
  | requestedStop hcall =>
    exact ⟨_, _, hcall, rfl, List.Subset.refl _, fun _ => .inr (List.mem_singleton_self _)⟩
  | sent hcall | refused hcall | unencoded hcall | unsent hcall | sentRead hcall | got hcall | tooLate hcall
  | launches hcall | spawned hcall | registered hcall | started hcall | tooEarly hcall | reported hcall
  | unreported hcall | joined hcall | stopped hcall | abandoned hcall =>
    exact ⟨_, _, hcall, rfl, List.nil_subset _, .inl⟩

/-- Some call is going to ask for this. -/
def Asked (calls : List Call) (request : Request) : Prop :=
  ∃ call ∈ calls, request ∈ call.asks

theorem Run.asked [Store S W] {around : System.Surroundings S W} {first : Service S W} {sent : List Request}
    (hfirst : first.system.status.stopRequested = false) (hrun : Run around first sent s) :
    (∀ request ∈ sent, Asked first.calls request) ∧
      (s.system.status.stopRequested = true → Asked first.calls .stop) ∧
      ∀ call ∈ s.calls, ∀ request ∈ call.asks, Asked first.calls request := by
  induction hrun with
  | first =>
    refine ⟨nofun, fun h => ?_, fun call hcall request hasks => ⟨call, hcall, hasks⟩⟩
    rw [hfirst] at h
    cases h
  | call i _ hstep ih =>
    obtain ⟨hsent, hstop, hcalls⟩ := ih
    obtain ⟨call, call', hcall, hset, hasks, hstopped⟩ := asks_callStep hstep
    have hmine := hcalls call (List.mem_of_getElem? hcall)
    refine ⟨fun request hmem => ?_, fun h => ?_, fun other hother request hrequest => ?_⟩
    · rcases List.mem_append.mp hmem with hold | hnew
      · exact hsent request hold
      · exact hmine request (sends_subset hcall hnew)
    · exact (hstopped h).elim hstop (hmine .stop)
    · rw [hset] at hother
      rcases List.mem_or_eq_of_mem_set hother with hold | rfl
      · exact hcalls other hold request hrequest
      · exact hmine request (hasks hrequest)
  | keeper _ _ hstep ih =>
    obtain ⟨-, system, hsystem, rfl⟩ := keeperStep_eq_some hstep
    have hsame : system.status.stopRequested = _ := congrArg (·.2.1) (System.constants_step hsystem)
    exact ⟨ih.1, fun h => ih.2.1 (hsame.symm.trans h), ih.2.2⟩
  | tick _ _ ih | change _ _ _ ih => exact ih

end

section
variable [Store S W] {around : System.Surroundings S W} {interval : Duration} {lookup : Bool}
  {now clock : Instant} {opener : Opener S W} {world : W} {calls : List Call} {sent : List Request}
  {s s' : Service S W} {i j : CallId} {read : PendingRead}

/-- As long as the keeper neither fails nor departs, it drops nothing and requests are accepted. -/
theorem Run.unharmed (hnew : ∀ call ∈ calls, call.IsNew)
    (hrun : Run around (.facing (.start (.new interval lookup now) opener world .empty {} clock) calls)
      sent s) (hfails : ¬ s.system.Fails) : s.system.status.failed = false ∧ (¬ s.system.Departed →
      s.system.status.stopped = false ∧ s.system.dropped = []) := by
  induction hrun with
  | first => exact ⟨rfl, fun _ => ⟨rfl, rfl⟩⟩
  | @call _ s s' j hrun hstep ih =>
    cases acts_of_callStep hstep with
    | stopped hcall =>
      obtain ⟨phase, -, hat⟩ := hrun.reaches (at_facing hnew)
      obtain ⟨-, -, -, starter, rfl⟩ := hat.permits hcall
      refine ⟨(ih hfails).1, fun hnot => absurd ?_ hnot⟩
      show s.system.Departed
      unfold System.Departed
      rw [hat.shows.ended rfl]
      trivial
    | abandoned hcall hsummary =>
      obtain ⟨phase, -, hat⟩ := hrun.reaches (at_facing hnew)
      obtain ⟨-, -, -, starter, rfl⟩ := hat.permits hcall
      have hsome := hat.shows.leaves (.inr (hat.shows.ended rfl))
      rw [hsummary] at hsome
      cases hsome
    | _ => exact ih hfails
  | @keeper _ s s' _ hrun _ hstep ih =>
    obtain ⟨-, system, hsystem, rfl⟩ := keeperStep_eq_some hstep
    obtain ⟨hfailed, hunharmed⟩ := ih fun h => hfails (h.step hsystem)
    obtain ⟨hsame, hsames⟩ := System.unharmed_step hsystem hfails
    refine ⟨hsame.trans hfailed, fun hnot => ?_⟩
    obtain ⟨hstopped, hdropped⟩ := hunharmed fun h => hnot (h.step hsystem).1
    exact ⟨(hsames hnot).1.trans hstopped, (hsames hnot).2.trans hdropped⟩
  | tick _ _ ih | change _ _ _ ih => exact ih hfails

/-- How far the call of a read has come on a keeper that nobody asks to stop. -/
inductive Reads (j : CallId) (read : PendingRead) (s : Service S W) : Prop
  | asking : s.calls[j]? = some (.asking (.ok (.read read))) → Reads j read s
  | sending : s.calls[j]? = some (.sending (.read read)) → Reads j read s
  | awaiting {since} : s.calls[j]? = some (.awaiting read.token since) → Reads j read s
  | answered {value} : s.calls[j]? = some (.returned (.ok (.value value))) →
      (read.token, value) ∈ s.system.answers → Reads j read s
  | failed : s.calls[j]? = some (.returned (.error .keeperFailed)) → s.system.Fails → Reads j read s

omit [Store S W] in
theorem Reads.congr (h : Reads j read s) (hcall : s'.calls[j]? = s.calls[j]?)
    (hanswers : s.system.answers ⊆ s'.system.answers) (hfails : s.system.Fails → s'.system.Fails) :
    Reads j read s' := by
  cases h with
  | asking h => exact .asking (hcall.trans h)
  | sending h => exact .sending (hcall.trans h)
  | awaiting h => exact .awaiting (hcall.trans h)
  | answered h hanswer => exact .answered (hcall.trans h) (hanswers hanswer)
  | failed h hf => exact .failed (hcall.trans h) (hfails hf)

/-- The keeper has been started, and nobody has asked it to stop. -/
structure Attended (s : Service S W) : Prop where
  started : s.system.status.started = true
  unstopped : s.system.status.stopRequested = false
  unharmed : ¬ s.system.Fails → s.system.status.failed = false ∧ s.system.status.stopped = false ∧
    s.system.dropped = [] ∧ s.system.inbox.hasReceiver = true

omit [Store S W] in
theorem Attended.disconnectedError (h : s.Attended) :
    s.system.status.disconnectedError = .keeperFailed := by
  rw [Status.disconnectedError, h.unstopped]
  rfl

omit [Store S W] in
theorem Attended.outcome {token : Token} {result : Except CacheError (Option Bytes)} (h : s.Attended)
    (houtcome : s.system.outcome? token = some result) :
    (∃ value, result = .ok value ∧ (token, value) ∈ s.system.answers) ∨
      result = .error .keeperFailed ∧ s.system.Fails := by
  unfold System.outcome? at houtcome
  split at houtcome
  · rename_i answered value hfind
    cases houtcome
    have htoken := List.find?_some hfind
    obtain rfl : answered = token := of_decide_eq_true htoken
    exact .inl ⟨value, rfl, List.mem_of_find?_eq_some hfind⟩
  · split at houtcome
    · rename_i hdropped
      cases houtcome
      refine .inr ⟨by rw [h.disconnectedError], ?_⟩
      by_contra hfails
      obtain ⟨-, -, hnone, -⟩ := h.unharmed hfails
      rw [hnone] at hdropped
      cases hdropped
    · cases houtcome

omit [Store S W] in
theorem Attended.error_of_checkAccepting {e : CacheError} (h : s.Attended)
    (hrefuses : s.system.status.checkAccepting = .error e) : e = .keeperFailed ∧ s.system.Fails := by
  unfold Status.checkAccepting at hrefuses
  rw [h.started, h.unstopped] at hrefuses
  by_cases hfails : s.system.Fails
  · refine ⟨?_, hfails⟩
    simp only [Bool.not_true, Bool.false_eq_true, if_false] at hrefuses
    split at hrefuses <;> cases hrefuses
    rfl
  · obtain ⟨hfailed, hstopped, -⟩ := h.unharmed hfails
    rw [hfailed, hstopped] at hrefuses
    cases hrefuses

omit [Store S W] in
theorem Reads.call (hs : s.Attended) (h : Reads j read s) (hstep : s.callStep i = some s') :
    Reads j read s' := by
  obtain ⟨call, call', hcall, hcalls, -⟩ := calls_callStep hstep
  have hsystem : s'.system.answers = s.system.answers ∧ (s.system.Fails → s'.system.Fails) := by
    rcases system_callStep hstep with ⟨-, status, startedAt, hsystem⟩ | ⟨request, -, hsend⟩
    · rw [hsystem]
      exact ⟨rfl, id⟩
    · obtain ⟨inbox, -, hsystem⟩ := Option.map_eq_some_iff.mp hsend
      rw [← hsystem]
      exact ⟨rfl, id⟩
  obtain ⟨hanswers, hfails⟩ := hsystem
  by_cases hij : i = j
  · subst hij
    obtain ⟨hi, -⟩ := List.getElem?_eq_some_iff.mp hcall
    have hown : ∀ {call}, s'.calls = s.calls.set i call → s'.calls[i]? = some call := fun hset => by
      rw [hset, List.getElem?_set_self hi]
    cases h with
    | asking h =>
      cases acts_of_callStep hstep with
      | refused _ hrefuses =>
        obtain ⟨rfl, hf⟩ := hs.error_of_checkAccepting hrefuses
        exact .failed (hown rfl) (hfails hf)
      | accepted hasking =>
        rw [h] at hasking
        cases hasking
        exact .sending (hown rfl)
      | _ hother =>
        rw [h] at hother
        cases hother
    | sending h =>
      cases acts_of_callStep hstep with
      | unsent _ hsend =>
        by_cases hf : s.system.Fails
        · rw [hs.disconnectedError] at hown ⊢
          exact .failed (hown rfl) (hfails hf)
        · obtain ⟨-, -, -, hopen⟩ := hs.unharmed hf
          rw [hasReceiver_of_send hsend] at hopen
          cases hopen
      | sentRead hsending =>
        rw [h] at hsending
        cases hsending
        exact .awaiting (hown rfl)
      | sent hsending hno =>
        rw [h] at hsending
        cases hsending
        exact absurd rfl (hno read)
      | _ hother =>
        rw [h] at hother
        cases hother
    | awaiting h =>
      cases acts_of_callStep hstep with
      | got hawaiting houtcome =>
        rw [h] at hawaiting
        cases hawaiting
        rcases hs.outcome houtcome with ⟨value, rfl, hanswer⟩ | ⟨rfl, hf⟩
        · exact .answered (hown rfl) hanswer
        · exact .failed (hown rfl) (hfails hf)
      | _ hother =>
        rw [h] at hother
        cases hother
    | answered h | failed h =>
      unfold callStep at hstep
      rw [h] at hstep
      cases hstep
  · exact h.congr (by rw [hcalls, List.getElem?_set_ne hij]) (fun _ h => hanswers ▸ h) hfails

theorem Run.attended {ahead later : List Request} {x : Service S W} (hnew : ∀ call ∈ calls, call.IsNew)
    (hnostop : .stopping ∉ calls)
    (hbefore : Run around (.facing (.start (.new interval lookup now) opener world .empty {} clock) calls)
      ahead x) (hstarted : x.system.status.started = true) (hrun : Run around x later s) : s.Attended := by
  have hall := hbefore.trans hrun
  have hunasked : ¬ Asked calls .stop := by
    rintro ⟨call, hcall, hasks⟩
    have hcallNew := hnew call hcall
    cases call with
    | asking request =>
      cases request with
      | error e => cases hasks
      | ok request =>
        obtain rfl := List.mem_singleton.mp hasks
        exact hcallNew rfl
    | stopping => exact hnostop hcall
    | starting => cases hasks
    | _ => exact hcallNew
  obtain ⟨hsent, hstop, -⟩ := hall.asked rfl
  obtain ⟨phase, -, hat⟩ := hbefore.reaches (at_facing hnew)
  obtain ⟨phase', hleads, hat'⟩ := hrun.reaches hat
  refine ⟨?_, Bool.eq_false_iff.mpr fun h => hunasked (hstop h), fun hfails => ?_⟩
  · rw [hat'.shows.started]
    exact hleads.started (hat.shows.started ▸ hstarted)
  · have hdeparted : ¬ s.system.Departed := hall.not_departed (System.ledger_start rfl rfl) id
      (System.heard_start rfl) rfl (fun hmem => hunasked (hsent _ hmem)) hfails
    obtain ⟨hfailed, hunharmed⟩ := hall.unharmed hnew hfails
    obtain ⟨hstopped, hdropped⟩ := hunharmed hdeparted
    refine ⟨hfailed, hstopped, hdropped, ?_⟩
    by_contra hclosed
    have hended := hall.system.ended_of_closed rfl (Bool.eq_false_iff.mpr hclosed)
    refine hdeparted ?_
    unfold System.Departed
    rw [hended]
    trivial

/-- A read that nobody stops is answered, unless the keeper fails. -/
theorem Run.reads {ahead later : List Request} {x : Service S W} (hnew : ∀ call ∈ calls, call.IsNew)
    (hnostop : .stopping ∉ calls)
    (hbefore : Run around (.facing (.start (.new interval lookup now) opener world .empty {} clock) calls)
      ahead x) (hstarted : x.system.status.started = true)
    (hcall : x.calls[j]? = some (.asking (.ok (.read read)))) (hrun : Run around x later s) :
    Reads j read s := by
  induction hrun with
  | first => exact .asking hcall
  | call i hrun hstep ih => exact ih.call (hbefore.attended hnew hnostop hstarted hrun) hstep
  | keeper _ _ hstep ih =>
    obtain ⟨-, system, hsystem, rfl⟩ := keeperStep_eq_some hstep
    exact ih.congr rfl (System.answers_step hsystem).subset fun h => h.step hsystem
  | tick _ _ ih | change _ _ _ ih => exact ih.congr rfl (fun _ h => h) id

end

end Service

end HistoryKeeper
