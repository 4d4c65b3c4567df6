import HistoryKeeper.Proofs.Keeper.Completed

/-!
# Calls one after the other

A program with one thread makes a call when the one before has returned (`Service.InTurn`). Calls that nobody
has begun are in nobody's way, so what happens is a run of all the calls that it comes to make
(`Service.InTurn.run`).
-/

namespace HistoryKeeper.Service

variable {S W : Type}

/-- More calls are going to be made. -/
def andThen (s : Service S W) (more : List Call) : Service S W :=
  { s with calls := s.calls ++ more }

section
variable {s : Service S W} {i : CallId}

theorem callStep_andThen (hi : i < s.calls.length) (more : List Call) :
    (s.andThen more).callStep i = (s.callStep i).map (·.andThen more) := by
  have hbecome : ∀ {t : Service S W} (call : Call), t.calls = s.calls →
      (t.andThen more).become i call = (t.become i call).andThen more := fun {t} call ht =>
    congrArg (fun calls => { t with calls }) (List.set_append_left i call (ht ▸ hi))
  have hsame : (s.andThen more).calls[i]? = s.calls[i]? := List.getElem?_append_left hi
  have hsystem : (s.andThen more).system = s.system := rfl
  unfold callStep
  rw [hsame]
  cases hcall : s.calls[i]? with
  | none => rfl
  | some call =>
    cases call with
    | asking request =>
      simp only [hsystem]
      split <;> exact congrArg some (hbecome _ rfl)
    | sending request =>
      simp only [sendRequest, hsystem]
      cases s.system.send request with
      | none => exact congrArg some (hbecome _ rfl)
      | some system =>
        cases request <;> exact congrArg some (hbecome (t := { s with system }) _ rfl)
    | awaiting token since =>
      simp only [hsystem]
      split
      · rfl
      · exact congrArg some (hbecome (t := s.withStatus (·.recordBlocked (s.system.clock.since since))) _ rfl)
    | starting =>
      show (if s.launched then _ else _) = Option.map _ (if s.launched then _ else _)
      split
      · exact congrArg some (hbecome _ rfl)
      · exact congrArg some (hbecome (t := { s with launched := true }) _ rfl)
    | spawning =>
      exact congrArg some (hbecome
        (t := { s with running := true, system := { s.system with startedAt := s.system.clock } }) _ rfl)
    | registering =>
      show (if s.holder.isSome then _ else _) = Option.map _ (if s.holder.isSome then _ else _)
      split
      · rfl
      · exact congrArg some (hbecome (t := { s with threadInPlace := true }) _ rfl)
    | marking => exact congrArg some (hbecome (t := s.withStatus (·.markStarted)) _ rfl)
    | stopping =>
      simp only [hsystem]
      split <;> exact congrArg some (hbecome _ rfl)
    | claiming =>
      show (if s.holder.isSome then _ else some ((s.andThen more).claim i)) =
        Option.map _ (if s.holder.isSome then _ else some (s.claim i))
      split
      · rfl
      · refine congrArg some ?_
        unfold claim
        show (if s.threadInPlace then _ else _) = andThen (if s.threadInPlace then _ else _) more
        split
        · exact hbecome (t := { s with threadInPlace := false, holder := some i }) _ rfl
        · rw [hsystem]
          split <;> exact hbecome _ rfl
    | requestingStop => exact congrArg some (hbecome (t := s.withStatus (·.requestStop)) _ rfl)
    | sendingStop =>
      exact congrArg some (hbecome (t := { s with system := (s.system.send .stop).getD s.system }) _ rfl)
    | joining =>
      simp only [hsystem]
      split
      · exact congrArg some (hbecome _ rfl)
      · rfl
    | finishing =>
      refine congrArg some ?_
      unfold finishStop
      simp only [hsystem]
      cases s.system.status.summary with
      | some summary =>
        exact hbecome (t := { s with holder := none }.withStatus
          (·.finish { summary with blockedReads := s.system.status.blocked })) _ rfl
      | none => exact hbecome (t := { s with holder := none }.withStatus (·.markAbandoned)) _ rfl
    | returned result => rfl

theorem sends_andThen (hi : i < s.calls.length) (more : List Call) :
    (s.andThen more).sends i = s.sends i := by
  have hsame : (s.andThen more).calls[i]? = s.calls[i]? := List.getElem?_append_left hi
  unfold sends
  rw [hsame]
  rfl

theorem result?_andThen (hi : i < s.calls.length) (more : List Call) :
    (s.andThen more).result? i = s.result? i := by
  have hsame : (s.andThen more).calls[i]? = s.calls[i]? := List.getElem?_append_left hi
  unfold result?
  rw [hsame]

theorem Run.andThen [Store S W] {around : System.Surroundings S W} {first : Service S W} {sent : List Request}
    (hrun : Run around first sent s) (more : List Call) :
    Run around (first.andThen more) sent (s.andThen more) := by
  induction hrun with
  | first => exact .first
  | call i hrun hstep ih =>
    have hi := lt_of_callStep hstep
    have hstep' := callStep_andThen hi more
    rw [hstep] at hstep'
    rw [← sends_andThen hi more]
    exact ih.call i hstep'
  | keeper _ hsteps hstep ih =>
    obtain ⟨hrunning, system, hsystem, rfl⟩ := keeperStep_eq_some hstep
    refine ih.keeper hsteps ?_
    unfold keeperStep
    rw [if_pos (show (Service.andThen _ more).running = true from hrunning)]
    exact congrArg (Option.map _) hsystem
  | tick nanos _ ih => exact ih.tick nanos
  | change world _ hchange ih => exact ih.change world hchange

end

theorem Fresh.of_prefix {calls calls' : List Call} (h : Fresh calls') (hfirst : calls <+: calls') :
    Fresh calls :=
  ⟨fun call hcall => h.new call (hfirst.subset hcall), by
    obtain ⟨more, rfl⟩ := hfirst
    have htokens := h.tokens
    rw [List.flatMap_append] at htokens
    exact htokens.of_append_left⟩

section
variable [Store S W] {around : System.Surroundings S W} {start : System S W} {first s s' : Service S W}
  {sent later : List Request} {i : CallId} {call : Call} {calls earlier : List Call}
  {result : Except CacheError Reply}

theorem Run.result?_eq (hrun : Run around s later s') (h : s.result? i = some result) :
    s'.result? i = some result := by
  induction hrun with
  | first => exact h
  | call j _ hstep ih => exact result?_callStep ih hstep
  | keeper _ _ hstep ih =>
    obtain ⟨-, system, -, rfl⟩ := keeperStep_eq_some hstep
    exact ih
  | tick _ _ ih | change _ _ _ ih => exact ih

theorem Run.length_calls (hrun : Run around first sent s) : s.calls.length = first.calls.length := by
  induction hrun with
  | first => rfl
  | call i _ hstep ih =>
    obtain ⟨call, call', -, hcalls, -⟩ := calls_callStep hstep
    rw [hcalls, List.length_set]
    exact ih
  | keeper _ _ hstep ih =>
    obtain ⟨-, system, -, rfl⟩ := keeperStep_eq_some hstep
    exact ih
  | tick _ _ ih | change _ _ _ ih => exact ih

/-- Calls that are made one after the other, the last one first: each when the one before has returned. -/
inductive InTurn (around : System.Surroundings S W) (start : System S W) : List Call → Service S W → Prop
  | none : InTurn around start [] (facing start [])
  | next {earlier x later s} (call : Call) : InTurn around start earlier x →
      (∀ call ∈ x.calls, ∃ result, call = .returned result) → Run around (x.andThen [call]) later s →
      InTurn around start (call :: earlier) s

namespace InTurn

theorem goesOn (h : InTurn around start (call :: earlier) s) (hrun : Run around s later s') :
    InTurn around start (call :: earlier) s' := by
  cases h with
  | next _ hbefore hreturned hmade => exact .next call hbefore hreturned (hmade.trans hrun)

theorem run (h : InTurn around start calls s) :
    ∃ sent, Run around (facing start calls.reverse) sent s := by
  induction h with
  | none => exact ⟨[], .first⟩
  | next call _ _ hmade ih =>
    obtain ⟨sent, hrun⟩ := ih
    rw [List.reverse_cons]
    exact ⟨_, (hrun.andThen [call]).trans hmade⟩

theorem length_calls (h : InTurn around start calls s) : s.calls.length = calls.length := by
  obtain ⟨sent, hrun⟩ := h.run
  rw [hrun.length_calls]
  exact List.length_reverse

theorem alone (h : InTurn around start (call :: earlier) s) : s.Alone earlier.length := by
  have hlength := h.length_calls
  refine ⟨by rw [hlength]; exact Nat.lt_succ_self _, fun j other hj hother => ?_⟩
  cases h with
  | @next _ x _ _ _ hbefore hreturned hmade =>
    have hx := hbefore.length_calls
    have hlt : j < x.calls.length := by
      have hj' := (List.getElem?_eq_some_iff.mp hother).1
      rw [hlength, List.length_cons] at hj'
      rw [hx]
      exact Nat.lt_of_le_of_ne (Nat.le_of_lt_succ hj') hj
    obtain ⟨result, hresult⟩ := hreturned _ (List.getElem_mem hlt)
    have hkept : (x.andThen [call]).result? j = some result := by
      rw [result?_andThen hlt, result?_eq_some_iff, List.getElem?_eq_getElem hlt, hresult]
    have hnow := result?_eq_some_iff.mp (hmade.result?_eq hkept)
    exact ⟨result, Option.some_inj.mp (hother.symm.trans hnow)⟩

/-- The last call has returned, and so the next one is made. -/
theorem andThen (h : InTurn around start (call :: earlier) s) (hresult : s.result? earlier.length = some result)
    (next : Call) : InTurn around start (next :: call :: earlier) (s.andThen [next]) := by
  refine .next next h (fun other hother => ?_) .first
  obtain ⟨j, hj⟩ := List.mem_iff_getElem?.mp hother
  by_cases hlast : j = earlier.length
  · rw [hlast, result?_eq_some_iff.mp hresult] at hj
    exact ⟨result, (Option.some_inj.mp hj).symm⟩
  · exact h.alone.2 j other hlast hj

end InTurn

theorem Run.start_succeeds {keeper : Keeper} {opener : Opener S W} {world : W} {clock : Instant}
    (hrun : Run around (.facing (.start keeper opener world .empty {} clock) [.starting]) sent s)
    (hresult : s.result? 0 = some result) : result = .ok .done := by
  have hnew : ∀ call ∈ [Call.starting], call.IsNew := fun call hcall => by
    rw [List.mem_singleton.mp hcall]
    trivial
  obtain ⟨phase, -, hat⟩ := hrun.reaches (at_facing hnew)
  obtain ⟨first, hfirst, hpermits⟩ := hat.permits (result?_eq_some_iff.mp hresult)
  cases hfirst
  rcases hpermits with ⟨hdone, -⟩ | ⟨-, hsome, hother⟩
  · exact hdone
  · obtain ⟨i, hi⟩ := Option.isSome_iff_exists.mp hsome
    obtain ⟨hlt, -⟩ := List.getElem?_eq_some_iff.mp (hat.starter hi)
    rw [Nat.lt_one_iff.mp hlt] at hi
    exact absurd hi hother

/-! ### A start, a request and a stop -/

section
variable {interval : Duration} {lookup : Bool} {now clock : Instant} {opener : Opener S W} {world : W}
  {request : Except CodecError Request}

theorem isNew_of_request (hrequest : request ≠ .ok .stop) :
    ∀ call ∈ [Call.starting, .asking request, .stopping], call.IsNew := by
  simp only [List.forall_mem_cons]
  exact ⟨trivial, hrequest, trivial, nofun⟩

namespace InTurn

theorem start_done (h : InTurn around (.start (.new interval lookup now) opener world .empty {} clock)
    [call, .starting] s) : s.result? 0 = some (.ok .done) := by
  cases h with
  | @next _ y _ _ _ hbefore hreturned hmade =>
    obtain ⟨sent, hrun⟩ := hbefore.run
    have hlt : 0 < y.calls.length := by
      rw [hbefore.length_calls]
      exact Nat.one_pos
    obtain ⟨result, hresult⟩ := hreturned _ (List.getElem_mem hlt)
    have hfirst : y.result? 0 = some result :=
      result?_eq_some_iff.mpr (by rw [List.getElem?_eq_getElem hlt, hresult])
    obtain rfl := hrun.start_succeeds hfirst
    exact hmade.result?_eq ((result?_andThen hlt [call]).trans hfirst)

/-- Calls that were made earlier had returned before the last one was made. -/
theorem result_earlier {x : Service S W} {later : List Request}
    (hreturned : ∀ call ∈ x.calls, ∃ result, call = .returned result)
    (hmade : Run around (x.andThen [call]) later s) (hi : i < x.calls.length) (hresult : s.result? i = some result) :
    x.result? i = some result := by
  obtain ⟨result', hresult'⟩ := hreturned _ (List.getElem_mem hi)
  have hx : x.result? i = some result' :=
    result?_eq_some_iff.mpr (by rw [List.getElem?_eq_getElem hi, hresult'])
  have hs := hmade.result?_eq ((result?_andThen hi [call]).trans hx)
  rw [hx, ← hs, hresult]

/-- A stop that comes after a start returns a summary, and then the keeper has ended. -/
theorem stop_succeeds (hrequest : request ≠ .ok .stop)
    (h : InTurn around (.start (.new interval lookup now) opener world .empty {} clock)
      [.stopping, .asking request, .starting] s) (hresult : s.result? 2 = some result) :
    ∃ summary, result = .ok (.summary summary) ∧ s.system.stage = .ended ∧
      summary.Tells s.system.keeper.tally s.system.log := by
  have hnew := isNew_of_request hrequest
  cases h with
  | @next _ x _ _ _ hbefore hreturned hmade =>
    obtain ⟨sent, hrun⟩ := hbefore.run
    have hall := hrun.andThen [.stopping]
    obtain ⟨phase, -, hat⟩ := hall.reaches (at_facing hnew)
    have hlength := hbefore.length_calls
    have hdone : (x.andThen [.stopping]).result? 0 = some (.ok .done) :=
      (result?_andThen (by rw [hlength]; exact Nat.two_pos) _).trans hbefore.start_done
    have hstarted := hat.started_iff.mpr ⟨0, rfl, hdone⟩
    have hbegins : (x.andThen [.stopping]).calls[2]? = some .stopping :=
      (List.getElem?_append_right (by rw [hlength]; exact Nat.le_refl 2)).trans (by rw [hlength]; rfl)
    have hnever := hmade.ne_notStarted hat hstarted fun h => by
      cases hbegins.symm.trans (result?_eq_some_iff.mp h)
    obtain ⟨phase', -, hat'⟩ := hmade.reaches hat
    obtain ⟨summary, rfl⟩ := (hat'.stop_result rfl hresult).resolve_left fun h => hnever (h ▸ hresult)
    have htold : (System.start (.new interval lookup now) opener world .empty {} clock).Told := ⟨rfl, nofun⟩
    exact ⟨summary, rfl, ((hall.trans hmade).lifecycle hnew rfl htold).summary (result?_eq_some_iff.mp hresult)⟩

theorem unstopped {x : Service S W} {start : System S W}
    (hrun : Run around (facing start [.starting, .asking request]) sent x) (hrequest : request ≠ .ok .stop)
    (hstart : start.status.stopRequested = false) : .stop ∉ sent := by
  intro hmem
  obtain ⟨call, hcall, hasks⟩ := (hrun.asked hstart).1 _ hmem
  rcases List.mem_cons.mp hcall with rfl | hcall
  · cases hasks
  · obtain rfl := List.mem_singleton.mp hcall
    cases request with
    | error e => cases hasks
    | ok request =>
      obtain rfl := List.mem_singleton.mp hasks
      exact hrequest rfl

/-- A read between a start and a stop is answered, unless the keeper fails. -/
theorem read_returns {read : PendingRead}
    (h : InTurn around (.start (.new interval lookup now) opener world .empty {} clock)
      [.stopping, .asking (.ok (.read read)), .starting] s) (hresult : s.result? 1 = some result) :
    (∃ value, result = .ok (.value value) ∧ (read.token, value) ∈ s.system.answers) ∨
      result = .error .keeperFailed ∧ s.system.Fails := by
  cases h with
  | @next _ x _ _ _ hbefore hreturned hmade =>
    have hx := result_earlier hreturned hmade (by rw [hbefore.length_calls]; exact Nat.one_lt_two) hresult
    cases hbefore with
    | @next _ y _ _ _ hstart hreturned' hmade' =>
      obtain ⟨sent, hrun⟩ := hstart.run
      have hall := hrun.andThen [.asking (.ok (.read read))]
      have hnew : ∀ call ∈ [Call.starting, .asking (.ok (.read read))], call.IsNew := by
        simp only [List.forall_mem_cons]
        exact ⟨trivial, nofun, nofun⟩
      obtain ⟨phase, -, hat⟩ := hall.reaches (at_facing hnew)
      have hdone := (InTurn.next (.asking (.ok (.read read))) hstart hreturned' .first).start_done
      have hasks : (y.andThen [.asking (.ok (.read read))]).calls[1]? = some (.asking (.ok (.read read))) :=
        (List.getElem?_append_right (by rw [hstart.length_calls]; exact Nat.le_refl 1)).trans
          (by rw [hstart.length_calls]; rfl)
      have hreads := hall.reads hnew nofun (hat.started_iff.mpr ⟨0, rfl, hdone⟩) hasks hmade'
      rw [result?_eq_some_iff] at hx
      cases hreads with
      | asking h | sending h | awaiting h => cases hx.symm.trans h
      | answered h hanswer =>
        cases hx.symm.trans h
        exact .inl ⟨_, rfl, hmade.system.answers_prefix.subset hanswer⟩
      | failed h hfails =>
        cases hx.symm.trans h
        exact .inr ⟨rfl, hmade.system.fails hfails⟩

/-- A write between a start and a stop is applied if it is accepted, unless the keeper fails. -/
theorem write_applied {w : PendingWrite}
    (h : InTurn around (.start (.new interval lookup now) opener world .empty {} clock)
      [.stopping, .asking (.ok (.write w)), .starting] s) :
    ∃ sent, Run around (facing (.start (.new interval lookup now) opener world .empty {} clock)
        [.starting, .asking (.ok (.write w)), .stopping]) sent s ∧
      ∀ reply, s.result? 1 = some (.ok reply) → s.system.stage = .ended → s.system.log = [] →
        w ∈ (Request.writes sent).take s.system.keeper.tally.writesApplied := by
  cases h with
  | @next _ x later _ _ hbefore hreturned hmade =>
    obtain ⟨sent, hrun⟩ := hbefore.run
    refine ⟨sent ++ later, (hrun.andThen [.stopping]).trans hmade, fun reply hresult hended hlog => ?_⟩
    have hledger : System.Ledger [] [] (.start (.new interval lookup now) opener world .empty {} clock) :=
      System.ledger_start rfl rfl
    have hfails : ¬ s.system.Fails := System.not_fails_of_cause hlog (by rw [System.cause?, hended])
    have hdeparted : s.system.Departed := by
      unfold System.Departed
      rw [hended]
      trivial
    have hx := result_earlier hreturned hmade (by rw [hbefore.length_calls]; exact Nat.one_lt_two) hresult
    have hnot := hrun.not_departed hledger id (System.heard_start rfl) rfl (unstopped hrun (by rintro ⟨⟩) rfl)
      fun h => hfails (hmade.system.fails h)
    have happlied := hrun.system.applied_of_not_departed hledger hnot hmade.system hdeparted hfails
    have hw : .write w ∈ sent := by
      rw [result?_eq_some_iff] at hx
      have hwrites : Writes around _ 1 w sent x := hrun.writes rfl
      cases hwrites with
      | asking h | sending h | refused h => cases hx.symm.trans h
      | done _ hsent _ =>
        rw [hsent]
        exact List.mem_append_right _ List.mem_cons_self
    rw [Request.writes_append, List.take_append, List.take_of_length_le happlied.1]
    exact List.mem_append_left _ (Request.mem_writes.mpr hw)

end InTurn

end

end

end HistoryKeeper.Service