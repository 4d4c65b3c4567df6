import Mathlib.Tactic.SplitIfs
import HistoryKeeper.Proofs.Keeper.Custody
import HistoryKeeper.Proofs.Keeper.Outcomes

/-!
# One start and one summary

Whatever the callers, the keeper and its store do, one start succeeds at most, the thread is joined
once at most, and all stops return the summary that is seen from then on
(`Service.Run.one_start_one_summary`). All of it is read off the phase of the service and where the
calls can be in it.
-/

namespace HistoryKeeper

theorem Status.checkAccepting_ne_notStarted {status : Status} (h : status.started = true) :
    status.checkAccepting ≠ .error .notStarted := by
  unfold checkAccepting
  rw [h, if_neg (by decide)]
  split_ifs <;> exact nofun

namespace Service

variable {S W : Type}

/-- The call is still to begin and gets this with its first step, or it has got it. -/
inductive GetsAtOnce (s : Service S W) (i : CallId) (call : Call)
    (result : Except CacheError Reply) : Prop
  | ahead : s.calls[i]? = some call → s.Gets i result → GetsAtOnce s i call result
  | behind : s.result? i = some result → GetsAtOnce s i call result

section
variable {s s' : Service S W} {calls : List Call} {phase : Phase} {i j : CallId} {call : Call}
  {result : Except CacheError Reply}

theorem gets_of_callStep (hcall : s.calls[i]? = some call)
    (hstep : s.callStep i = some (s.finishCall i result)) : s.Gets i result := by
  obtain ⟨hi, -⟩ := List.getElem?_eq_some_iff.mp hcall
  exact ⟨_, hstep, result?_eq_some_iff.mpr (List.getElem?_set_self hi)⟩

theorem gets_refused {request : Except CodecError Request} {e : CacheError}
    (hcall : s.calls[i]? = some (.asking request))
    (hrefuses : s.system.status.checkAccepting = .error e) : s.Gets i (.error e) := by
  refine gets_of_callStep hcall ?_
  unfold callStep
  rw [hcall]
  simp only [hrefuses]

theorem gets_alreadyStarted (hcall : s.calls[i]? = some .starting) (hlaunched : s.launched = true) :
    s.Gets i (.error .alreadyStarted) := by
  refine gets_of_callStep hcall ?_
  unfold callStep
  rw [hcall]
  exact if_pos hlaunched

theorem gets_notStarted (hcall : s.calls[i]? = some .stopping)
    (hstarted : s.system.status.started = false) : s.Gets i (.error .notStarted) := by
  refine gets_of_callStep hcall ?_
  unfold callStep
  rw [hcall]
  exact if_neg (Bool.eq_false_iff.mp hstarted)

theorem result?_callStep (h : s.result? i = some result) (hstep : s.callStep j = some s') :
    s'.result? i = some result := by
  rw [result?_eq_some_iff] at h ⊢
  obtain ⟨call, call', -, hcalls, -⟩ := calls_callStep hstep
  have hij : j ≠ i := by
    rintro rfl
    unfold callStep at hstep
    rw [h] at hstep
    cases hstep
  rw [hcalls, List.getElem?_set_ne hij]
  exact h

/-- What a call would get at any time that it begins, it has got when it has begun. -/
theorem Run.getsAtOnce [Store S W] {around : System.Surroundings S W} {later : List Request}
    (hrun : Run around s later s') (hcall : s.calls[i]? = some call)
    (hgets : ∀ {later x}, Run around s later x → x.calls[i]? = some call → x.Gets i result) :
    s'.GetsAtOnce i call result := by
  induction hrun with
  | first => exact .ahead hcall (hgets .first hcall)
  | call j hrun hstep ih =>
    cases ih with
    | ahead hahead hnext =>
      by_cases hij : j = i
      · subst hij
        obtain ⟨x, hx, hresult⟩ := hnext
        cases hx.symm.trans hstep
        exact .behind hresult
      · obtain ⟨_, _, -, hcalls, -⟩ := calls_callStep hstep
        have hahead' := (congrArg (·[i]?) hcalls).trans (List.getElem?_set_ne hij)
        exact .ahead (hahead'.trans hahead) (hgets (hrun.call j hstep) (hahead'.trans hahead))
    | behind hresult => exact .behind (result?_callStep hresult hstep)
  | keeper hrun hsteps hstep ih =>
    have hrun' := hrun.keeper hsteps hstep
    obtain ⟨-, system, -, rfl⟩ := keeperStep_eq_some hstep
    cases ih with
    | ahead hahead => exact .ahead hahead (hgets hrun' hahead)
    | behind hresult => exact .behind hresult
  | tick nanos hrun ih =>
    cases ih with
    | ahead hahead => exact .ahead hahead (hgets (hrun.tick nanos) hahead)
    | behind hresult => exact .behind hresult
  | change world hrun hchange ih =>
    cases ih with
    | ahead hahead => exact .ahead hahead (hgets (hrun.change world hchange) hahead)
    | behind hresult => exact .behind hresult

/-- A start that has begun and was not refused has the launch. -/
theorem At.starter_of_begun (h : s.At calls phase) (hfirst : calls[i]? = some .starting)
    (hbegun : s.calls[i]? ≠ some .starting)
    (hresult : s.result? i ≠ some (.error .alreadyStarted)) : phase.starter = some i := by
  obtain ⟨call, hcall, hpermits⟩ := h.now hfirst
  rcases hpermits.of_starting with ⟨rfl, -⟩ | ⟨hstarter, -⟩ | ⟨result, rfl, hreturns⟩
  · exact absurd hcall hbegun
  · exact hstarter
  · rcases hreturns with ⟨-, hstarter, -⟩ | ⟨rfl, -⟩
    · exact hstarter
    · exact absurd (result?_eq_some_iff.mpr hcall) hresult

theorem At.starter_of_done (h : s.At calls phase) (hfirst : calls[i]? = some .starting)
    (hdone : s.result? i = some (.ok .done)) : phase.starter = some i := by
  refine h.starter_of_begun hfirst ?_ ?_
  · rw [result?_eq_some_iff.mp hdone]
    exact nofun
  · rw [hdone]
    exact nofun

theorem At.alreadyStarted (h : s.At calls phase) (hstarter : phase.starter = some i)
    (hfirst : calls[j]? = some .starting) (hij : j ≠ i) :
    s.GetsAtOnce j .starting (.error .alreadyStarted) := by
  have hother : phase.starter ≠ some j := fun hj =>
    hij (Option.some_inj.mp (hj.symm.trans hstarter))
  obtain ⟨call, hcall, hpermits⟩ := h.now hfirst
  rcases hpermits.of_starting with ⟨rfl, -⟩ | ⟨hj, -⟩ | ⟨result, rfl, hreturns⟩
  · refine .ahead hcall (gets_alreadyStarted hcall ?_)
    rw [h.shows.launched, hstarter]
    rfl
  · exact absurd hj hother
  · rcases hreturns with ⟨-, hj, -⟩ | ⟨rfl, -⟩
    · exact absurd hj hother
    · exact .behind (result?_eq_some_iff.mpr hcall)

/-- The keeper is marked as started when a start has returned. -/
theorem At.started_iff (h : s.At calls phase) : s.system.status.started = true ↔
    ∃ i : CallId, calls[i]? = some .starting ∧ s.result? i = some (.ok .done) := by
  rw [h.shows.started]
  constructor
  · intro hstarted
    obtain ⟨i, hi⟩ : ∃ i, phase.starter = some i := by
      cases phase with
      | unlaunched => cases hstarted
      | _ => exact ⟨_, rfl⟩
    have hfirst := h.starter hi
    obtain ⟨call, hcall, hpermits⟩ := h.now hfirst
    refine ⟨i, hfirst, result?_eq_some_iff.mpr ?_⟩
    rcases hpermits.of_starting with ⟨-, hne⟩ | ⟨-, hnot⟩ | ⟨result, rfl, ⟨rfl, -⟩ | ⟨-, -, hne⟩⟩
    · exact absurd hi hne
    · rw [hnot] at hstarted
      cases hstarted
    · exact hcall
    · exact absurd hi hne
  · rintro ⟨i, hfirst, hresult⟩
    obtain ⟨first, hfirst', hpermits⟩ := h.permits (result?_eq_some_iff.mp hresult)
    cases hfirst.symm.trans hfirst'
    rcases hpermits with ⟨-, -, hstarted⟩ | ⟨herror, -⟩
    · exact hstarted
    · cases herror

/-! ### Stops -/

theorem At.notStarted (h : s.At calls phase) (hstarted : s.system.status.started = false)
    (hfirst : calls[i]? = some .stopping) : s.GetsAtOnce i .stopping (.error .notStarted) := by
  obtain ⟨call, hcall, hpermits⟩ := h.now hfirst
  rcases hpermits.of_stopping with rfl | hphase | ⟨result, rfl, rfl | ⟨starter, summary, rfl, -⟩⟩
  · exact .ahead hcall (gets_notStarted hcall hstarted)
  · rw [← h.shows.started, hstarted] at hphase
    cases hphase
  · exact .behind (result?_eq_some_iff.mpr hcall)
  · rw [h.shows.started] at hstarted
    cases hstarted

theorem At.stop_result (h : s.At calls phase) (hfirst : calls[i]? = some .stopping)
    (hresult : s.result? i = some result) :
    result = .error .notStarted ∨ ∃ summary, result = .ok (.summary summary) := by
  obtain ⟨first, hfirst', hpermits⟩ := h.permits (result?_eq_some_iff.mp hresult)
  cases hfirst.symm.trans hfirst'
  rcases hpermits with hnot | ⟨starter, summary, -, hsummary⟩
  · exact Or.inl hnot
  · exact Or.inr ⟨summary, hsummary⟩

theorem At.finished_of_summary {summary : Summary} (h : s.At calls phase)
    (hresult : s.result? i = some (.ok (.summary summary))) :
    ∃ starter, phase = .finished starter summary := by
  obtain ⟨first, -, hpermits⟩ := h.permits (result?_eq_some_iff.mp hresult)
  exact Phase.Returns.summary hpermits

/-- When a keeper has been marked, nobody hears any more that it has not. -/
theorem ne_notStarted_of_callStep (hstarted : s.system.status.started = true)
    (hresult : s.result? i ≠ some (.error .notStarted)) (hstep : s.callStep j = some s') :
    s'.result? i ≠ some (.error .notStarted) := by
  have hset : ∀ {call' : Call}, s'.calls = s.calls.set j call' →
      call' ≠ .returned (.error .notStarted) → s'.result? i ≠ some (.error .notStarted) := by
    intro call' hcalls hne hnow
    rw [result?_eq_some_iff, hcalls] at hnow
    by_cases hij : j = i
    · subst hij
      rw [List.getElem?_set_self'] at hnow
      obtain ⟨_, -, rfl⟩ := Option.map_eq_some_iff.mp hnow
      exact hne rfl
    · rw [List.getElem?_set_ne hij] at hnow
      exact hresult (result?_eq_some_iff.mpr hnow)
  cases acts_of_callStep hstep with
  | refused _ hrefuses =>
    refine hset rfl ?_
    rintro ⟨⟩
    exact Status.checkAccepting_ne_notStarted hstarted hrefuses
  | unsent =>
    refine hset rfl ?_
    unfold Status.disconnectedError
    split <;> exact nofun
  | @got token since result _ houtcome =>
    refine hset rfl ?_
    unfold System.outcome? Status.disconnectedError at houtcome
    split at houtcome
    · cases houtcome
      exact nofun
    · split_ifs at houtcome <;>
        (cases houtcome; exact nofun)
  | tooEarly _ hnot =>
    rw [hstarted] at hnot
    cases hnot
  | _ => exact hset rfl nofun

theorem Run.ne_notStarted [Store S W] {around : System.Surroundings S W} {later : List Request}
    (hrun : Run around s later s') (h : s.At calls phase)
    (hstarted : s.system.status.started = true)
    (hresult : s.result? i ≠ some (.error .notStarted)) :
    s'.result? i ≠ some (.error .notStarted) := by
  induction hrun with
  | first => exact hresult
  | call j hrun hstep ih =>
    obtain ⟨phase', hleads, hat⟩ := hrun.reaches h
    refine ne_notStarted_of_callStep ?_ ih hstep
    rw [hat.shows.started]
    exact hleads.started (h.shows.started ▸ hstarted)
  | keeper _ _ hstep ih =>
    obtain ⟨-, system, -, rfl⟩ := keeperStep_eq_some hstep
    exact ih
  | tick _ _ ih | change _ _ _ ih => exact ih

theorem At.joined_once [Store S W] {around : System.Surroundings S W} {later : List Request}
    {s₁ s₂ : Service S W} (h : s.At calls phase) (hcall : s.calls[i]? = some .joining)
    (hstep : s.callStep i = some s₁) (hrun : Run around s₁ later s₂) :
    s₂.calls[j]? ≠ some .joining := by
  have hfinishing : s₁.calls[i]? = some .finishing := by
    obtain ⟨hi, -⟩ := List.getElem?_eq_some_iff.mp hcall
    cases acts_of_callStep hstep with
    | joined => exact List.getElem?_set_self hi
    | _ hother =>
      rw [hcall] at hother
      cases hother
  intro hjoining
  have hjoin : Run around s ([] ++ s.sends i) s₁ := Run.first.call i hstep
  obtain ⟨phase₁, -, hat₁⟩ := hjoin.reaches h
  obtain ⟨phase₂, hleads, hat₂⟩ := hrun.reaches hat₁
  obtain ⟨-, -, -, starter, rfl⟩ := hat₁.permits hfinishing
  obtain ⟨-, -, -, starter', rfl⟩ := hat₂.permits hjoining
  exact absurd hleads.rank_le (Nat.not_succ_le_self 5)

theorem At.stopRequested {request : Except CodecError Request} {starter : CallId}
    {summary : Summary} (h : s.At calls (.finished starter summary))
    (hcall : s.calls[i]? = some (.asking request)) : s.Gets i (.error .stopRequested) := by
  refine gets_refused hcall ?_
  have hstarted : s.system.status.started = true := h.shows.started
  have hstopRequested : s.system.status.stopRequested = true := h.shows.stopRequested
  unfold Status.checkAccepting
  rw [hstarted, hstopRequested]
  rfl

end

section
variable {keeper : Keeper} {opener : Opener S W} {world : W} {clock : Instant} {calls : List Call}

theorem at_facing (hnew : ∀ call ∈ calls, call.IsNew) :
    (facing (System.start keeper opener world .empty {} clock) calls).At calls .unlaunched := by
  refine ⟨⟨rfl, rfl, rfl, rfl, rfl, nofun, nofun, ?_⟩, nofun, fun i => ?_⟩
  · rintro (h | h) <;> cases h
  · show Option.Rel _ calls[i]? calls[i]?
    cases hcall : calls[i]? with
    | none => exact .none
    | some call =>
      have hnew := hnew call (List.mem_of_getElem? hcall)
      cases call with
      | asking | stopping => exact .some rfl
      | starting => exact .some ⟨rfl, nofun⟩
      | _ => exact hnew.elim

variable [Store S W] {around : System.Surroundings S W} {sent : List Request} {s : Service S W}

/-- In whatever order a keeper is called, and whatever its run comes to: one start at most succeeds,
and a start that finds another one begun fails. A stop fails until a start has marked the keeper;
from then on nobody is told that it has not been started. The thread is joined once at most. As soon
as a stop has returned a summary, that is the one that everyone sees and every stop returns, and
requests that begin are refused. -/
theorem Run.one_start_one_summary (hnew : ∀ call ∈ calls, call.IsNew)
    (hrun : Run around (.facing (.start keeper opener world .empty {} clock) calls) sent s) :
    (∀ i j : CallId, calls[i]? = some .starting → calls[j]? = some .starting →
      s.result? i = some (.ok .done) → s.result? j = some (.ok .done) → i = j) ∧
    (∀ i j : CallId, calls[i]? = some .starting → s.calls[i]? ≠ some .starting →
      s.result? i ≠ some (.error .alreadyStarted) → calls[j]? = some .starting → j ≠ i →
        s.GetsAtOnce j .starting (.error .alreadyStarted)) ∧
    (s.system.status.started = true ↔
      ∃ i : CallId, calls[i]? = some .starting ∧ s.result? i = some (.ok .done)) ∧
    (s.system.status.started = false → ∀ i : CallId, calls[i]? = some .stopping →
      s.GetsAtOnce i .stopping (.error .notStarted)) ∧
    (s.system.status.started = true → ∀ i, s.result? i ≠ some (.error .notStarted) →
      ∀ later s', Run around s later s' → s'.result? i ≠ some (.error .notStarted)) ∧
    (∀ (i : CallId) s₁, s.calls[i]? = some .joining → s.callStep i = some s₁ →
      ∀ later s₂, Run around s₁ later s₂ → ∀ j : CallId, s₂.calls[j]? ≠ some .joining) ∧
    (∀ (i : CallId) result, calls[i]? = some .stopping → s.result? i = some result →
      result = .error .notStarted ∨ ∃ summary, result = .ok (.summary summary)) ∧
    (∀ i summary, s.result? i = some (.ok (.summary summary)) → ∀ later s', Run around s later s' →
      s'.system.status.summary = some summary ∧ s'.system.status.stopped = true ∧
      (∀ j other, s'.result? j = some (.ok (.summary other)) → other = summary) ∧
      ∀ (j : CallId) request, s.calls[j]? = some (.asking request) →
        s'.GetsAtOnce j (.asking request) (.error .stopRequested)) := by
  obtain ⟨phase, -, hat⟩ := hrun.reaches (at_facing hnew)
  refine ⟨fun i j hi hj hdone hdone' => ?_, fun i j hi hbegun hresult hj hij =>
      hat.alreadyStarted (hat.starter_of_begun hi hbegun hresult) hj hij, hat.started_iff,
    fun hstarted i hfirst => hat.notStarted hstarted hfirst,
    fun hstarted i hresult later s' hrun' => hrun'.ne_notStarted hat hstarted hresult,
    fun i s₁ hcall hstep later s₂ hrun' j => hat.joined_once hcall hstep hrun',
    fun i result hfirst hresult => hat.stop_result hfirst hresult,
    fun i summary hresult later s' hrun' => ?_⟩
  · have hi := hat.starter_of_done hi hdone
    have hj := hat.starter_of_done hj hdone'
    exact Option.some_inj.mp (hi.symm.trans hj)
  · obtain ⟨starter, rfl⟩ := hat.finished_of_summary hresult
    have hfinished : ∀ {later x}, Run around s later x → x.At calls (.finished starter summary) := by
      intro later x hrun
      obtain ⟨phase, hleads, hat'⟩ := hrun.reaches hat
      exact hleads.eq_of_finished ▸ hat'
    obtain ⟨hsummary, hstopped⟩ := (hfinished hrun').shows.finished rfl
    refine ⟨hsummary, hstopped, fun j other hother => ?_, fun j request hcall =>
      hrun'.getsAtOnce hcall fun hrun hcall => (hfinished hrun).stopRequested hcall⟩
    obtain ⟨starter', hfinished'⟩ := (hfinished hrun').finished_of_summary hother
    cases hfinished'
    rfl

end

/-- A start that is too late, and two stops; between their returns, the caller of a read notes how
long it has waited. -/
theorem Run.one_start_one_summary_of_two_stops :
    ∃ (later : List Request) (s s' : Service MemoryStore Probe)
        (request : Except CodecError Request) (summary : Summary),
      Run ⟨fun _ _ => True, fun _ _ => True⟩ s later s' ∧
      s.result? 0 = some (.ok .done) ∧ s.GetsAtOnce 1 .starting (.error .alreadyStarted) ∧
      s.result? 3 = some (.ok (.summary summary)) ∧ s'.result? 4 = some (.ok (.summary summary)) ∧
      s'.system.status.summary = some summary ∧
      s'.system.status.blocked ≠ summary.blockedReads ∧
      s'.GetsAtOnce 5 (.asking request) (.error .stopRequested) := by
  let opener : Opener MemoryStore Probe :=
    .of fun w => .ok (MemoryStore.openStore w).1 (MemoryStore.openStore w).2
  let read : PendingRead := ⟨⟨0⟩, ⟨"tasks", "str", "utf8"⟩, "1"⟩
  let calls : List Call := [.starting, .starting, .asking (.ok (.read read)), .stopping, .stopping,
    .asking (.ok (.read read))]
  let begun : Service MemoryStore Probe :=
    .facing (.start (.new .zero true ⟨0⟩) opener {} .empty {} ⟨0⟩) calls
  let turns : List Turn :=
    .replicate 4 (.call 0) ++ .call 1 :: .replicate 2 (.call 2) ++ .call 4 ::
      .replicate 4 (.call 3) ++ .replicate 15 .keeper ++ .replicate 2 (.call 3)
  have hseen : (Service.follow (fun _ => true) turns ([], begun)).bind (fun x =>
      (Service.follow (fun _ => true) [.call 2, .call 4, .call 5]
        ([], { x.2 with system := x.2.system.tick 5 })).map fun y =>
          decide (x.2.result? 0 = some (.ok .done)) &&
          x.2.calls[5]?.any (fun call => match call with | .asking _ => true | _ => false) &&
          x.2.system.status.summary.any fun summary =>
            decide (x.2.result? 3 = some (.ok (.summary summary))) &&
            decide (y.2.result? 4 = some (.ok (.summary summary))) &&
            decide (y.2.system.status.blocked ≠ summary.blockedReads)) = some true := by
    decide +kernel
  obtain ⟨⟨sent, s⟩, hs, hseen⟩ := Option.bind_eq_some_iff.mp hseen
  obtain ⟨⟨later, s'⟩, hs', hseen⟩ := Option.map_eq_some_iff.mp hseen
  have hrun : Run ⟨fun _ _ => True, fun _ _ => True⟩ begun sent s :=
    Run.first.follow (fun _ _ => trivial) hs
  have hrun' : Run ⟨fun _ _ => True, fun _ _ => True⟩ s later s' :=
    (Run.first.tick 5).follow (fun _ _ => trivial) hs'
  have hnew : ∀ call ∈ calls, call.IsNew := by
    intro call hcall
    simp only [calls, List.mem_cons, List.not_mem_nil, or_false] at hcall
    rcases hcall with rfl | rfl | rfl | rfl | rfl | rfl
    · trivial
    · trivial
    · exact nofun
    · trivial
    · trivial
    · exact nofun
  simp only [Bool.and_eq_true, decide_eq_true_eq, Option.any_eq_true] at hseen
  obtain ⟨⟨hdone, call, hcall, hasking⟩, summary, -, ⟨hsummary, hreported⟩, hblocked⟩ := hseen
  obtain ⟨request, rfl⟩ : ∃ request, call = .asking request := by
    split at hasking
    · exact ⟨_, rfl⟩
    · cases hasking
  obtain ⟨-, hstarts, -, -, -, -, -, hfinished⟩ := hrun.one_start_one_summary hnew
  obtain ⟨hshown, -, -, hrefused⟩ := hfinished 3 summary hsummary later s' hrun'
  refine ⟨later, s, s', request, summary, hrun', hdone, hstarts 0 1 rfl ?_ ?_ rfl (by decide),
    hsummary, hreported, hshown, hblocked, hrefused 5 request hcall⟩
  · rw [result?_eq_some_iff.mp hdone]
    exact nofun
  · rw [hdone]
    exact nofun

end Service

end HistoryKeeper
