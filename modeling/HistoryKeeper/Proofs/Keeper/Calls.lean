import HistoryKeeper.Keeper.Service

/-!
# What a step of a call can do

`Service.Acts` lists the outcomes of a step of a call, each with what has to be the case for it
(`acts_of_callStep`).
-/

namespace HistoryKeeper

/-- The caller of a read that was answered does not wait any more. -/
theorem System.outcome?_ne_none_of_answered {S W : Type} {s : System S W} {token : Token}
    {value : Option Bytes} (h : (token, value) ∈ s.answers) : s.outcome? token ≠ none := by
  unfold outcome?
  split
  · exact nofun
  · rename_i hnone
    exact absurd (decide_eq_true rfl) (List.find?_eq_none.mp hnone _ h)

namespace Service

variable {S W : Type} {s s' : Service S W} {i j : CallId}

@[simp] theorem calls_become (s : Service S W) (i : CallId) (call : Call) :
    (s.become i call).calls = s.calls.set i call := rfl

@[simp] theorem system_become (s : Service S W) (i : CallId) (call : Call) :
    (s.become i call).system = s.system := rfl

@[simp] theorem running_become (s : Service S W) (i : CallId) (call : Call) :
    (s.become i call).running = s.running := rfl

theorem result?_eq_some_iff {result : Except CacheError Reply} :
    s.result? i = some result ↔ s.calls[i]? = some (.returned result) := by
  unfold result?
  refine ⟨fun h => ?_, fun h => by rw [h]⟩
  split at h
  · cases h
    assumption
  · cases h

theorem keeperStep_eq_some [Store S W] {interference : Option Interference}
    (h : s.keeperStep interference = some s') : s.running = true ∧
      ∃ system, s.system.step interference = some system ∧ s' = { s with system } := by
  unfold keeperStep at h
  split at h
  · obtain ⟨system, hstep, rfl⟩ := Option.map_eq_some_iff.mp h
    exact ⟨‹_›, system, hstep, rfl⟩
  · cases h

theorem keeperTurn_eq_some [Store S W] (h : s.keeperTurn = some s') :
    ∃ service, s.keeperStep none = some service ∧
      s' = { service with system := service.system.tick 1 } := by
  obtain ⟨service, hstep, rfl⟩ := Option.map_eq_some_iff.mp h
  exact ⟨service, hstep, rfl⟩

inductive Acts (s : Service S W) (i : CallId) : Service S W → Prop
  | refused {request e} : s.calls[i]? = some (.asking request) →
      s.system.status.checkAccepting = .error e → Acts s i (s.finishCall i (.error e))
  | unencoded {e} : s.calls[i]? = some (.asking (.error e)) →
      s.system.status.checkAccepting = .ok () → Acts s i (s.finishCall i (.error (.codec e)))
  | accepted {request} : s.calls[i]? = some (.asking (.ok request)) →
      s.system.status.checkAccepting = .ok () → Acts s i (s.become i (.sending request))
  /-- The keeper does not receive any more. -/
  | unsent {request} : s.calls[i]? = some (.sending request) → s.system.inbox.send request = none →
      Acts s i (s.finishCall i (.error s.system.status.disconnectedError))
  | sentRead {read inbox} : s.calls[i]? = some (.sending (.read read)) →
      s.system.inbox.send (.read read) = some inbox →
      Acts s i ({ s with system := { s.system with inbox } }.become i
        (.awaiting read.token s.system.clock))
  | sent {request inbox} : s.calls[i]? = some (.sending request) → (∀ read, request ≠ .read read) →
      s.system.inbox.send request = some inbox →
      Acts s i ({ s with system := { s.system with inbox } }.finishCall i (.ok .done))
  | got {token since result} : s.calls[i]? = some (.awaiting token since) →
      s.system.outcome? token = some result →
      Acts s i ((s.withStatus (·.recordBlocked (s.system.clock.since since))).finishCall i
        (result.map .value))
  | tooLate : s.calls[i]? = some .starting → s.launched = true →
      Acts s i (s.finishCall i (.error .alreadyStarted))
  | launches : s.calls[i]? = some .starting → s.launched = false →
      Acts s i ({ s with launched := true }.become i .spawning)
  | spawned : s.calls[i]? = some .spawning →
      Acts s i ({ s with
        running := true, system := { s.system with startedAt := s.system.clock } }.become i
          .registering)
  | registered : s.calls[i]? = some .registering → s.holder = none →
      Acts s i ({ s with threadInPlace := true }.become i .marking)
  | started : s.calls[i]? = some .marking →
      Acts s i ((s.withStatus (·.markStarted)).finishCall i (.ok .done))
  | tooEarly : s.calls[i]? = some .stopping → s.system.status.started = false →
      Acts s i (s.finishCall i (.error .notStarted))
  | stops : s.calls[i]? = some .stopping → s.system.status.started = true →
      Acts s i (s.become i .claiming)
  | claimed : s.calls[i]? = some .claiming → s.holder = none → s.threadInPlace = true →
      Acts s i ({ s with threadInPlace := false, holder := some i }.become i .requestingStop)
  | reported {summary} : s.calls[i]? = some .claiming → s.holder = none → s.threadInPlace = false →
      s.system.status.summary = some summary → Acts s i (s.finishCall i (.ok (.summary summary)))
  | unreported : s.calls[i]? = some .claiming → s.holder = none → s.threadInPlace = false →
      s.system.status.summary = none → Acts s i (s.finishCall i (.error .keeperPanicked))
  | requestedStop : s.calls[i]? = some .requestingStop →
      Acts s i ((s.withStatus (·.requestStop)).become i .sendingStop)
  | sentStop {inbox} : s.calls[i]? = some .sendingStop → s.system.inbox.send .stop = some inbox →
      Acts s i ({ s with system := { s.system with inbox } }.become i .joining)
  | unsentStop : s.calls[i]? = some .sendingStop → s.system.inbox.send .stop = none →
      Acts s i (s.become i .joining)
  | joined : s.calls[i]? = some .joining → s.system.hasEnded = true →
      Acts s i (s.become i .finishing)
  | stopped {summary} : s.calls[i]? = some .finishing → s.system.status.summary = some summary →
      Acts s i (({ s with holder := none }.withStatus
        (·.finish { summary with blockedReads := s.system.status.blocked })).finishCall i
          (.ok (.summary { summary with blockedReads := s.system.status.blocked })))
  | abandoned : s.calls[i]? = some .finishing → s.system.status.summary = none →
      Acts s i (({ s with holder := none }.withStatus (·.markAbandoned)).finishCall i
        (.error .keeperPanicked))

theorem acts_sendRequest {request : Request} (hcall : s.calls[i]? = some (.sending request)) :
    s.Acts i (s.sendRequest i request) := by
  unfold sendRequest System.send
  cases hsend : s.system.inbox.send request with
  | none => exact .unsent hcall hsend
  | some inbox =>
    cases request with
    | read read => exact .sentRead hcall hsend
    | write write => exact .sent hcall nofun hsend
    | stop => exact .sent hcall nofun hsend

theorem acts_claim (hcall : s.calls[i]? = some .claiming) (hholder : s.holder = none) :
    s.Acts i (s.claim i) := by
  unfold claim
  cases hplace : s.threadInPlace with
  | true => exact .claimed hcall hholder hplace
  | false =>
    cases hsummary : s.system.status.summary with
    | some summary => exact .reported hcall hholder hplace hsummary
    | none => exact .unreported hcall hholder hplace hsummary

theorem acts_finishStop (hcall : s.calls[i]? = some .finishing) : s.Acts i (s.finishStop i) := by
  unfold finishStop
  cases hsummary : s.system.status.summary with
  | some summary =>
    simp only [hsummary]
    exact .stopped hcall hsummary
  | none =>
    simp only [hsummary]
    exact .abandoned hcall hsummary

theorem acts_of_callStep (h : s.callStep i = some s') : s.Acts i s' := by
  unfold callStep at h
  split at h
  · cases h
  · rename_i call hcall
    cases call with
    | asking request =>
      cases haccepts : s.system.status.checkAccepting with
      | error e =>
        simp only [haccepts] at h
        cases h
        exact .refused hcall haccepts
      | ok _ =>
        cases request with
        | error e =>
          simp only [haccepts] at h
          cases h
          exact .unencoded hcall haccepts
        | ok request =>
          simp only [haccepts] at h
          cases h
          exact .accepted hcall haccepts
    | sending request =>
      cases h
      exact acts_sendRequest hcall
    | awaiting token since =>
      simp only at h
      split at h
      · cases h
      · cases h
        exact .got hcall ‹_›
    | starting =>
      simp only at h
      split at h
      · cases h
        exact .tooLate hcall ‹_›
      · cases h
        exact .launches hcall (Bool.eq_false_iff.mpr ‹_›)
    | spawning =>
      cases h
      exact .spawned hcall
    | registering =>
      simp only at h
      split at h
      · cases h
      · cases h
        exact .registered hcall (Option.not_isSome_iff_eq_none.mp ‹_›)
    | marking =>
      cases h
      exact .started hcall
    | stopping =>
      simp only at h
      split at h
      · cases h
        exact .stops hcall ‹_›
      · cases h
        exact .tooEarly hcall (Bool.eq_false_iff.mpr ‹_›)
    | claiming =>
      simp only at h
      split at h
      · cases h
      · cases h
        exact acts_claim hcall (Option.not_isSome_iff_eq_none.mp ‹_›)
    | requestingStop =>
      cases h
      exact .requestedStop hcall
    | sendingStop =>
      cases h
      unfold System.send
      cases hsend : s.system.inbox.send .stop with
      | some inbox => exact .sentStop hcall hsend
      | none => exact .unsentStop hcall hsend
    | joining =>
      simp only at h
      split at h
      · cases h
        exact .joined hcall ‹_›
      · cases h
    | finishing =>
      cases h
      exact acts_finishStop hcall
    | returned _ => cases h

end Service

end HistoryKeeper
