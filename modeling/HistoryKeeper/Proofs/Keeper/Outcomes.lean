import Mathlib.Data.List.Nodup
import HistoryKeeper.Proofs.Keeper.Places
import HistoryKeeper.Proofs.Keeper.Progress
import HistoryKeeper.Proofs.Keeper.ServiceRun
import HistoryKeeper.Store.Memory

/-!
# Every read has one outcome

`Service.Run.one_outcome`: whatever the callers, the keeper and its store do, a read that was sent is
at one place at any time, and its caller gets the answer if there is one, an error if the read was
dropped, and waits as long as neither is the case. Nobody waits for good: a keeper that has not dealt
with a read has something to do, and when it has ended, all reads are answered or dropped.

`Service.Tracked` ties the places of the reads to what was sent; it holds in every run.
-/

namespace HistoryKeeper

namespace System

variable {S W : Type} {s : System S W} {t : Token} {value : Option Bytes}

theorem mem_answered (h : (t, value) ∈ s.answers) : t ∈ s.tokensAt .answered :=
  List.mem_map.mpr ⟨_, h, rfl⟩

theorem find?_answers_eq_none_iff :
    s.answers.find? (·.1 = t) = none ↔ t ∉ s.tokensAt .answered := by
  rw [List.find?_eq_none]
  constructor
  · intro h hmem
    obtain ⟨x, hx, rfl⟩ := List.mem_map.mp hmem
    exact h x hx (decide_eq_true rfl)
  · intro h x hx ht
    cases of_decide_eq_true ht
    exact h (List.mem_map.mpr ⟨x, hx, rfl⟩)

/-- If a read was answered once, this is what its caller is told. -/
theorem outcome?_of_answered (honce : (s.tokensAt .answered).Nodup) (h : (t, value) ∈ s.answers) :
    s.outcome? t = some (.ok value) := by
  unfold outcome?
  cases hfind : s.answers.find? (·.1 = t) with
  | none => exact absurd (mem_answered h) (find?_answers_eq_none_iff.mp hfind)
  | some x =>
    have ht := List.find?_some hfind
    cases List.inj_on_of_nodup_map honce (List.mem_of_find?_eq_some hfind) h (of_decide_eq_true ht)
    rfl

theorem outcome?_of_dropped (hanswered : t ∉ s.tokensAt .answered) (h : t ∈ s.tokensAt .dropped) :
    s.outcome? t = some (.error s.status.disconnectedError) := by
  unfold outcome?
  rw [find?_answers_eq_none_iff.mpr hanswered]
  exact if_pos (List.contains_iff_mem.mpr h)

theorem outcome?_of_outstanding (hanswered : t ∉ s.tokensAt .answered)
    (hdropped : t ∉ s.tokensAt .dropped) : s.outcome? t = none := by
  unfold outcome?
  rw [find?_answers_eq_none_iff.mpr hanswered]
  exact if_neg (mt List.contains_iff_mem.mp hdropped)

end System

theorem Status.started_of_checkAccepting {status : Status} (h : status.checkAccepting = .ok ()) :
    status.started = true := by
  cases hstarted : status.started with
  | true => rfl
  | false =>
    rw [checkAccepting, hstarted] at h
    cases h

namespace Call

/-- The call only comes this far once the keeper has its thread. -/
def FollowsStart : Call → Prop
  | .sending _ | .registering | .marking | .claiming | .requestingStop | .sendingStop => True
  | _ => False

end Call

namespace Service

variable {S W : Type}

/-- The next step of a call makes it return this. -/
def Gets (s : Service S W) (i : CallId) (result : Except CacheError Reply) : Prop :=
  ∃ s', s.callStep i = some s' ∧ s'.result? i = some result

/-- What becomes of a call that waits for a read. -/
structure Waits (s : Service S W) (i : CallId) (t : Token) : Prop where
  blocked : s.callStep i = none ↔
    t ∉ s.system.tokensAt .answered ∧ t ∉ s.system.tokensAt .dropped
  answered : ∀ value, s.Gets i (.ok (.value value)) ↔ (t, value) ∈ s.system.answers
  stopped : s.Gets i (.error .stopRequested) ↔
    t ∈ s.system.tokensAt .dropped ∧ s.system.status.stopRequested = true
  failed : s.Gets i (.error .keeperFailed) ↔
    t ∈ s.system.tokensAt .dropped ∧ s.system.status.stopRequested = false

section
variable {s : Service S W} {i : CallId} {t : Token} {since : Instant}

theorem callStep_of_outcome (hcall : s.calls[i]? = some (.awaiting t since))
    (houtcome : s.system.outcome? t = none) : s.callStep i = none := by
  unfold callStep
  rw [hcall]
  simp only [houtcome]

theorem gets_iff (hcall : s.calls[i]? = some (.awaiting t since))
    {outcome : Except CacheError (Option Bytes)} (houtcome : s.system.outcome? t = some outcome)
    (result : Except CacheError Reply) : s.Gets i result ↔ outcome.map .value = result := by
  have hstep : s.callStep i =
      some ((s.withStatus (·.recordBlocked (s.system.clock.since since))).finishCall i
        (outcome.map .value)) := by
    unfold callStep
    rw [hcall]
    simp only [houtcome]
  have hresult : ((s.withStatus (·.recordBlocked (s.system.clock.since since))).finishCall i
      (outcome.map .value)).result? i = some (outcome.map .value) := by
    obtain ⟨hi, -⟩ := List.getElem?_eq_some_iff.mp hcall
    rw [result?_eq_some_iff, finishCall, calls_become]
    exact List.getElem?_set_self hi
  unfold Gets
  rw [hstep]
  constructor
  · rintro ⟨s', hs', h⟩
    cases hs'
    exact Option.some_inj.mp (hresult.symm.trans h)
  · rintro rfl
    exact ⟨_, rfl, hresult⟩

theorem waits_of_place (hcall : s.calls[i]? = some (.awaiting t since))
    (hanswered : (s.system.tokensAt .answered).Nodup)
    (honce : t ∈ s.system.tokensAt .answered → t ∉ s.system.tokensAt .dropped) : s.Waits i t := by
  by_cases ha : t ∈ s.system.tokensAt .answered
  · obtain ⟨⟨t, value⟩, hmem, rfl⟩ := List.mem_map.mp ha
    have hdropped := honce ha
    have hgets := gets_iff hcall (System.outcome?_of_answered hanswered hmem)
    refine ⟨iff_of_false ?_ fun h => h.1 ha, fun value' => ?_, ?_, ?_⟩
    · obtain ⟨s', hs', -⟩ := (hgets _).mpr rfl
      rw [hs']
      exact nofun
    · rw [hgets]
      constructor
      · intro h
        cases h
        exact hmem
      · intro h
        cases List.inj_on_of_nodup_map hanswered h hmem rfl
        rfl
    · rw [hgets]
      exact iff_of_false nofun fun h => hdropped h.1
    · rw [hgets]
      exact iff_of_false nofun fun h => hdropped h.1
  · have hno : ∀ value, (t, value) ∉ s.system.answers := fun _ h => ha (System.mem_answered h)
    by_cases hd : t ∈ s.system.tokensAt .dropped
    · have hgets := gets_iff hcall (System.outcome?_of_dropped ha hd)
      refine ⟨iff_of_false ?_ fun h => h.2 hd, fun value => ?_, ?_, ?_⟩
      · obtain ⟨s', hs', -⟩ := (hgets _).mpr rfl
        rw [hs']
        exact nofun
      · rw [hgets]
        exact iff_of_false nofun (hno value)
      · rw [hgets, Status.disconnectedError]
        cases s.system.status.stopRequested <;> simp [hd, Except.map]
      · rw [hgets, Status.disconnectedError]
        cases s.system.status.stopRequested <;> simp [hd, Except.map]
    · have hstep := callStep_of_outcome hcall (System.outcome?_of_outstanding ha hd)
      have hgets : ∀ result, ¬ s.Gets i result := by
        rintro result ⟨s', hs', -⟩
        rw [hstep] at hs'
        cases hs'
      exact ⟨iff_of_true hstep ⟨ha, hd⟩, fun value => iff_of_false (hgets _) (hno value),
        iff_of_false (hgets _) fun h => hd h.1, iff_of_false (hgets _) fun h => hd h.1⟩

end

/-! ### Where the reads of the calls are -/

/-- How often a read is in a call that is about to send it. -/
def unsent (s : Service S W) (t : Token) : Nat :=
  (s.calls.map fun call => call.unsent.count t).sum

/-- The reads that were sent are accounted for. -/
structure Tracked (sent : List Request) (s : Service S W) : Prop where
  fresh : ∀ t, (Request.readTokens sent).count t + s.unsent t ≤ 1
  copies : ∀ t, s.system.copies t = (Request.readTokens sent).count t
  awaited : ∀ {t since}, Call.awaiting t since ∈ s.calls → t ∈ Request.readTokens sent
  parted : s.system.stage = .ended → s.system.Parted
  idles : s.system.Idles

section
variable {s s' : Service S W} {i : CallId} {sent : List Request}

theorem unsent_set {call call' : Call} (hcall : s.calls[i]? = some call)
    (hcalls : s'.calls = s.calls.set i call') (t : Token) :
    s'.unsent t + call.unsent.count t = s.unsent t + call'.unsent.count t := by
  have hsum := sum_set (l := s.calls.map fun call => call.unsent.count t) (i := i)
    (by rw [List.getElem?_map, hcall]; rfl) (call'.unsent.count t)
  unfold unsent
  rw [hcalls, List.map_set]
  exact hsum

theorem Tracked.call (h : s.Tracked sent) (hstep : s.callStep i = some s') :
    s'.Tracked (sent ++ s.sends i) := by
  obtain ⟨call, call', hcall, hcalls, hunsent, hawaiting⟩ := calls_callStep hstep
  have hcopies : ∀ t, s'.system.copies t =
      s.system.copies t + (Request.readTokens (s.sends i)).count t := by
    intro t
    rcases system_callStep hstep with ⟨hsends, status, startedAt, hsystem⟩ | ⟨request, hsends, hsend⟩
    · rw [hsends, hsystem]
      rfl
    · rw [hsends]
      exact System.copies_send hsend t
  refine ⟨fun t => ?_, fun t => ?_, fun {t since} hmem => ?_, fun hended => ?_, ?_⟩
  · have hfresh := h.fresh t
    have hset := unsent_set hcall hcalls t
    have hcount := hunsent.count_le t
    rw [List.count_append] at hcount
    rw [Request.readTokens_append, List.count_append]
    omega
  · rw [hcopies, h.copies, Request.readTokens_append, List.count_append]
  · rw [Request.readTokens_append, List.mem_append]
    rw [hcalls] at hmem
    rcases List.mem_or_eq_of_mem_set hmem with hold | hnew
    · exact Or.inl (h.awaited hold)
    · exact Or.inr (hawaiting t since hnew.symm)
  · rcases system_callStep hstep with ⟨-, status, startedAt, hsystem⟩ | ⟨request, -, hsend⟩
    · rw [hsystem] at hended ⊢
      exact (h.parted hended).congr rfl rfl
    · obtain ⟨inbox, hinbox, hsystem⟩ := Option.map_eq_some_iff.mp hsend
      rw [← hsystem] at hended
      rw [Inbox.send, (h.parted hended).closed] at hinbox
      cases hinbox
  · rcases system_callStep hstep with ⟨-, status, startedAt, hsystem⟩ | ⟨request, -, hsend⟩
    · rw [hsystem]
      exact h.idles.congr rfl rfl
    · obtain ⟨inbox, -, hsystem⟩ := Option.map_eq_some_iff.mp hsend
      rw [← hsystem]
      exact h.idles.congr rfl rfl

theorem Tracked.keeper [Store S W] {interference : Option Interference} (h : s.Tracked sent)
    (hstep : s.keeperStep interference = some s') : s'.Tracked sent := by
  obtain ⟨-, system, hsystem, rfl⟩ := keeperStep_eq_some hstep
  exact ⟨h.fresh, fun t => (System.copies_step hsystem t).trans (h.copies t), h.awaited,
    System.parted_step hsystem, h.idles.step hsystem⟩

theorem Tracked.copies_eq_one (h : s.Tracked sent) {t : Token} (ht : t ∈ Request.readTokens sent) :
    s.system.copies t = 1 := by
  have hpos := List.count_pos_iff.mpr ht
  have hfresh := h.fresh t
  rw [h.copies]
  omega

theorem Tracked.copies_le_one (h : s.Tracked sent) (t : Token) : s.system.copies t ≤ 1 := by
  rw [h.copies]
  exact Nat.le_of_add_right_le (h.fresh t)

/-- A keeper that rests or has ended has dealt with all reads. -/
theorem Tracked.dealt (h : s.Tracked sent) {t : Token} (ht : t ∈ Request.readTokens sent)
    (hover : s.system.Rests ∨ s.system.stage = .ended) :
    t ∈ s.system.tokensAt .answered ∨ t ∈ s.system.tokensAt .dropped := by
  obtain ⟨place, hplace, -⟩ := System.existsUnique_place (h.copies_eq_one ht)
  rcases hover with hrests | hended
  · obtain ⟨hqueue, hreads, hhand⟩ := hrests.tokensAt h.idles
    cases place with
    | answered => exact Or.inl hplace
    | dropped => exact Or.inr hplace
    | inbox => exact absurd (hqueue ▸ hplace) List.not_mem_nil
    | queue => exact absurd (hreads ▸ hplace) List.not_mem_nil
    | hand => exact absurd (hhand ▸ hplace) List.not_mem_nil
  · rcases (h.parted hended).place hended hplace with rfl | rfl
    · exact Or.inl hplace
    · exact Or.inr hplace

/-- Nothing is sent before the keeper has its thread. -/
structure Staffed (sent : List Request) (s : Service S W) : Prop where
  started : s.system.status.started = true → s.running = true
  calls : ∀ call ∈ s.calls, call.FollowsStart → s.running = true
  sent : sent ≠ [] → s.running = true

theorem Staffed.call (h : s.Staffed sent) (hstep : s.callStep i = some s') :
    s'.Staffed (sent ++ s.sends i) := by
  have hcalls : ∀ {call' : Call} {running : Bool}, (s.running = true → running = true) →
      (call'.FollowsStart → running = true) → ∀ other ∈ s.calls.set i call',
        other.FollowsStart → running = true := by
    intro call' running hrunning hnew other hother hfollows
    rcases List.mem_or_eq_of_mem_set hother with hold | rfl
    · exact hrunning (h.calls other hold hfollows)
    · exact hnew hfollows
  have hat : ∀ {call : Call}, s.calls[i]? = some call → call.FollowsStart → s.running = true :=
    fun hcall => h.calls _ (List.mem_of_getElem? hcall)
  have hsent : sent ++ s.sends i ≠ [] → s.running = true := by
    intro hne
    by_cases hsends : s.sends i = []
    · rw [hsends, List.append_nil] at hne
      exact h.sent hne
    · unfold sends at hsends
      split at hsends
      · rename_i hcall
        exact hat hcall trivial
      · rename_i hcall
        exact hat hcall trivial
      · exact absurd rfl hsends
  cases acts_of_callStep hstep with
  | accepted _ haccepts =>
    have hstarted := Status.started_of_checkAccepting haccepts
    exact ⟨h.started, hcalls id fun _ => h.started hstarted, hsent⟩
  | stops _ hstarted =>
    exact ⟨h.started, hcalls id fun _ => h.started hstarted, hsent⟩
  | spawned => exact ⟨fun _ => rfl, hcalls (fun _ => rfl) fun _ => rfl, fun _ => rfl⟩
  | started hcall =>
    exact ⟨fun _ => hat hcall trivial, hcalls id nofun, hsent⟩
  | registered hcall | claimed hcall | requestedStop hcall =>
    exact ⟨h.started, hcalls id fun _ => hat hcall trivial, hsent⟩
  | refused | unencoded | unsent | sentRead | sent | got | tooLate | launches | tooEarly | reported
  | unreported | sentStop | unsentStop | joined | stopped | abandoned =>
    exact ⟨h.started, hcalls id nofun, hsent⟩

theorem staffed_of_keeperStep [Store S W] {interference : Option Interference}
    (hstep : s.keeperStep interference = some s') : s'.Staffed sent := by
  obtain ⟨hrunning, system, -, rfl⟩ := keeperStep_eq_some hstep
  exact ⟨fun _ => hrunning, fun _ _ _ => hrunning, fun _ => hrunning⟩

end

/-! ### All runs -/

section
variable [Store S W] {around : System.Surroundings S W} {interval : Duration} {lookup : Bool}
  {now clock : Instant} {opener : Opener S W} {world : W} {calls : List Call} {sent : List Request}
  {s : Service S W}

theorem Run.tracked (hfresh : Fresh calls)
    (h : Run around (.facing (.start (.new interval lookup now) opener world .empty {} clock) calls)
      sent s) : s.Tracked sent ∧ s.Staffed sent := by
  induction h with
  | first =>
    refine ⟨⟨fun t => ?_, fun _ => rfl, fun hcall => (hfresh.new _ hcall).elim, nofun,
      System.idles_of_not_working nofun⟩, nofun, fun call hcall hfollows => ?_,
      fun h => absurd rfl h⟩
    · have hcount := List.nodup_iff_count_le_one.mp hfresh.tokens t
      rw [List.count_flatMap] at hcount
      exact (Nat.zero_add _).trans_le hcount
    · have hnew := hfresh.new call hcall
      cases call with
      | asking _ | starting | stopping => exact hfollows.elim
      | _ => exact hnew.elim
  | call i _ hstep ih => exact ⟨ih.1.call hstep, ih.2.call hstep⟩
  | keeper _ _ hstep ih => exact ⟨ih.1.keeper hstep, staffed_of_keeperStep hstep⟩
  | tick _ _ ih | change _ _ _ ih =>
    exact ⟨⟨ih.1.fresh, ih.1.copies, ih.1.awaited, fun hended => (ih.1.parted hended).congr rfl rfl,
      ih.1.idles.congr rfl rfl⟩, ih.2.started, ih.2.calls, ih.2.sent⟩

/-- Every read that was sent has one outcome, whatever fails or panics, and nobody waits for good.
The keeper has an end to come to by itself: with every step it has less left to do. -/
theorem Run.one_outcome (hfresh : Fresh calls)
    (h : Run around (.facing (.start (.new interval lookup now) opener world .empty {} clock) calls)
      sent s) :
    (∀ t ∈ Request.readTokens sent, ∃! place, t ∈ s.system.tokensAt place) ∧
    (∀ place, (s.system.tokensAt place).Nodup) ∧
    (s.system.hasEnded = true → ∀ t ∈ Request.readTokens sent,
      t ∈ s.system.tokensAt .answered ∨ t ∈ s.system.tokensAt .dropped) ∧
    (∀ (i : CallId) t since, s.calls[i]? = some (.awaiting t since) →
      t ∈ Request.readTokens sent ∧ s.Waits i t) ∧
    (∀ t ∈ Request.readTokens sent, t ∉ s.system.tokensAt .answered →
      t ∉ s.system.tokensAt .dropped → (∃ s', s.keeperStep none = some s') ∧
        ∀ interference s', s.keeperStep interference = some s' → s'.toil < s.toil) := by
  obtain ⟨htracked, hstaffed⟩ := h.tracked hfresh
  have hnodup : ∀ place, (s.system.tokensAt place).Nodup := fun place =>
    List.nodup_iff_count_le_one.mpr fun t =>
      (System.count_tokensAt_le place).trans (htracked.copies_le_one t)
  refine ⟨fun t ht => System.existsUnique_place (htracked.copies_eq_one ht), hnodup,
    fun hended t ht => htracked.dealt ht (Or.inr (System.stage_of_hasEnded hended)),
    fun i t since hcall => ?_, fun t ht hanswered hdropped => ?_⟩
  · have ht := htracked.awaited (List.mem_of_getElem? hcall)
    refine ⟨ht, waits_of_place hcall (hnodup _) fun hanswered hdropped => ?_⟩
    have hplace := (System.existsUnique_place (htracked.copies_eq_one ht)).unique hanswered hdropped
    cases hplace
  · have hnot : ¬ (s.system.Rests ∨ s.system.stage = .ended) := fun hover =>
      (htracked.dealt ht hover).elim hanswered hdropped
    obtain ⟨hrests, hended⟩ := not_or.mp hnot
    obtain ⟨system, hsystem⟩ := System.exists_step hrests hended
    have hrunning : s.running = true := by
      refine hstaffed.sent fun hnil => ?_
      rw [hnil] at ht
      cases ht
    refine ⟨⟨{ s with system }, ?_⟩, fun interference s' hstep =>
      toil_keeperStep htracked.idles hrests hstep⟩
    rw [keeperStep, if_pos hrunning, hsystem]
    rfl

end

/-- Two reads that were accepted before a stop. One is answered; the other is sent when the keeper has counted
what came too late. -/
theorem Run.one_outcome_of_race :
    ∃ (sent : List Request) (s : Service MemoryStore Probe),
      Request.readTokens sent = [⟨0⟩, ⟨1⟩] ∧ s.system.hasEnded = true ∧
        s.Gets 1 (.ok (.value none)) ∧ s.Gets 2 (.error .stopRequested) ∧
        ∀ t ∈ [⟨0⟩, ⟨1⟩], ∃! place, t ∈ s.system.tokensAt place := by
  let opener : Opener MemoryStore Probe :=
    .of fun w => .ok (MemoryStore.openStore w).1 (MemoryStore.openStore w).2
  let read (number : Nat) : PendingRead := ⟨⟨number⟩, ⟨"tasks", "str", "utf8"⟩, "1"⟩
  let calls : List Call := [.starting, .asking (.ok (.read (read 0))), .asking (.ok (.read (read 1))), .stopping]
  let begun : Service MemoryStore Probe :=
    .facing (.start (.new .zero true ⟨0⟩) opener {} .empty {} ⟨0⟩) calls
  let turns : List Turn :=
    .replicate 4 (.call 0) ++ .replicate 2 (.call 1) ++ .call 2 :: .replicate 4 (.call 3) ++
      .replicate 14 .keeper ++ [.call 2, .keeper]
  have hseen : (Service.follow (fun _ => true) turns ([], begun)).map
      (fun x => (x.1, x.2.system.hasEnded, [1, 2].map fun i => (x.2.callStep i).bind (·.result? i))) =
        some ([.read (read 0), .stop, .read (read 1)], true,
          [some (.ok (.value none)), some (.error .stopRequested)]) := by decide +kernel
  obtain ⟨⟨sent, s⟩, hs, hseen⟩ := Option.map_eq_some_iff.mp hseen
  have hrun : Run ⟨fun _ _ => True, fun _ _ => True⟩ begun sent s :=
    Run.first.follow (fun _ _ => trivial) hs
  have hfresh : Fresh calls := by
    refine ⟨fun call hcall => ?_, by decide +kernel⟩
    simp only [calls, List.mem_cons, List.not_mem_nil, or_false] at hcall
    rcases hcall with rfl | rfl | rfl | rfl
    · trivial
    · exact nofun
    · exact nofun
    · trivial
  simp only [Prod.mk.injEq, List.map_cons, List.map_nil, List.cons.injEq, and_true] at hseen
  obtain ⟨rfl, hended, hanswered, hdropped⟩ := hseen
  obtain ⟨hplaces, -, -, -, -⟩ := hrun.one_outcome hfresh
  exact ⟨[.read (read 0), .stop, .read (read 1)], s, rfl, hended, Option.bind_eq_some_iff.mp hanswered,
    Option.bind_eq_some_iff.mp hdropped, hplaces⟩

end Service

end HistoryKeeper
