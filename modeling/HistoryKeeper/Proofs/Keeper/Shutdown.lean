import HistoryKeeper.Proofs.Keeper.Applied
import HistoryKeeper.Proofs.Keeper.Durable
import HistoryKeeper.Proofs.Keeper.Lifecycle

/-!
# What a stop leaves behind

`Service.Run.applied_iff_not_departed`: when a stop has returned, the store has taken the writes that
were sent before the keeper's last look into its inbox; on a disk they are in the files of their caches
(`Service.Run.kept_of_stopped`). A write can pass the check for a stop before the stop is requested and be
sent when the keeper has looked for the last time; its call returns, and the write is counted and dropped
(`Service.Run.dropped_write`).
-/

namespace HistoryKeeper.Service

variable {S W : Type}

section
variable [Store S W] {around : System.Surroundings S W} {first s s' : Service S W}
  {sent : List Request} {i j : CallId} {w : PendingWrite}

/-- A call has sent a request in the middle of a run. -/
structure Passes (around : System.Surroundings S W) (first : Service S W) (j : CallId)
    (request : Request) (ahead behind : List Request) (y s : Service S W) : Prop where
  before : Run around first ahead y
  sending : y.calls[j]? = some (.sending request)
  sent : y.sends j = [request]
  after : ∃ y', y.callStep j = some y' ∧ Run around y' behind s

/-- How far the call of a write has come in a run. -/
inductive Writes (around : System.Surroundings S W) (first : Service S W) (j : CallId)
    (w : PendingWrite) (sent : List Request) (s : Service S W) : Prop
  | asking : s.calls[j]? = some (.asking (.ok (.write w))) → Writes around first j w sent s
  | sending : s.calls[j]? = some (.sending (.write w)) → Writes around first j w sent s
  | refused {e} : s.calls[j]? = some (.returned (.error e)) → Writes around first j w sent s
  | done {ahead behind y} : s.calls[j]? = some (.returned (.ok .done)) →
      sent = ahead ++ .write w :: behind → Passes around first j (.write w) ahead behind y s →
      Writes around first j w sent s

theorem Writes.map {sent' : List Request} (h : Writes around first j w sent s)
    (hcalls : s'.calls[j]? = s.calls[j]?)
    (hrun : ∀ {x behind}, Run around x behind s → ∃ later, sent' = sent ++ later ∧
      Run around x (behind ++ later) s') : Writes around first j w sent' s' := by
  cases h with
  | asking h => exact .asking (hcalls.trans h)
  | sending h => exact .sending (hcalls.trans h)
  | refused h => exact .refused (hcalls.trans h)
  | done h hsent hpasses =>
    obtain ⟨y', hstep, hafter⟩ := hpasses.after
    obtain ⟨later, hlater, hon⟩ := hrun hafter
    refine .done (hcalls.trans h) ?_ ⟨hpasses.before, hpasses.sending, hpasses.sent, y', hstep, hon⟩
    rw [hlater, hsent]
    exact List.append_assoc ..

theorem Writes.call (hrun : Run around first sent s) (h : Writes around first j w sent s)
    (hstep : s.callStep i = some s') : Writes around first j w (sent ++ s.sends i) s' := by
  obtain ⟨call, call', hcall, hcalls, -, -⟩ := calls_callStep hstep
  by_cases hij : i = j
  · subst hij
    have hown : ∀ {call}, s'.calls = s.calls.set i call → s'.calls[i]? = some call := by
      intro call hset
      obtain ⟨hi, -⟩ := List.getElem?_eq_some_iff.mp hcall
      rw [hset, List.getElem?_set_self hi]
    cases h with
    | asking h =>
      cases acts_of_callStep hstep with
      | refused => exact .refused (hown rfl)
      | accepted hasking =>
        rw [h] at hasking
        cases hasking
        exact .sending (hown rfl)
      | _ hother =>
        rw [h] at hother
        cases hother
    | sending h =>
      have hself := hstep
      cases acts_of_callStep hstep with
      | unsent => exact .refused (hown rfl)
      | @sent request inbox hsending _ hsend =>
        rw [h] at hsending
        cases hsending
        have hsends := sends_sending h hsend
        refine .done (hown rfl) ?_ ⟨hrun, h, hsends, _, hself, .first⟩
        rw [hsends]
      | _ hother =>
        rw [h] at hother
        cases hother
    | refused h | done h =>
      unfold callStep at hstep
      rw [h] at hstep
      cases hstep
  · refine h.map ?_ fun hafter => ⟨_, rfl, hafter.call i hstep⟩
    rw [hcalls, List.getElem?_set_ne hij]

theorem Run.writes (hrun : Run around first sent s)
    (hcall : first.calls[j]? = some (.asking (.ok (.write w)))) :
    Writes around first j w sent s := by
  induction hrun with
  | first => exact .asking hcall
  | call i hrun hstep ih => exact ih.call hrun hstep
  | keeper hrun hsteps hstep ih =>
    obtain ⟨-, system, -, rfl⟩ := keeperStep_eq_some hstep
    exact ih.map rfl fun h => ⟨[], by simp, by simpa using h.keeper hsteps hstep⟩
  | tick nanos hrun ih => exact ih.map rfl fun h => ⟨[], by simp, by simpa using h.tick nanos⟩
  | change world hrun hchange ih =>
    exact ih.map rfl fun h => ⟨[], by simp, by simpa using h.change world hchange⟩

end

section
variable [Store S W] {around : System.Surroundings S W} {first s s' : Service S W}
  {sent : List Request} {i j : CallId} {request : Request} {ahead behind : List Request}

theorem Run.hasSenders (hfirst : first.system.inbox.hasSenders = true)
    (hrun : Run around first sent s) : s.system.inbox.hasSenders = true := by
  induction hrun with
  | first => exact hfirst
  | call i _ hstep ih =>
    rcases system_callStep hstep with ⟨-, status, startedAt, hsystem⟩ | ⟨request, -, hsend⟩
    · rw [hsystem]
      exact ih
    · obtain ⟨inbox, hinbox, hsystem⟩ := Option.map_eq_some_iff.mp hsend
      unfold Inbox.send at hinbox
      split at hinbox
      · cases hinbox
        rw [← hsystem]
        exact ih
      · cases hinbox
  | keeper _ _ hstep ih =>
    obtain ⟨-, system, hsystem, rfl⟩ := keeperStep_eq_some hstep
    exact (System.inbox_step hsystem).2.trans ih
  | tick _ _ ih | change _ _ _ ih => exact ih

/-- A keeper that nobody has asked to stop does not depart, unless it fails. -/
theorem Run.not_departed (hstart : System.Ledger [] [] first.system) (hopening : ¬ first.system.Departed)
    (hheard : first.system.Heard []) (hsenders : first.system.inbox.hasSenders = true)
    (hrun : Run around first sent s) (hstop : .stop ∉ sent) (hfails : ¬ s.system.Fails) :
    ¬ s.system.Departed := by
  intro hgone
  have hwell := hrun.system.stopRequested_of_departed hstart hopening hgone hfails
  rcases (hrun.system.heard hheard).stop hwell with hsent | hgone
  · exact hstop hsent
  · rw [hrun.hasSenders hsenders] at hgone
    cases hgone

end

section
variable [Store S W] {around : System.Surroundings S W} {opener : Opener S W} {world : W}
  {interval : Duration} {lookup : Bool} {now clock : Instant} {calls : List Call} {sent : List Request}
  {i : CallId} {summary : Summary} {first s : Service S W}

theorem Passes.applied_iff {j : CallId} {w : PendingWrite} {ahead behind : List Request}
    {y : Service S W} (hstart : System.Ledger [] [] first.system) (hopening : ¬ first.system.Departed)
    (hheard : first.system.Heard []) (hsenders : first.system.inbox.hasSenders = true)
    (hpasses : Passes around first j (.write w) ahead behind y s)
    (hended : s.system.stage = .ended) (hlog : s.system.log = []) :
    ((Request.writes ahead).length < s.system.keeper.tally.writesApplied ↔ ¬ y.system.Departed) ∧
      (.stop ∉ ahead → ¬ y.system.Departed) := by
  obtain ⟨y', hstep, hrest⟩ := hpasses.after
  have hbefore := hpasses.before.system
  have hsend : Run around y [.write w] y' := by
    have hsends : Run around y ([] ++ y.sends j) y' := Run.first.call j hstep
    rw [hpasses.sent] at hsends
    exact hsends
  have hafter := (hsend.trans hrest).system
  have hfails : ¬ s.system.Fails := System.not_fails_of_cause hlog (by rw [System.cause?, hended])
  have hnever : ¬ y.system.Fails := fun h => hfails (hafter.fails h)
  have hdeparted : s.system.Departed := by
    unfold System.Departed
    rw [hended]
    trivial
  refine ⟨⟨fun hlt hgone => ?_, fun hnot => ?_⟩, fun hstop =>
    hpasses.before.not_departed hstart hopening hheard hsenders hstop hnever⟩
  · obtain ⟨ws, happlied⟩ := hbefore.applied
    have hledger := happlied.ledger hstart hnever
    rw [(hafter.applied_of_departed hgone).2, hledger.count] at hlt
    exact absurd hledger.applied.length_le (Nat.not_le.mpr hlt)
  · have hnot' : ¬ y'.system.Departed := by
      rcases system_callStep hstep with ⟨-, status, startedAt, hsystem⟩ | ⟨request, -, hsend⟩
      · rw [hsystem]
        exact hnot
      · obtain ⟨inbox, -, hsystem⟩ := Option.map_eq_some_iff.mp hsend
        rw [← hsystem]
        exact hnot
    have hpassed := (hpasses.before.trans hsend).system
    obtain ⟨hcount, -⟩ := hpassed.applied_of_not_departed hstart hnot' hrest.system hdeparted hfails
    rw [Request.writes_append, List.length_append] at hcount
    exact hcount

/-- Once a stop has returned the summary of a run without a failure, the store has taken the first writes
that were sent, as many as the summary counts, and no others. A write whose call has returned is one of
them if and only if it was sent before the keeper's last look into the inbox, and so if it was sent before
a stop. -/
theorem Run.applied_iff_not_departed {start : System S W}
    (hstart : start = .start (.new interval lookup now) opener world .empty {} clock)
    (hnew : ∀ call ∈ calls, call.IsNew) (hrun : Run around (.facing start calls) sent s)
    (hstop : s.calls[i]? = some (.returned (.ok (.summary summary))))
    (hfailed : summary.failed = false) :
    (∀ ws, System.Applied around start sent ws s.system ↔
      ws = (Request.writes sent).take summary.writesApplied) ∧
    ∀ (j : CallId) w, calls[j]? = some (.asking (.ok (.write w))) →
      s.calls[j]? = some (.returned (.ok .done)) → ∃ ahead behind y,
        sent = ahead ++ .write w :: behind ∧
        Passes around (.facing start calls) j (.write w) ahead behind y s ∧
        ((Request.writes ahead).length < summary.writesApplied ↔ ¬ y.system.Departed) ∧
        (.stop ∉ ahead → ¬ y.system.Departed) := by
  subst hstart
  have htold : (System.start (.new interval lookup now) opener world .empty {} clock).Told :=
    ⟨rfl, nofun⟩
  have hledger : System.Ledger [] [] (.start (.new interval lookup now) opener world .empty {} clock) :=
    System.ledger_start rfl rfl
  obtain ⟨hended, htells⟩ := (hrun.lifecycle hnew rfl htold).summary hstop
  have hlog := htells.log.mp hfailed
  have hfails : ¬ s.system.Fails := System.not_fails_of_cause hlog (by rw [System.cause?, hended])
  have htaken : ∀ ws, System.Applied around
      (.start (.new interval lookup now) opener world .empty {} clock) sent ws s.system →
        ws = (Request.writes sent).take summary.writesApplied := fun ws happlied =>
    htells.writesApplied ▸ (happlied.ledger hledger hfails).eq_take
  refine ⟨fun ws => ⟨htaken ws, ?_⟩, fun j w hcall hdone => ?_⟩
  · rintro rfl
    obtain ⟨ws, happlied⟩ := hrun.system.applied
    exact htaken ws happlied ▸ happlied
  · cases hrun.writes hcall with
    | asking h | sending h | refused h =>
      rw [h] at hdone
      cases hdone
    | done _ hsent hpasses =>
      refine ⟨_, _, _, hsent, hpasses, ?_⟩
      rw [htells.writesApplied]
      exact hpasses.applied_iff hledger id (System.heard_start rfl) rfl hended hlog

end

section
open CacheFile (kept)
open FileStore (DistinctFiles)
open HistoryKeeper.System (undisturbed)

variable {names : String → Prop} {dir : Path} {timeout interval : Duration} {lookup : Bool}
  {now clock : Instant} {d : Disk} {calls : List Call} {sent : List Request} {i : CallId}
  {summary : Summary} {s : Service FileStore Disk}

theorem Run.kept_of_stopped (hfiles : DistinctFiles dir names d) (hnew : ∀ call ∈ calls, call.IsNew)
    (hrun : Run undisturbed (.facing (.start (.new interval lookup now)
      (.of (FileStore.openStore dir timeout)) d .empty {} clock) calls) sent s)
    (hnamed : ∀ r ∈ sent, r.Names names)
    (hstop : s.calls[i]? = some (.returned (.ok (.summary summary))))
    (hfailed : summary.failed = false) :
    ∀ name, names name → kept (cachePath dir name) s.system.world =
      PendingWrite.contentAfter (fun name => kept (cachePath dir name) d)
        ((Request.writes sent).take summary.writesApplied) name := by
  have htold : (System.start (.new interval lookup now) (.of (FileStore.openStore dir timeout)) d
      .empty {} clock).Told := ⟨rfl, nofun⟩
  have hstart : System.ConsistentOn dir names d [] (.start (.new interval lookup now)
      (.of (FileStore.openStore dir timeout)) d .empty {} clock) :=
    System.consistentOn_start hfiles
  obtain ⟨hended, htells⟩ := (hrun.lifecycle hnew rfl htold).summary hstop
  have hlog := htells.log.mp hfailed
  have hsaved := hrun.system.saved_of_ended hstart rfl rfl hnamed hended (by simp [hlog])
  exact htells.writesApplied ▸ hsaved

/-! ### A race -/

/-- A write from before the stop, and one that is sent after the keeper's last look. -/
theorem race :
    let early : PendingWrite := ⟨⟨"tasks", "str", "utf8"⟩, "1", .put [97]⟩
    let late : PendingWrite := ⟨⟨"tasks", "str", "utf8"⟩, "2", .put [98]⟩
    ∃ (s : Service FileStore Disk) (summary : Summary),
      Run undisturbed (.facing (.start (.new .zero true ⟨0⟩)
        (.of (FileStore.openStore ⟨"store"⟩ .zero)) (.empty ["home"] 1) .empty {} ⟨0⟩)
          [.starting, .asking (.ok (.write early)), .asking (.ok (.write late)), .stopping])
        [.write early, .stop, .write late] s ∧
      s.result? 1 = some (.ok .done) ∧ s.result? 2 = some (.ok .done) ∧
      s.result? 3 = some (.ok (.summary summary)) ∧ summary.failed = false ∧
      summary.writesApplied = 1 ∧ summary.outstandingWrites = 1 ∧
      kept (cachePath ⟨"store"⟩ "tasks") s.system.world = .ok [("1", [97])] := by
  intro early late
  let first : Service FileStore Disk :=
    .facing (.start (.new .zero true ⟨0⟩) (.of (FileStore.openStore ⟨"store"⟩ .zero))
      (.empty ["home"] 1) .empty {} ⟨0⟩)
        [.starting, .asking (.ok (.write early)), .asking (.ok (.write late)), .stopping]
  let turns : List Turn :=
    .replicate 4 (.call 0) ++ .replicate 2 (.call 1) ++ .call 2 :: .replicate 4 (.call 3) ++
      .replicate 11 .keeper ++ .call 2 :: .replicate 5 .keeper ++ .replicate 2 (.call 3)
  have hseen : (follow (·.writesBack none) turns ([], first)).map (fun x =>
      decide (x.1 = [.write early, .stop, .write late]) &&
        decide (x.2.result? 1 = some (.ok .done)) && decide (x.2.result? 2 = some (.ok .done)) &&
        x.2.system.status.summary.any (fun t => x.2.result? 3 =
          some (.ok (.summary { t with blockedReads := x.2.system.status.blocked })) &&
            !t.failed && t.writesApplied = 1 && t.outstandingWrites = 1) &&
        decide (kept (cachePath ⟨"store"⟩ "tasks") x.2.system.world = .ok [("1", [97])])) =
      some true := by decide +kernel
  obtain ⟨⟨sent, s⟩, hs, hseen⟩ := Option.map_eq_some_iff.mp hseen
  have hrun : Run undisturbed first sent s := Run.first.follow (fun _ h => h) hs
  simp only [Bool.and_eq_true, decide_eq_true_eq] at hseen
  obtain ⟨⟨⟨⟨rfl, hearly⟩, hlate⟩, hstop⟩, hkept⟩ := hseen
  obtain ⟨told, -, htold⟩ := Option.any_eq_true .. |>.mp hstop
  simp only [Bool.and_eq_true, Bool.not_eq_true', decide_eq_true_eq] at htold
  obtain ⟨⟨⟨hsummary, hfailed⟩, happlied⟩, houtstanding⟩ := htold
  exact ⟨s, _, hrun, hearly, hlate, hsummary, hfailed, happlied, houtstanding, hkept⟩

/-- Not every write whose call has returned is applied when a stop has returned. -/
theorem Run.dropped_write :
    ¬ ∀ (calls : List Call) (sent : List Request) (s : Service FileStore Disk) (i j : CallId)
        (summary : Summary) (w : PendingWrite),
      Run undisturbed (.facing (.start (.new .zero true ⟨0⟩)
        (.of (FileStore.openStore ⟨"store"⟩ .zero)) (.empty ["home"] 1) .empty {} ⟨0⟩) calls) sent s →
      s.calls[i]? = some (.returned (.ok (.summary summary))) → summary.failed = false →
      calls[j]? = some (.asking (.ok (.write w))) → s.calls[j]? = some (.returned (.ok .done)) →
      w.cache.name = "tasks" → (∀ other ∈ Request.writes sent, other.key = w.key → other = w) →
      ∃ entries, kept (cachePath ⟨"store"⟩ "tasks") s.system.world = .ok entries ∧
        entries.get? w.key = w.visibleValue := by
  intro h
  obtain ⟨s, summary, hrun, -, hlate, hstop, hfailed, -, -, hkept⟩ := race
  obtain ⟨entries, hentries, hvalue⟩ := h _ _ s 3 2 summary _ hrun (result?_eq_some_iff.mp hstop) hfailed
    rfl (result?_eq_some_iff.mp hlate) rfl (by decide)
  rw [hkept] at hentries
  cases hentries
  cases hvalue

/-- In such a race, the early write is sent before the last look, and the late one after it. -/
theorem Run.applied_iff_not_departed_of_race :
    let early : PendingWrite := ⟨⟨"tasks", "str", "utf8"⟩, "1", .put [97]⟩
    let late : PendingWrite := ⟨⟨"tasks", "str", "utf8"⟩, "2", .put [98]⟩
    ∃ s y z : Service FileStore Disk,
      System.Applied undisturbed (.start (.new .zero true ⟨0⟩)
        (.of (FileStore.openStore ⟨"store"⟩ .zero)) (.empty ["home"] 1) .empty {} ⟨0⟩)
          [.write early, .stop, .write late] [early] s.system ∧
        y.calls[1]? = some (.sending (.write early)) ∧ ¬ y.system.Departed ∧
        z.calls[2]? = some (.sending (.write late)) ∧ z.system.Departed := by
  intro early late
  obtain ⟨s, summary, hrun, hearly, hlate, hstop, hfailed, hcount, -, -⟩ := race
  have hnew : ∀ call ∈ [Call.starting, .asking (.ok (.write early)), .asking (.ok (.write late)),
      .stopping], call.IsNew := by
    intro call hcall
    simp only [List.mem_cons, List.not_mem_nil, or_false] at hcall
    rcases hcall with rfl | rfl | rfl | rfl
    · trivial
    · exact nofun
    · exact nofun
    · trivial
  obtain ⟨happlied, hwrites⟩ := hrun.applied_iff_not_departed rfl hnew
    (result?_eq_some_iff.mp hstop) hfailed
  obtain ⟨ahead, behind, y, hsent, hy, hearlier, -⟩ := hwrites 1 early rfl (result?_eq_some_iff.mp hearly)
  obtain ⟨ahead', behind', z, hsent', hz, hlater, -⟩ :=
    hwrites 2 late rfl (result?_eq_some_iff.mp hlate)
  rw [hcount] at happlied hearlier hlater
  refine ⟨s, y, z, (happlied _).mpr rfl, hy.sending, hearlier.mp ?_, hz.sending, ?_⟩
  · rcases ahead with _ | ⟨a, _ | ⟨b, _ | ⟨c, rest⟩⟩⟩
    · exact Nat.zero_lt_one
    all_goals simp [early] at hsent
  · have hahead : ahead' = [.write early, .stop] := by
      rcases ahead' with _ | ⟨a, _ | ⟨b, _ | ⟨c, rest⟩⟩⟩
      · simp [late] at hsent'
      · simp at hsent'
      · simp only [List.cons_append, List.nil_append, List.cons.injEq] at hsent'
        rw [← hsent'.1, ← hsent'.2.1]
      · simp at hsent'
    rw [hahead] at hlater
    exact not_not.mp fun hnot => absurd (hlater.mpr hnot) (by decide)

end

end HistoryKeeper.Service
