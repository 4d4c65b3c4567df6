import HistoryKeeper.CommandLine.Run
import HistoryKeeper.Proofs.Keeper.InTurn

/-!
# Executions of the program

While the main thread makes a call, or sleeps, the call and the keeper act in any order, time passes and the
keeper idles (`Service.Run`); when the call has returned, the main thread goes on (`Execution`). To see a
process through is one of its executions, and a command with one request comes to its end from wherever it
is (`Execution.exits`), having made three calls (`Invocation.Course`).
-/

namespace HistoryKeeper.CommandLine

open HistoryKeeper.Service (InTurn Fresh facing)

/-- A process that has come to its end is seen through. -/
theorem Process.seeThrough_of_exiting {p : Process} {code : Nat} {stdout stderr : String}
    (hthread : p.thread = .exiting code stdout stderr) : p.seeThrough = p := by
  obtain ⟨thread, service⟩ := p
  cases hthread
  rfl

/-- What can happen to a process. -/
inductive Execution (around : System.Surroundings FileStore Disk) (begun : Process) : Process → Prop
  | first : Execution around begun begun
  | acts {p sent service} : Execution around begun p → Service.Run around p.service sent service →
      Execution around begun { p with service }
  | returned {p call next result} : Execution around begun p → p.thread = .calling call next →
      p.service.result? (Process.lastCall p.service) = some result →
      Execution around begun (.begin (next result) p.service)
  | awoke {p time next} : Execution around begun p → p.thread = .sleeping time next →
      Execution around begun (.begin next p.service)

namespace Invocation

variable {i : Invocation} {settings : Settings} {cache : String} {d : Disk}
  {around : System.Surroundings FileStore Disk} {p : Process} {opener : Opener FileStore Disk}
  {interval : Duration} {lookup : Bool} {now clock : Instant}
  {request : Except CodecError Request} {report : Except CacheError Reply → Report}

theorem asking_eq (hstart : canStart settings = true) (request : TextHandle → Except CodecError Request)
    (report : Except CacheError Reply → Report) : i.asking settings cache request report =
      .calling .starting (i.started
        (.calling (.asking (request ⟨Handle.requested cache .keyText .utf8⟩)) fun result =>
          i.closing (report result))) := by
  have hdeclare : Handle.declare [] cache .keyText .utf8 =
      .ok (⟨Handle.requested cache .keyText .utf8⟩, [(cache, Handle.requested cache .keyText .utf8)]) := rfl
  unfold asking starting
  rw [hdeclare]
  exact if_pos hstart

theorem exiting_closed (i : Invocation) (report : Report) (stopped : Except CacheError Reply) :
    ∃ code stdout stderr, i.closed report stopped = .exiting code stdout stderr := by
  rcases report with e | ⟨stdout, code⟩
  · exact ⟨_, _, _, rfl⟩
  · rcases stopped with e | reply
    · exact ⟨_, _, _, rfl⟩
    · cases reply with
      | summary summary =>
        unfold closed
        dsimp only
        split <;> exact ⟨_, _, _, rfl⟩
      | _ => exact ⟨_, _, _, rfl⟩

theorem begin_closed (i : Invocation) (report : Report) (stopped : Except CacheError Reply)
    (s : Service FileStore Disk) :
    Process.begin (i.closed report stopped) s = ⟨i.closed report stopped, s⟩ := by
  obtain ⟨code, stdout, stderr, hexiting⟩ := i.exiting_closed report stopped
  rw [hexiting]
  exact congrArg (fun calls => Process.mk _ { s with calls }) (List.append_nil _)

/-- How far a command with one request has come. -/
inductive Course (i : Invocation) (around : System.Surroundings FileStore Disk) (start : System FileStore Disk)
    (request : Except CodecError Request) (report : Except CacheError Reply → Report) (p : Process) : Prop
  | starting : p.thread = .calling .starting (i.started
        (.calling (.asking request) fun result => i.closing (report result))) →
      InTurn around start [.starting] p.service → Course i around start request report p
  | asking : p.thread = .calling (.asking request) (fun result => i.closing (report result)) →
      InTurn around start [.asking request, .starting] p.service → Course i around start request report p
  | stopping {result} : p.thread = i.closing (report result) → p.service.result? 1 = some result →
      InTurn around start [.stopping, .asking request, .starting] p.service →
      Course i around start request report p
  | exiting {result stopped} : p.thread = i.closed (report result) stopped →
      p.service.result? 1 = some result → p.service.result? 2 = some stopped →
      InTurn around start [.stopping, .asking request, .starting] p.service →
      Course i around start request report p

theorem Course.acts {start : System FileStore Disk} {sent : List Request} {service : Service FileStore Disk}
    (h : Course i around start request report p) (hrun : Service.Run around p.service sent service) :
    Course i around start request report { p with service } := by
  cases h with
  | starting hthread hturn => exact .starting hthread (hturn.goesOn hrun)
  | asking hthread hturn => exact .asking hthread (hturn.goesOn hrun)
  | stopping hthread hresult hturn => exact .stopping hthread (hrun.result?_eq hresult) (hturn.goesOn hrun)
  | exiting hthread hresult hstopped hturn =>
    exact .exiting hthread (hrun.result?_eq hresult) (hrun.result?_eq hstopped) (hturn.goesOn hrun)

theorem Course.returned {call : Call} {next : Except CacheError Reply → Thread}
    {result : Except CacheError Reply}
    (h : Course i around (.start (.new interval lookup now) opener d .empty {} clock) request report p)
    (hthread : p.thread = .calling call next)
    (hresult : p.service.result? (Process.lastCall p.service) = some result) :
    Course i around (.start (.new interval lookup now) opener d .empty {} clock) request report
      (.begin (next result) p.service) := by
  have hlast : ∀ {calls}, InTurn around (.start (.new interval lookup now) opener d .empty {} clock) calls
      p.service → p.service.result? (calls.length - 1) = some result := by
    intro calls hturn
    rw [← hturn.length_calls]
    exact hresult
  cases h with
  | starting h hturn =>
    cases hthread.symm.trans h
    obtain ⟨sent, hrun⟩ := hturn.run
    obtain rfl := hrun.start_succeeds (hlast hturn)
    exact .asking rfl (hturn.andThen (hlast hturn) _)
  | asking h hturn =>
    cases hthread.symm.trans h
    have hearlier : (p.service.andThen [.stopping]).result? 1 = some result := by
      rw [Service.result?_andThen (by rw [hturn.length_calls]; exact Nat.lt_succ_self 1)]
      exact hlast hturn
    exact .stopping rfl hearlier (hturn.andThen (hlast hturn) _)
  | stopping h hearlier hturn =>
    cases hthread.symm.trans h
    rw [begin_closed]
    exact .exiting rfl hearlier (hlast hturn) hturn
  | @exiting result stopped h =>
    obtain ⟨code, stdout, stderr, hexiting⟩ := i.exiting_closed (report result) stopped
    rw [h, hexiting] at hthread
    cases hthread

theorem fresh_calls (hrequest : request ≠ .ok .stop) : Fresh [.starting, .asking request, .stopping] := by
  refine ⟨fun call hcall => ?_, ?_⟩
  · simp only [List.mem_cons, List.not_mem_nil, or_false] at hcall
    rcases hcall with rfl | rfl | rfl
    · trivial
    · exact hrequest
    · trivial
  · rw [List.flatMap_cons, List.flatMap_cons, List.flatMap_cons]
    rcases request with e | read | write | stop <;> simp [Call.unsent]

end Invocation

namespace Execution

open Invocation (exiting_closed)

variable {i : Invocation} {d : Disk} {around : System.Surroundings FileStore Disk} {begun p : Process}
  {opener : Opener FileStore Disk} {interval : Duration} {lookup : Bool} {now clock : Instant}
  {request : Except CodecError Request} {report : Except CacheError Reply → Invocation.Report}
  {start : System FileStore Disk}

/-- How far a process has come that begins with the start of its keeper. -/
theorem course (hstart : start = .start (.new interval lookup now) opener d .empty {} clock)
    (hthread : begun.thread = .calling .starting (i.started
      (.calling (.asking request) fun result => i.closing (report result))))
    (hservice : begun.service = facing start [.starting]) (h : Execution around begun p) :
    i.Course around start request report p := by
  induction h with
  | first =>
    refine .starting hthread ?_
    rw [hservice]
    exact .next _ .none nofun .first
  | acts _ hrun ih => exact ih.acts hrun
  | returned _ hcalling hresult ih =>
    subst hstart
    exact ih.returned hcalling hresult
  | awoke _ hsleeping ih =>
    cases ih with
    | starting h | asking h | stopping h => cases hsleeping.symm.trans h
    | @exiting result stopped h =>
      obtain ⟨code, stdout, stderr, hexiting⟩ := i.exiting_closed (report result) stopped
      rw [h, hexiting] at hsleeping
      cases hsleeping

/-- Seen through, the process exits, and that is one of its executions. -/
def Exits (around : System.Surroundings FileStore Disk) (begun p : Process) : Prop :=
  Execution around begun p.seeThrough ∧
    ∃ code stdout stderr, p.seeThrough.thread = .exiting code stdout stderr

theorem exits_of_exiting {code : Nat} {stdout stderr : String} (h : Execution around begun p)
    (hthread : p.thread = .exiting code stdout stderr) : Exits around begun p := by
  unfold Exits
  rw [Process.seeThrough_of_exiting hthread]
  exact ⟨h, code, stdout, stderr, hthread⟩

/-- A call that is made in turn returns, and the main thread goes on. -/
theorem exits_of_calling (hstart : start = .start (.new interval lookup now) opener d .empty {} clock)
    (hquiet : ∀ s, around.steps s none) {call made : Call} {earlier : List Call}
    {next : Except CacheError Reply → Thread} (h : Execution around begun p)
    (hthread : p.thread = .calling call next) (hturn : InTurn around start (made :: earlier) p.service)
    (hfresh : Fresh (made :: earlier).reverse)
    (hnext : ∀ result service, InTurn around start (made :: earlier) service →
      service.result? earlier.length = some result → Execution around begun (.begin (next result) service) →
      Exits around begun (.begin (next result) service)) :
    Exits around begun p := by
  subst hstart
  obtain ⟨sent, hrun⟩ := hturn.run
  have hlast : Process.lastCall p.service = earlier.length := by
    unfold Process.lastCall
    rw [hturn.length_calls]
    rfl
  have htoil := Service.toil_le_effort_of_alone hturn.alone
  obtain ⟨later, result, hlater, hresult⟩ := hrun.completes hquiet hfresh hturn.alone htoil
  have hsame : p.seeThrough = (Process.begin (next result)
      (p.service.completeWithin (p.service.effort + 16) earlier.length)).seeThrough := by
    unfold Process.seeThrough
    rw [hthread, Process.finish]
    simp only [hlast, hresult]
    rfl
  generalize p.service.completeWithin (p.service.effort + 16) earlier.length = service
    at hlater hresult hsame
  have hreturned : service.result? (Process.lastCall service) = some result := by
    unfold Process.lastCall at hlast ⊢
    rw [hlater.length_calls, hlast]
    exact hresult
  unfold Exits
  rw [hsame]
  exact hnext result service (hturn.goesOn hlater) hresult ((h.acts hlater).returned hthread hreturned)

/-- A command with one request comes to its end, in three calls. -/
theorem exits (hstart : start = .start (.new interval lookup now) opener d .empty {} clock)
    (hquiet : ∀ s, around.steps s none) (hrequest : request ≠ .ok .stop)
    (hthread : begun.thread = .calling .starting (i.started
      (.calling (.asking request) fun result => i.closing (report result))))
    (hservice : begun.service = facing start [.starting]) (h : Execution around begun p) :
    Exits around begun p := by
  have hfresh := Invocation.fresh_calls hrequest
  have hexiting : ∀ {q report stopped}, Execution around begun q → q.thread = i.closed report stopped →
      Exits around begun q := by
    intro q report stopped h hthread
    obtain ⟨code, stdout, stderr, hclosed⟩ := i.exiting_closed report stopped
    exact exits_of_exiting h (hthread.trans hclosed)
  have hstopping : ∀ {q result}, Execution around begun q → q.thread = i.closing (report result) →
      InTurn around start [.stopping, .asking request, .starting] q.service → Exits around begun q := by
    intro q result h hthread hturn
    exact exits_of_calling hstart hquiet h hthread hturn hfresh fun _ _ _ _ h => hexiting h rfl
  have hasking : ∀ {q}, Execution around begun q →
      q.thread = .calling (.asking request) (fun result => i.closing (report result)) →
      InTurn around start [.asking request, .starting] q.service → Exits around begun q := by
    intro q h hthread hturn
    exact exits_of_calling hstart hquiet h hthread hturn (hfresh.of_prefix ⟨[.stopping], rfl⟩)
      fun _ _ hturn hresult h => hstopping h rfl (hturn.andThen hresult _)
  cases h.course hstart hthread hservice with
  | starting hthread hturn =>
    refine exits_of_calling hstart hquiet h hthread hturn (hfresh.of_prefix ⟨_, rfl⟩) ?_
    intro result service hturn hresult h
    obtain ⟨sent, hrun⟩ := hturn.run
    obtain rfl : result = .ok .done := by
      subst hstart
      exact hrun.start_succeeds hresult
    exact hasking h rfl (hturn.andThen hresult _)
  | asking hthread hturn => exact hasking h hthread hturn
  | stopping hthread _ hturn => exact hstopping h hthread hturn
  | exiting hthread => exact hexiting h hthread

/-- Seen through, the command has been stopped after its request. -/
theorem concluded (hstart : start = .start (.new interval lookup now) opener d .empty {} clock)
    (hquiet : ∀ s, around.steps s none) (hrequest : request ≠ .ok .stop)
    (hthread : begun.thread = .calling .starting (i.started
      (.calling (.asking request) fun result => i.closing (report result))))
    (hservice : begun.service = facing start [.starting]) (h : Execution around begun p) :
    ∃ result stopped, p.seeThrough.thread = i.closed (report result) stopped ∧
      p.seeThrough.service.result? 1 = some result ∧ p.seeThrough.service.result? 2 = some stopped ∧
      InTurn around start [.stopping, .asking request, .starting] p.seeThrough.service := by
  obtain ⟨hseen, code, stdout, stderr, hexits⟩ := h.exits hstart hquiet hrequest hthread hservice
  cases hseen.course hstart hthread hservice with
  | starting hthread | asking hthread | stopping hthread => cases hexits.symm.trans hthread
  | exiting hthread hresult hstopped hturn => exact ⟨_, _, hthread, hresult, hstopped, hturn⟩

theorem idle_of_run {first service : Service FileStore Disk} {sent : List Request}
    (hothers : ∀ w w', ¬ around.others w w') (hcalls : first.calls = []) (hrunning : first.running = false)
    (h : Service.Run around first sent service) : service.calls = [] ∧ service.running = false ∧
      service.system.world = first.system.world := by
  induction h with
  | first => exact ⟨hcalls, hrunning, rfl⟩
  | call i _ hstep ih =>
    have hlt := Service.lt_of_callStep hstep
    rw [ih.1] at hlt
    exact absurd hlt (Nat.not_lt_zero i)
  | keeper _ _ hstep ih =>
    obtain ⟨hruns, -⟩ := Service.keeperStep_eq_some hstep
    cases hruns.symm.trans ih.2.1
  | tick _ _ ih => exact ih
  | change _ _ hchange => exact absurd hchange (hothers _ _)

/-- A process without a keeper that exits does nothing any more. -/
theorem of_exiting {code : Nat} {stdout stderr : String} (hothers : ∀ w w', ¬ around.others w w')
    (hthread : begun.thread = .exiting code stdout stderr) (hcalls : begun.service.calls = [])
    (hrunning : begun.service.running = false) (h : Execution around begun p) :
    p.seeThrough.outcome? = some ⟨code, stdout, stderr, begun.service.system.world⟩ := by
  have hidle : p.thread = begun.thread ∧ p.service.calls = [] ∧ p.service.running = false ∧
      p.service.system.world = begun.service.system.world := by
    induction h with
    | first => exact ⟨rfl, hcalls, hrunning, rfl⟩
    | acts _ hrun ih =>
      obtain ⟨hsame, hnone, hnot, hworld⟩ := ih
      obtain ⟨hnone', hnot', hworld'⟩ := idle_of_run hothers hnone hnot hrun
      exact ⟨hsame, hnone', hnot', hworld'.trans hworld⟩
    | returned _ hcalling _ ih => cases hcalling.symm.trans (ih.1.trans hthread)
    | awoke _ hsleeping ih => cases hsleeping.symm.trans (ih.1.trans hthread)
  obtain ⟨thread, service⟩ := p
  obtain ⟨hsame, -, -, hworld⟩ := hidle
  obtain rfl : thread = _ := hsame.trans hthread
  rw [← hworld]
  rfl

end Execution

end HistoryKeeper.CommandLine
