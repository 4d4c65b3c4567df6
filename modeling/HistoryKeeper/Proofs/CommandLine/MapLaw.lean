import HistoryKeeper.CommandLine.Run
import HistoryKeeper.Proofs.Codec.RoundTrip
import HistoryKeeper.Proofs.CommandLine.Execution
import HistoryKeeper.Proofs.Config.Validated
import HistoryKeeper.Proofs.Keeper.SoleUser

/-!
# Commands as operations on a map

In whatever order the main thread and the keeper act, and whatever fails, a command with `put` or `remove`
comes to its end; its code tells whether the change is found afterwards, and everything else is found as
before (`Execution.of_write`). A command with `get` shows what is found, however often its keeper gives up
the lock before the request comes (`Execution.of_get`). So the directory of a store is a map with these
operations (`write_then_get`); `run` is the outcome of one execution (`run_eq`). A process that has come to
its end by itself is the one that it is seen through to (`Process.seeThrough_of_exiting`).
-/

namespace HistoryKeeper.CommandLine

open FileStore (found openStore)
open HistoryKeeper.Service (InTurn facing)
open Invocation (Report canStart)

variable {i j : Invocation} {environment : Option String} {settings settings' : Settings} {d : Disk}
  {cache key value : String} {write : PendingWrite} {report : Report} {stats : Bool} {o o' : Outcome}
  {p : Process} {around : System.Surroundings FileStore Disk} {s : Service FileStore Disk}
  {sent : List Request} {request : Request}

/-- Nobody else uses the directory; any step of the keeper may fail. -/
def alone : System.Surroundings FileStore Disk where
  steps _ _ := True
  others _ _ := False

/-- Nobody else uses the directory, and the steps of the keeper fail only if the store does. -/
def unharmed : System.Surroundings FileStore Disk where
  steps _ interference := interference = none
  others _ _ := False

/-- A key as the caches of the command line store it. -/
def storedKey (key : String) : String :=
  (Json.string key).text

theorem encodeKey_keyText (key : String) : encodeKey .keyText key = .ok (storedKey key) :=
  rfl

theorem storedKey_injective {k k' : String} (h : storedKey k = storedKey k') : k = k' := by
  refine encodeKey_injective (t := .keyText) trivial trivial ?_
  rw [encodeKey_keyText, encodeKey_keyText, h]

/-- Caches of the command line have texts as keys and values. -/
def textCache (cache : String) : CacheIdentity :=
  Handle.requested cache .keyText .utf8

/-- The change that a command asks for. -/
def Command.write? : Command → Option PendingWrite
  | .put cache key value =>
    some { cache := textCache cache, key := storedKey key, change := .put (Utf8.encode value) }
  | .remove cache key => some { cache := textCache cache, key := storedKey key, change := .remove }
  | _ => none

/-- What a run has to show for its report, or for having none because it has no keeper; statistics are left
out. -/
def Outcome.Shows (o : Outcome) (stats : Bool) : Option Report → Prop
  | none => o.code = Outcome.panicCode ∧ o.stdout = "" ∧ o.stderr = ""
  | some (.error e) => o.code = 1 ∧ o.stdout = "" ∧ o.stderr = "Error: " ++ e.message ++ "\n"
  | some (.ok (stdout, code)) => o.code = code ∧ o.stdout = stdout ∧ (stats = false → o.stderr = "")

theorem Outcome.Shows.same {report : Option Report} (h : o.Shows stats report) (h' : o'.Shows stats report) :
    o'.code = o.code ∧ o'.stdout = o.stdout ∧ (stats = false → o'.stderr = o.stderr) := by
  obtain ⟨hcode, hstdout, hstderr⟩ : o'.code = o.code ∧ o'.stdout = o.stdout ∧ (stats = false → _) := by
    rcases report with _ | e | ⟨stdout, code⟩
    · exact ⟨h'.1.trans h.1.symm, h'.2.1.trans h.2.1.symm, fun _ => h'.2.2.trans h.2.2.symm⟩
    · exact ⟨h'.1.trans h.1.symm, h'.2.1.trans h.2.1.symm, fun _ => h'.2.2.trans h.2.2.symm⟩
    · exact ⟨h'.1.trans h.1.symm, h'.2.1.trans h.2.1.symm,
        fun hstats => (h'.2.2 hstats).trans (h.2.2 hstats).symm⟩
  exact ⟨hcode, hstdout, hstderr⟩

/-- What is reported of what is found. -/
def reportFound (value : Option (Option Bytes)) : Report :=
  Invocation.reportOf (Codec.utf8.decodeAnswer (value.elim (.error .keeperFailed) .ok))

theorem reportFound_text (value : String) :
    reportFound (some (some (Utf8.encode value))) = .ok (value ++ "\n", 0) := by
  unfold reportFound Invocation.reportOf Codec.decodeAnswer
  simp only [Option.elim, Codec.deserialize_utf8]
  rfl

namespace Invocation

/-- The keeper that a command begins with. -/
def keeper (i : Invocation) (settings : Settings) (d : Disk) : System FileStore Disk :=
  .start (.new settings.unlockInterval settings.pendingLookup .zero)
    (.of (openStore i.dir settings.lockTimeout)) d .empty {} .zero

theorem movesIn (i : Invocation) (settings : Settings) (d : Disk) :
    System.MovesIn i.dir settings.lockTimeout d (i.keeper settings d) :=
  ⟨_, _, _, _, _, rfl⟩

/-- The command makes this request, and reports so what becomes of it. -/
def Asks (i : Invocation) (settings : Settings) (request : Request) (report : Except CacheError Reply → Report) :
    Prop :=
  ∃ cache, ∃ make : TextHandle → Except CodecError Request,
    i.thread settings = i.asking settings cache make report ∧ make ⟨textCache cache⟩ = .ok request

theorem asks_write (hwrite : i.command.write? = some write) (settings : Settings) :
    i.Asks settings (.write write) reportWrite := by
  unfold Asks thread
  cases hcommand : i.command with
  | put cache key value =>
    rw [hcommand] at hwrite
    cases hwrite
    exact ⟨cache, _, rfl, rfl⟩
  | remove cache key =>
    rw [hcommand] at hwrite
    cases hwrite
    exact ⟨cache, _, rfl, rfl⟩
  | get cache key | hold seconds =>
    rw [hcommand] at hwrite
    cases hwrite

theorem asks_read (hget : i.command = .get cache key) (settings : Settings) :
    i.Asks settings (.read ⟨⟨0⟩, textCache cache, storedKey key⟩) reportRead := by
  unfold Asks thread
  rw [hget]
  exact ⟨cache, _, rfl, rfl⟩

theorem process_eq {report : Except CacheError Reply → Report} (hasks : i.Asks settings request report)
    (hstart : canStart settings = true) (d : Disk) :
    i.process settings d = ⟨.calling .starting (i.started
      (.calling (.asking (.ok request)) fun result => i.closing (report result))),
      facing (i.keeper settings d) [.starting]⟩ := by
  obtain ⟨cache, make, hthread, hmake⟩ := hasks
  unfold process
  rw [hthread, asking_eq hstart, show make ⟨Handle.requested cache .keyText .utf8⟩ = _ from hmake]
  rfl

theorem outcome_of_not_canStart {report : Except CacheError Reply → Report}
    (hasks : i.Asks settings request report) (hstart : canStart settings = false)
    (hothers : ∀ w w', ¬ around.others w w') (h : Execution around (i.process settings d) p) :
    p.seeThrough.outcome? = some ⟨Outcome.panicCode, "", "", d⟩ := by
  obtain ⟨cache, make, hthread, -⟩ := hasks
  have hprocess : i.process settings d =
      ⟨.exiting Outcome.panicCode "" "", facing (i.keeper settings d) []⟩ := by
    have hdeclare : Handle.declare [] cache .keyText .utf8 =
        .ok (⟨Handle.requested cache .keyText .utf8⟩, [(cache, Handle.requested cache .keyText .utf8)]) := rfl
    unfold process
    rw [hthread, asking, hdeclare]
    unfold starting
    dsimp only
    rw [hstart]
    rfl
  rw [hprocess] at h
  exact h.of_exiting hothers rfl rfl rfl

theorem exists_outcome {summary : Summary} (hthread : p.thread = i.closed report (.ok (.summary summary))) :
    ∃ o, p.outcome? = some o ∧ o.disk = p.service.system.world ∧
      (o.code = 0 → ∃ r, report = .ok r ∧ summary.failed = false) ∧
      ((∀ r, report = .ok r → summary.failed = false) → o.Shows i.stats (some report)) := by
  obtain ⟨thread, s⟩ := p
  obtain rfl : thread = _ := hthread
  rcases report with e | ⟨stdout, code⟩
  · exact ⟨_, rfl, rfl, nofun, fun _ => ⟨rfl, rfl, rfl⟩⟩
  · unfold closed Process.outcome?
    dsimp only
    cases hfailed : summary.failed with
    | true => exact ⟨_, rfl, rfl, nofun, fun h => by cases h _ rfl⟩
    | false =>
      refine ⟨_, rfl, rfl, fun _ => ⟨_, rfl, rfl⟩, fun _ => ⟨rfl, rfl, fun hstats => ?_⟩⟩
      rw [hstats]
      rfl

/-- What is sent to the keeper of a command with one request. -/
theorem mem_sent (h : Service.Run around
      (facing (i.keeper settings d) [.starting, .asking (.ok request), .stopping]) sent s) :
    ∀ r ∈ sent, r = request ∨ r = .stop := by
  intro r hr
  obtain ⟨call, hcall, hasks⟩ := (h.asked rfl).1 r hr
  simp only [facing, List.mem_cons, List.not_mem_nil, or_false] at hcall
  rcases hcall with rfl | rfl | rfl
  · cases hasks
  · exact .inl (List.mem_singleton.mp hasks)
  · exact .inr (List.mem_singleton.mp hasks)

theorem names_sent {names : String → Prop} (h : Service.Run around
      (facing (i.keeper settings d) [.starting, .asking (.ok request), .stopping]) sent s)
    (hnames : request.Names names) : ∀ r ∈ sent, r.Names names := by
  intro r hr
  rcases mem_sent h r hr with rfl | rfl
  · exact hnames
  · trivial

/-- A command with one request has come to its end. -/
structure Finished (i : Invocation) (settings : Settings) (d : Disk) (around : System.Surroundings FileStore Disk)
    (request : Request) (result : Except CacheError Reply) (report : Report) (o : Outcome) (p : Process) :
    Prop where
  turns : InTurn around (i.keeper settings d) [.stopping, .asking (.ok request), .starting] p.service
  result : p.service.result? 1 = some result
  ended : p.service.system.stage = .ended
  outcome : p.outcome? = some o
  disk : o.disk = p.service.system.world
  /-- A command that succeeds has a keeper that has not failed. -/
  succeeds : o.code = 0 → (∃ r, report = .ok r) ∧ p.service.system.log = []
  shows : ((∃ r, report = .ok r) → p.service.system.log = []) → o.Shows i.stats (some report)

end Invocation

/-- What a command with this change leaves, found in the directory. -/
structure Outcome.Changes (o : Outcome) (dir : Path) (settings : Settings) (write : PendingWrite) (d : Disk) :
    Prop where
  wellFormed : o.disk.WellFormed
  /-- Files that are elsewhere stay. -/
  spares : ∀ {file id content}, d.HasFile file id content →
    file.location d.home ≠ (cachePath dir write.cache.name).location d.home →
    (∀ processId, file.location d.home ≠
      (CacheFile.temporary (cachePath dir write.cache.name) processId).location d.home) →
    o.disk.HasFile file id content
  started : o.code = 0 → canStart settings = true
  written : o.code = 0 →
    found dir settings.lockTimeout write.cache.name write.key o.disk = some write.visibleValue
  unwritten : ∀ {cache stored}, PlainName cache → ¬ (cache = write.cache.name ∧ stored = write.key) →
    found dir settings.lockTimeout cache stored o.disk = found dir settings.lockTimeout cache stored d

namespace Execution

theorem finishes {report : Except CacheError Reply → Report} (hasks : i.Asks settings request report)
    (hstart : canStart settings = true) (hnostop : request ≠ .stop) (hquiet : ∀ s, around.steps s none)
    (h : Execution around (i.process settings d) p) :
    ∃ result o, i.Finished settings d around request result (report result) o p.seeThrough := by
  have hnever : Except.ok request ≠ (.ok .stop : Except CodecError Request) :=
    fun hstop => hnostop (Except.ok.inj hstop)
  rw [Invocation.process_eq hasks hstart] at h
  obtain ⟨result, stopped, hthread, hresult, hstopped, hturns⟩ :=
    h.concluded (i := i) rfl hquiet hnever rfl rfl
  obtain ⟨summary, rfl, hended, htells⟩ := hturns.stop_succeeds hnever hstopped
  obtain ⟨o, houtcome, hdisk, hcode, hshows⟩ := Invocation.exists_outcome hthread
  refine ⟨result, o, hturns, hresult, hended, houtcome, hdisk, fun hzero => ?_, fun hsound => hshows ?_⟩
  · obtain ⟨r, hreport, hfailed⟩ := hcode hzero
    exact ⟨⟨r, hreport⟩, htells.log.mp hfailed⟩
  · exact fun r hreport => htells.log.mpr (hsound ⟨r, hreport⟩)

/-- A command with a change comes to its end, and its code tells whether the change is found. -/
theorem of_write (hd : d.WellFormed) (hwrite : i.command.write? = some write)
    (hplain : PlainName write.cache.name) (h : Execution alone (i.process settings d) p) :
    ∃ o, p.seeThrough.outcome? = some o ∧ o.Changes i.dir settings write d := by
  have hasks := Invocation.asks_write hwrite settings
  cases hstart : canStart settings with
  | false =>
    refine ⟨_, Invocation.outcome_of_not_canStart hasks hstart (fun _ _ => id) h, ?_⟩
    exact ⟨hd, fun hfile _ _ => hfile, nofun, nofun, fun _ _ => rfl⟩
  | true =>
    obtain ⟨result, o, hfinished⟩ := h.finishes hasks hstart nofun fun _ => trivial
    obtain ⟨sent, hrun, happlied⟩ := hfinished.turns.write_applied
    have hsent := Invocation.mem_sent hrun
    have hnames := Invocation.names_sent hrun (show Request.Names (· = write.cache.name) _ from rfl)
    have haway : p.seeThrough.service.system.IsAway := by
      unfold System.IsAway
      rw [hfinished.ended]
      trivial
    have hmovesIn := i.movesIn settings d
    obtain ⟨saved, hsaved, hall, hlegible, hfound⟩ :=
      hrun.system.found hd hplain (fun _ _ => id) hnames hmovesIn haway
    obtain ⟨hwellFormed, hspares⟩ := hrun.system.spares hd hplain (fun _ _ => id) hnames hmovesIn haway
    rw [← hfinished.disk] at hfound hwellFormed hspares
    have hsame : ∀ x ∈ saved, x = write := fun x hx => by
      rcases hsent _ (Request.mem_writes.mp (hsaved.subset hx)) with hwritten | hstop
      · cases hwritten
        rfl
      · cases hstop
    refine ⟨o, hfinished.outcome, hwellFormed, hspares, fun _ => hstart, fun hzero => ?_, fun hcache hother => ?_⟩
    · obtain ⟨⟨r, hreport⟩, hlog⟩ := hfinished.succeeds hzero
      obtain ⟨reply, rfl⟩ : ∃ reply, result = .ok reply := by
        cases result with
        | error e => cases hreport
        | ok reply => exact ⟨reply, rfl⟩
      have hne : saved ≠ [] := by
        rw [hall hlog]
        exact List.ne_nil_of_mem (happlied reply hfinished.result hfinished.ended hlog)
      rw [hfound hplain, if_pos rfl]
      obtain ⟨value, hvalue⟩ := Option.ne_none_iff_exists'.mp (hlegible hne write.key)
      rw [hvalue, Option.map_some, PendingWrite.valueOver_of_forall hsame, if_pos ⟨hne, rfl⟩]
    · rw [hfound hcache]
      split
      · rename_i hname
        have hkey : ¬ _ = write.key := fun hkey => hother ⟨hname, hkey⟩
        rw [hname]
        refine (Option.map_congr fun value _ => ?_).trans Option.map_id'
        rw [PendingWrite.valueOver_of_forall hsame, if_neg fun h => hkey h.2]
      · rfl

/-- A command with a read comes to its end and shows what is found. -/
theorem of_get (hd : d.WellFormed) (hget : i.command = .get cache key) (hplain : PlainName cache)
    (h : Execution unharmed (i.process settings d) p)
    (hclock : p.seeThrough.service.system.clock.nanos < Instant.limit) :
    ∃ o, p.seeThrough.outcome? = some o ∧
      o.Shows i.stats (if canStart settings then
        some (reportFound (found i.dir settings.lockTimeout cache (storedKey key) d)) else none) := by
  have hasks := Invocation.asks_read hget settings
  cases hstart : canStart settings with
  | false =>
    exact ⟨_, Invocation.outcome_of_not_canStart hasks hstart (fun _ _ => id) h, rfl, rfl, rfl⟩
  | true =>
    obtain ⟨result, o, hfinished⟩ := h.finishes hasks hstart nofun fun _ => rfl
    obtain ⟨sent, hrun⟩ := hfinished.turns.run
    refine ⟨o, hfinished.outcome, ?_⟩
    have hsent := Invocation.mem_sent hrun
    have hnames := Invocation.names_sent hrun (show Request.Names (· = cache) _ from rfl)
    have hunwritten : Request.writes sent = [] :=
      List.eq_nil_iff_forall_not_mem.mpr fun w hw => by
        rcases hsent _ (Request.mem_writes.mp hw) with h | h <;> cases h
    have hmovesIn := i.movesIn settings d
    have hnot : found i.dir settings.lockTimeout cache (storedKey key) d ≠ none →
        ¬ p.seeThrough.service.system.Fails :=
      hrun.system.not_fails hd hplain (fun _ _ => id) (fun _ _ => id) hnames hunwritten hmovesIn hclock
    rcases hfinished.turns.read_returns hfinished.result with ⟨value, rfl, hanswer⟩ | ⟨rfl, hfails⟩
    · obtain ⟨read, hread, -, hfound⟩ :=
        hrun.system.answers_found hd hplain (fun _ _ => id) hnames hunwritten hmovesIn hanswer
      obtain rfl : read = ⟨⟨0⟩, textCache cache, storedKey key⟩ := by
        rcases hsent _ hread with h | h
        · exact Request.read.inj h
        · cases h
      rw [hfound] at hnot ⊢
      exact hfinished.shows fun _ => not_not.mp fun hlog => hnot nofun (.inl hlog)
    · rw [show found i.dir settings.lockTimeout cache (storedKey key) d = none from
        not_not.mp fun hne => hnot hne hfails]
      exact hfinished.shows nofun

end Execution

namespace Invocation

theorem settings_congr {d' : Disk} (h : ∀ file, i.config = some file → d'.read file = d.read file) :
    i.settings environment d' = i.settings environment d := by
  obtain ⟨dir, config, unlockInterval, stats, verbose, command⟩ := i
  cases config with
  | none => rfl
  | some file =>
    have hfile : Layer.ofFile file d' = Layer.ofFile file d := by
      unfold Layer.ofFile
      rw [h file rfl]
    unfold settings Config.build Config.layers
    dsimp only
    rw [hfile]

theorem settings_asProcess (i : Invocation) (environment : Option String) (d : Disk) (processId : Nat) :
    i.settings environment (d.asProcess processId) = i.settings environment d := by
  refine settings_congr fun file _ => ?_
  unfold Disk.read
  rw [Disk.stat_asProcess]

theorem hasFile_of_settings {file : Path} (hsettings : i.settings environment d = .ok settings)
    (hconfig : i.config = some file) : ∃ id content, d.HasFile file id content := by
  obtain ⟨dir, config, unlockInterval, stats, verbose, command⟩ := i
  cases hconfig
  obtain ⟨c, hbuild, -⟩ := ok_of_bind hsettings
  obtain ⟨layers, hlayers, -⟩ := Config.of_build hbuild
  obtain ⟨layer, hfile, -⟩ := ok_of_bind (show (Layer.ofFile file d >>= _) = _ from hlayers)
  unfold Layer.ofFile Disk.read at hfile
  cases hstat : d.stat file with
  | error e =>
    rw [hstat] at hfile
    cases hfile
  | ok node =>
    cases node with
    | directory =>
      rw [hstat] at hfile
      cases hfile
    | file id content => exact ⟨id, content, Disk.hasFile_iff.mpr hstat⟩

end Invocation

/-- A configuration stays as it is unless its file lies where the command writes. -/
theorem Outcome.Changes.settings_after {dir : Path} (h : o.Changes dir settings write d)
    (hbefore : j.settings environment d = .ok settings')
    (hplace : ∀ file, j.config = some file →
      file.location d.home ≠ (cachePath dir write.cache.name).location d.home ∧ ∀ processId,
        file.location d.home ≠
          (CacheFile.temporary (cachePath dir write.cache.name) processId).location d.home) :
    j.settings environment o.disk = .ok settings' := by
  rw [← hbefore]
  refine Invocation.settings_congr fun file hconfig => ?_
  obtain ⟨id, content, hfile⟩ := Invocation.hasFile_of_settings hbefore hconfig
  obtain ⟨hcache, htemporary⟩ := hplace file hconfig
  have hfile' := h.spares hfile hcache htemporary
  unfold Disk.read
  rw [Disk.hasFile_iff.mp hfile, Disk.hasFile_iff.mp hfile']

/-- The program has been called with these arguments, and its process has come this far. -/
def Executes (around : System.Surroundings FileStore Disk) (args : List String) (environment : Option String)
    (d : Disk) (p : Process) : Prop :=
  ∃ i settings, Invocation.parse args = .ok i ∧ i.settings environment d = .ok settings ∧
    Execution around (i.process settings d) p

/-- The clock of the process has not run over. -/
def Process.InTime (p : Process) : Prop :=
  p.service.system.clock.nanos < Instant.limit

section
variable {args args' : List String}

theorem Executes.execution (h : Executes around args environment d p) (hi : Invocation.parse args = .ok i)
    (hsettings : i.settings environment d = .ok settings) : Execution around (i.process settings d) p := by
  obtain ⟨i', settings', hi', hsettings', hp⟩ := h
  cases hi.symm.trans hi'
  cases hsettings.symm.trans hsettings'
  exact hp

/-- `run` is the outcome of a process that is seen through from its beginning. -/
theorem run_eq (hi : Invocation.parse args = .ok i) (hsettings : i.settings environment d = .ok settings)
    (houtcome : (i.process settings d).seeThrough.outcome? = some o) : run args environment d = o := by
  unfold run Invocation.run
  simp only [hi, hsettings, houtcome]
  rfl

/-- The directory of a store is a map of texts. If a `put` exits with 0 a `get` of that key prints the value,
after a `remove` it prints nothing and exits with 2; and every other key is got as it was before the command,
whether that succeeded or not. Each command is a process of its own, whose main thread and keeper act in any
order, and wherever it is it comes to its end. All find the same configuration, but for the unlock interval
(`Outcome.Changes.settings_after` tells when it stays). -/
theorem write_then_get {cache' key' : String} {interval : Duration}
    (hi : Invocation.parse args = .ok i) (hj : Invocation.parse args' = .ok j) (hdir : j.dir = i.dir)
    (hd : d.WellFormed) (hcache : PlainName cache) (hcache' : PlainName cache')
    (hwrite : (∃ value, i.command = .put cache key value) ∨ i.command = .remove cache key)
    (hget : j.command = .get cache' key')
    (hsettings : i.settings environment d = .ok settings)
    (hbefore : j.settings environment d = .ok { settings with unlockInterval := interval })
    (hp : Executes alone args environment d p) :
    ∃ outcome, p.seeThrough.outcome? = some outcome ∧
      ∀ {processId q}, j.settings environment outcome.disk = .ok { settings with unlockInterval := interval } →
        Executes unharmed args' environment (outcome.disk.asProcess processId) q → q.seeThrough.InTime →
        ∃ after, q.seeThrough.outcome? = some after ∧
          (∀ value, i.command = .put cache key value → outcome.code = 0 → (cache', key') = (cache, key) →
            after.code = 0 ∧ after.stdout = value ++ "\n") ∧
          (i.command = .remove cache key → outcome.code = 0 → (cache', key') = (cache, key) →
            after.code = 2 ∧ after.stdout = "") ∧
          ((cache', key') ≠ (cache, key) → ∀ {processId q},
            Executes unharmed args' environment (d.asProcess processId) q → q.seeThrough.InTime →
            ∃ before, q.seeThrough.outcome? = some before ∧ after.code = before.code ∧
              after.stdout = before.stdout ∧ (j.stats = false → after.stderr = before.stderr)) := by
  obtain ⟨write, hchange, hname, hkey⟩ : ∃ write, i.command.write? = some write ∧
      write.cache.name = cache ∧ write.key = storedKey key := by
    rcases hwrite with ⟨value, hput⟩ | hremove
    · exact ⟨_, congrArg Command.write? hput, rfl, rfl⟩
    · exact ⟨_, congrArg Command.write? hremove, rfl, rfl⟩
  obtain ⟨outcome, houtcome, hchanges⟩ := (hp.execution hi hsettings).of_write hd hchange (hname ▸ hcache)
  refine ⟨outcome, houtcome, fun {processId q} hafter hq hclock => ?_⟩
  have hd' : (outcome.disk.asProcess processId).WellFormed := hchanges.wellFormed.congr rfl
  rw [← Invocation.settings_asProcess j environment _ processId] at hafter
  obtain ⟨after, hafter, hshows⟩ := (hq.execution hj hafter).of_get hd' hget hcache' hclock
  rw [hdir, FileStore.found_asProcess] at hshows
  have hwritten : outcome.code = 0 → (cache', key') = (cache, key) →
      after.Shows j.stats (some (reportFound (some write.visibleValue))) := by
    intro hzero hsame
    cases hsame
    have hstarted : canStart { settings with unlockInterval := interval } = true := hchanges.started hzero
    rw [if_pos hstarted, ← hname, ← hkey] at hshows
    exact hchanges.written hzero ▸ hshows
  refine ⟨after, hafter, fun value hput hzero hsame => ?_, fun hremove hzero hsame => ?_,
    fun hother {processId q} hq hclock => ?_⟩
  · cases hchange.symm.trans (congrArg Command.write? hput)
    have hshows := hwritten hzero hsame
    rw [show PendingWrite.visibleValue _ = some (Utf8.encode value) from rfl, reportFound_text] at hshows
    exact ⟨hshows.1, hshows.2.1⟩
  · cases hchange.symm.trans (congrArg Command.write? hremove)
    have hshows := hwritten hzero hsame
    exact ⟨hshows.1, hshows.2.1⟩
  · have hd' : (d.asProcess processId).WellFormed := hd.congr rfl
    rw [← Invocation.settings_asProcess j environment _ processId] at hbefore
    obtain ⟨before, hbefore, hshows'⟩ := (hq.execution hj hbefore).of_get hd' hget hcache' hclock
    rw [hdir, FileStore.found_asProcess, ← hchanges.unwritten hcache' fun hsame => hother ?_] at hshows'
    · exact ⟨before, hbefore, hshows'.same hshows⟩
    · rw [hsame.1, hname, storedKey_injective (hsame.2.trans hkey)]

/-- A `put` whose keeper has given up the lock before the request comes. -/
theorem put_then_get_released : ∃ p outcome,
    Executes alone ["put", "tasks", "k", "v"] none (.empty ["home"] 1) p ∧
      p.service.system.keeper.pacing.releaseCount = 1 ∧ p.seeThrough.outcome? = some outcome ∧ outcome.code = 0 ∧
      (run ["get", "tasks", "k"] none (outcome.disk.asProcess 2)).code = 0 ∧
      (run ["get", "tasks", "k"] none (outcome.disk.asProcess 2)).stdout = "v" ++ "\n" := by
  let command (command : Command) : Invocation := ⟨⟨".history"⟩, none, none, false, false, command⟩
  let put := command (.put "tasks" "k" "v")
  let get := command (.get "tasks" "k")
  have hi : Invocation.parse ["put", "tasks", "k", "v"] = .ok put := rfl
  have hj : Invocation.parse ["get", "tasks", "k"] = .ok get := rfl
  have hsettings : ∀ c d, (command c).settings none d = .ok .standard := fun _ _ => rfl
  let first := put.process .standard (.empty ["home"] 1)
  let turns : List Service.Turn := .replicate 4 (.call 0) ++ .replicate 4 .keeper
  have hseen : ((Service.follow (fun _ => true) turns ([], first.service)).bind fun x =>
      Service.follow (fun _ => true) (.replicate 4 .keeper)
        (x.1, { x.2 with system := x.2.system.tick 2000000000 })).bind (fun x =>
          ({ first with service := x.2 } : Process).seeThrough.outcome?.map fun o =>
            (x.2.system.keeper.pacing.releaseCount, o.code,
              decide ((get.process .standard (o.disk.asProcess 2)).seeThrough.service.system.clock.nanos <
                Instant.limit))) = some (1, 0, true) := by decide +kernel
  obtain ⟨⟨sent, s⟩, hs, hseen⟩ := Option.bind_eq_some_iff.mp hseen
  obtain ⟨⟨sent', s'⟩, hs', hs⟩ := Option.bind_eq_some_iff.mp hs
  obtain ⟨outcome, houtcome, hseen⟩ := Option.map_eq_some_iff.mp hseen
  simp only [Prod.mk.injEq, decide_eq_true_eq] at hseen
  obtain ⟨hreleased, hcode, hclock⟩ := hseen
  have hrun' : Service.Run alone first.service sent' s' := Service.Run.first.follow (fun _ _ => trivial) hs'
  have hrun : Service.Run alone first.service sent s :=
    .follow (x := (sent', _)) (fun _ _ => trivial) (hrun'.tick 2000000000) hs
  have hp : Executes alone ["put", "tasks", "k", "v"] none (.empty ["home"] 1) { first with service := s } :=
    ⟨put, .standard, hi, hsettings _ _, Execution.first.acts hrun⟩
  obtain ⟨outcome', houtcome', hget⟩ := write_then_get hi hj rfl (Disk.wellFormed_empty ["home"] 1)
    (show PlainName "tasks" by decide) (show PlainName "tasks" by decide) (.inl ⟨"v", rfl⟩) rfl
    (hsettings _ _) (hsettings _ _) hp
  cases houtcome.symm.trans houtcome'
  obtain ⟨after, hafter, hput, -⟩ := hget (hsettings _ _)
    ⟨get, .standard, hj, hsettings _ (outcome.disk.asProcess 2), .first⟩ hclock
  refine ⟨_, outcome, hp, hreleased, houtcome, hcode, ?_⟩
  rw [run_eq hj (hsettings _ _) hafter]
  exact hput "v" rfl hcode rfl

end

end HistoryKeeper.CommandLine
