import HistoryKeeper.Proofs.Keeper.Opening

/-!
# What was applied is on the disk

`System.Run.durable`: when a keeper's run has ended, of itself or of a failure, the disk has the
writes that were applied, in order, and cache files that are corrupt are as they were. A keeper that
leaves of itself has applied all that it had taken in (`System.Exited`). The files that the disk has to
begin with must be found through the paths of their caches (`System.Run.removed_kept`).

A failure in the loop that serves requests leads to the task `leaving`, which writes back; so there is
something to write back only in the loop, and the store can go away at all other times.
-/

namespace HistoryKeeper.System

section
variable {S W : Type} {s s' : System S W} {interference : Option Interference} {store : S}
  {task : Task}

/-- The keeper is at work, or it panics. -/
def GoesOn (s : System S W) : Prop :=
  (∃ store task, s.stage = .working store task ∧ task ≠ .entering ∧ task ≠ .closing) ∨
    ∃ store text, s.stage = .failing store (.panic text)

theorem goesOn_of_work [Store S W] (hstage : s.stage = .working store task) (hloop : task.InLoop)
    (hentering : task ≠ .entering) (hstep : s.work interference store task = some s') : s'.GoesOn := by
  have hgo : ∀ {s : System S W} {store : S} {task : Task}, s.stage = .working store task →
      task ≠ .entering ∧ task ≠ .closing → s.GoesOn := fun hstage htask =>
    Or.inl ⟨_, _, hstage, htask⟩
  cases moves_of_work hstage hstep with
  | opened h' | unopened h' | letGo h' | drained h' | drainedAll h' | finished h' | parted h' =>
    rw [hstage] at h'
    cases h'
  | entered h' | left h' | leftFailed h' | closed h' =>
    rw [hstage] at h'
    cases h'
    first | exact hloop.elim | exact absurd rfl hentering
  | failed h' _ houtside =>
    rw [hstage] at h'
    cases h'
    cases task with
    | entering => exact absurd rfl hentering
    | leaving _ | closing => exact hloop.elim
    | _ => cases houtside
  | openedCache h' _ hcache =>
    rw [hstage] at h'
    cases h'
    refine hgo rfl ⟨hentering, ?_⟩
    rintro rfl
    cases hcache
  | crashed | overflowed => exact Or.inr ⟨_, _, rfl⟩
  | _ => exact hgo rfl ⟨nofun, nofun⟩

end

open CacheFile (kept)
open FileStore (DistinctFiles Ready)

/-- If the keeper is about to write back what it has done, it can. -/
def writesBack (s : System FileStore Disk) (interference : Option Interference) : Bool :=
  match s.stage with
  | .working store (.leaving _) =>
    match interference, FileStore.flush (store, s.world) with
    | none, .ok _ _ => true
    | _, _ => false
  | _ => true

/-- Others only take and free locks. The keeper's calls may fail, but not when it writes back. -/
def undisturbed : Surroundings FileStore Disk where
  steps s interference := s.writesBack interference = true
  others d d' := d'.nodes = d.nodes ∧ d'.home = d.home

variable {names : String → Prop} {dir : Path} {timeout interval : Duration} {lookup : Bool}
  {now clock : Instant} {status : Status} {d : Disk} {sent : List Request}
  {s s' start : System FileStore Disk} {store : FileStore} {task : Task}
  {interference : Option Interference} {taken : List Request} {applied : List PendingWrite}
  {initial : String → CacheContent}

theorem flush_ok_of_writesBack {failure : Option StoreError}
    (h : s.writesBack interference = true) (hstage : s.stage = .working store (.leaving failure)) :
    interference = none ∧ ∃ st, FileStore.flush (store, s.world) = .ok () st := by
  unfold writesBack at h
  rw [hstage] at h
  simp only at h
  split at h
  · rename_i u st hflush
    exact ⟨rfl, st, hflush⟩
  · cases h

/-- The disk has the writes that were applied. -/
def Saved (dir : Path) (names : String → Prop) (d : Disk) (sent : List Request)
    (s : System FileStore Disk) : Prop :=
  ∀ name, names name → kept (cachePath dir name) s.world =
    PendingWrite.contentAfter (fun name => kept (cachePath dir name) d)
      ((Request.writes sent).take s.keeper.tally.writesApplied) name

theorem Saved.congr (h : Saved dir names d sent s) (hnodes : s'.world.nodes = s.world.nodes)
    (hhome : s'.world.home = s.world.home)
    (hcount : s'.keeper.tally.writesApplied = s.keeper.tally.writesApplied) :
    Saved dir names d sent s' := by
  intro name hname
  rw [CacheFile.kept_of_nodes hnodes hhome, hcount]
  exact h name hname

/-- Nothing has to be written back. -/
def Clean (store : FileStore) : Prop :=
  ∀ f ∈ store.caches, f.dirty = false

/-- The store is kept from going away, or else the disk has everything. -/
inductive Durable (dir : Path) (timeout : Duration) (names : String → Prop) (d : Disk)
    (sent : List Request) (s : System FileStore Disk) : Prop
  | opening : s.stage = .opening (.of (FileStore.openStore dir timeout)) →
      s.keeper.tally.writesApplied = 0 → Durable dir timeout names d sent s
  | working (store : FileStore) (task : Task) : s.stage = .working store task →
      (task = .entering ∨ task = .closing → Clean store) → Durable dir timeout names d sent s
  | panicking (store : Option FileStore) (text : Option String) :
      s.stage = .failing store (.panic text) → Durable dir timeout names d sent s
  | panicked (text : Option String) : s.IsOver → .panic text ∈ s.log →
      Durable dir timeout names d sent s
  | ended : s.IsOver → Saved dir names d sent s → Durable dir timeout names d sent s

theorem durable_of_goesOn (h : s.GoesOn) : Durable dir timeout names d sent s := by
  rcases h with ⟨store, task, hstage, hentering, hclosing⟩ | ⟨store, text, hstage⟩
  · exact .working store task hstage fun h => (h.elim hentering hclosing).elim
  · exact .panicking store text hstage

/-- Consistent with the files that were there. -/
abbrev ConsistentOn (dir : Path) (names : String → Prop) (d : Disk) :=
  Consistent (FileStore.view dir names) (fun name => kept (cachePath dir name) d)
    (Ready dir names d)

theorem saved_of_clean (hkeeps : FileStore.Keeps dir names (store, s.world)) (hclean : Clean store)
    (hcontent : ∀ name, names name → (FileStore.view dir names).content (store, s.world) name =
      PendingWrite.contentAfter (fun name => kept (cachePath dir name) d)
        ((Request.writes sent).take s.keeper.tally.writesApplied) name) :
    Saved dir names d sent s :=
  fun name hname => (FileStore.content_of_clean hkeeps.sound hclean _).symm.trans
    (hcontent name hname)

theorem Durable.openStore (h : ConsistentOn dir names d sent s)
    (hstage : s.stage = .opening (.of (FileStore.openStore dir timeout)))
    (hcount : s.keeper.tally.writesApplied = 0) : Durable dir timeout names d sent
      (s.openStore interference (.of (FileStore.openStore dir timeout))) := by
  have hready : Ready dir names d s.world := by
    cases h with
    | opening _ _ _ hready => exact hready
    | working _ _ _ _ hworking => rw [hstage] at hworking; cases hworking
    | leaving _ _ hworking => rw [hstage] at hworking; cases hworking
    | ended hover =>
      unfold IsOver at hover
      rw [hstage] at hover
      exact hover.elim
  have hsaved : ∀ {s' : System FileStore Disk}, s'.keeper = s.keeper →
      (∀ name, names name → kept (cachePath dir name) s'.world = kept (cachePath dir name) d) →
      Saved dir names d sent s' := by
    intro s' hkeeper hkept name hname
    rw [hkeeper, hcount, List.take_zero, PendingWrite.contentAfter_nil]
    exact hkept name hname
  unfold System.openStore
  split
  · exact .ended trivial (hsaved rfl hready.unchanged)
  · exact .panicking none _ rfl
  · split
    · rename_i store world hopen
      obtain ⟨-, hcaches, -⟩ := hready.opened (Opener.of_eq_ok hopen)
      exact .working store .entering rfl fun _ f hf => by
        rw [hcaches] at hf
        cases hf
    · rename_i cause world hopen
      obtain ⟨e, hopen, -⟩ := Opener.of_eq_error hopen
      exact .ended trivial (hsaved rfl fun name hname => hready.failed hopen hname)

theorem Durable.enter (h : Working (FileStore.view dir names) (fun name => kept (cachePath dir name) d)
      sent taken applied s store .entering) (hclean : Clean store) :
    Durable dir timeout names d sent (s.attempt interference store .entering Store.enter
      fun _ store s => { s with keeper := { s.keeper with
        pacing := .start s.keeper.pacing.interval s.clock } }.go store .collecting) := by
  have hsaved : ∀ {s : System FileStore Disk} {store : FileStore}, Clean store →
      Working (FileStore.view dir names) (fun name => kept (cachePath dir name) d) sent taken applied s
        store .entering → Saved dir names d sent s := by
    intro s store hclean h
    refine saved_of_clean h.sound hclean fun name hname => ?_
    rw [applied_eq_take h.books]
    exact h.content name hname
  have henter := (FileStore.faithful_view dir names).enter (store, s.world) h.sound
  refine attempt_rule (fun e _ => ?_) (fun text _ => .panicking _ text rfl)
    (fun e st' _ hr => ?_)
    fun _ st' _ _ => durable_of_goesOn (Or.inl ⟨st'.1, .collecting, rfl, nofun, nofun⟩)
  · exact .ended trivial ((hsaved hclean h).congr rfl rfl rfl)
  · rw [hr, endState_error] at henter
    have hcaches : st'.1.caches = store.caches := by
      have hend := FileStore.caches_ensureLocked (store, s.world)
      rw [show FileStore.ensureLocked (store, s.world) = _ from hr] at hend
      exact hend
    have hclean' : Clean st'.1 := by
      unfold Clean
      rw [hcaches]
      exact hclean
    exact .ended trivial ((hsaved hclean' (h.same henter)).congr rfl rfl rfl)

theorem Durable.leave {failure : Option StoreError}
    (h : Leaving (FileStore.view dir names) (fun name => kept (cachePath dir name) d) sent s store
      (.leaving failure))
    (hflush : ∃ st, FileStore.flush (store, s.world) = .ok () st)
    (hstep : s.work none store (.leaving failure) = some s') :
    Durable dir timeout names d sent s' := by
  cases hstep
  have hkeeps : FileStore.Keeps dir names (store, s.world) := h.sound
  obtain ⟨store', world', hleave, hclean⟩ := FileStore.leave_ok hkeeps.sound hflush
  have hsame := (FileStore.faithful_view dir names).leave (store, s.world) h.sound
  rw [show Store.leave (store, s.world) = _ from hleave, endState_ok] at hsame
  have hcontent := fun name hname => (hsame.content name hname).trans (h.content name hname)
  refine attempt_rule nofun nofun (fun e st' _ hr => ?_) fun _ st' _ hr => ?_
  · rw [show Store.leave (store, s.world) = _ from hleave] at hr
    cases hr
  · rw [show Store.leave (store, s.world) = _ from hleave] at hr
    cases hr
    cases failure with
    | some e =>
      refine .ended trivial ((saved_of_clean (s := { s with world := world' }) hsame.sound hclean
        hcontent).congr rfl rfl rfl)
    | none => exact .working store' .closing rfl fun _ => hclean

theorem Durable.close
    (h : Leaving (FileStore.view dir names) (fun name => kept (cachePath dir name) d) sent s store
      .closing) (hclean : Clean store) :
    Durable dir timeout names d sent (s.attempt interference store .closing Store.close
      fun _ _ s => { s with stage := .draining false }) := by
  have hsaved : Saved dir names d sent s := saved_of_clean h.sound hclean h.content
  obtain ⟨store', hclose⟩ := FileStore.close_of_clean hclean s.world
  obtain ⟨hnodes, hhome⟩ := FileStore.freeLock_nodes store s.world
  refine attempt_rule (fun e _ => .ended trivial (hsaved.congr rfl rfl rfl))
    (fun text _ => .panicking _ text rfl) (fun e st' _ hr => ?_) fun _ st' _ hr => ?_
  · rw [show Store.close (store, s.world) = _ from hclose] at hr
    cases hr
  · rw [show Store.close (store, s.world) = _ from hclose] at hr
    cases hr
    exact .ended trivial (hsaved.congr hnodes hhome rfl)

theorem Saved.winds (h : Saved dir names d sent s) (hwinds : s.Winds s') :
    Saved dir names d sent s' := by
  have hcount : s'.keeper.tally.writesApplied = s.keeper.tally.writesApplied :=
    congrArg _ hwinds.tally
  rcases hwinds.world with hworld | ⟨store, hworld⟩
  · exact h.congr (by rw [hworld]) (by rw [hworld]) hcount
  · obtain ⟨hnodes, hhome⟩ := FileStore.freeLock_nodes store s.world
    exact h.congr (by rw [hworld]; exact hnodes) (by rw [hworld]; exact hhome) hcount

theorem Durable.step (hconsistent : ConsistentOn dir names d sent s)
    (h : Durable dir timeout names d sent s) (hsteps : undisturbed.steps s interference)
    (hstep : s.step interference = some s') : Durable dir timeout names d sent s' := by
  cases h with
  | opening hstage hcount =>
    unfold System.step at hstep
    rw [hstage] at hstep
    cases hstep
    exact .openStore hconsistent hstage hcount
  | working store task hstage hclean =>
    unfold System.step at hstep
    rw [hstage] at hstep
    by_cases hloop : task.InLoop
    · obtain ⟨taken, applied, h⟩ := hconsistent.inLoop hstage hloop
      by_cases hentering : task = .entering
      · subst hentering
        cases hstep
        exact .enter h (hclean (Or.inl rfl))
      · exact durable_of_goesOn (goesOn_of_work hstage hloop hentering hstep)
    · have h := hconsistent.outOfLoop hstage hloop
      cases task with
      | leaving failure =>
        obtain ⟨rfl, hflush⟩ := flush_ok_of_writesBack hsteps hstage
        exact .leave h hflush hstep
      | closing =>
        cases hstep
        exact .close h (hclean (Or.inr rfl))
      | _ => exact absurd trivial hloop
  | panicking store text hstage =>
    unfold System.step at hstep
    rw [hstage] at hstep
    cases hstep
    exact .panicked text trivial (List.mem_append_right _ (List.mem_singleton_self _))
  | panicked text hover hlog =>
    have hwinds := winds_of_step hover hstep
    exact .panicked text hwinds.isOver (hwinds.log.subset hlog)
  | ended hover h =>
    have hwinds := winds_of_step hover hstep
    exact .ended hwinds.isOver (h.winds hwinds)

theorem Durable.send {request : Request} (hpast : Past initial sent s)
    (h : Durable dir timeout names d sent s) (hsend : s.send request = some s') :
    Durable dir timeout names d (sent ++ [request]) s' := by
  obtain ⟨inbox, -, rfl⟩ := Option.map_eq_some_iff.mp hsend
  cases h with
  | opening hstage hcount => exact .opening hstage hcount
  | working store task hstage hclean => exact .working store task hstage hclean
  | panicking store text hstage => exact .panicking store text hstage
  | panicked text hover hlog => exact .panicked text hover hlog
  | ended hover h =>
    refine .ended hover fun name hname => ?_
    rw [Request.writes_append, List.take_append_of_le_length hpast.count]
    exact h name hname

theorem Durable.congr (h : Durable dir timeout names d sent s) (hstage : s'.stage = s.stage)
    (hkeeper : s'.keeper = s.keeper) (hlog : s'.log = s.log)
    (hnodes : s'.world.nodes = s.world.nodes) (hhome : s'.world.home = s.world.home) :
    Durable dir timeout names d sent s' := by
  have hover : s.IsOver → s'.IsOver := by
    unfold IsOver
    rw [hstage]
    exact id
  cases h with
  | opening h hcount => exact .opening (hstage.trans h) (hkeeper ▸ hcount)
  | working store task h hclean => exact .working store task (hstage.trans h) hclean
  | panicking store text h => exact .panicking store text (hstage.trans h)
  | panicked text h hmem => exact .panicked text (hover h) (hlog ▸ hmem)
  | ended h hsaved => exact .ended (hover h) (hsaved.congr hnodes hhome (by rw [hkeeper]))

/-! ### Leaving the loop -/

section
variable {S W : Type} [Store S W] {around : Surroundings S W} {start s s' : System S W}
  {view : StoreView S W} {Ready : W → Prop} {initial : String → CacheContent} {sent : List Request}
  {interference : Option Interference}

/-- The requests that a keeper has taken in, of those that were sent. -/
def collected (s : System S W) (sent : List Request) : List Request :=
  sent.take s.keeper.nextPlace

/-- At some time of the run the keeper has left the loop of itself. What it has applied is all that
it had taken in by then. -/
def Exited (around : Surroundings S W) (start : System S W) (sent : List Request)
    (s : System S W) : Prop :=
  ∃ earlier later left store, sent = earlier ++ later ∧ Run around start earlier left ∧
    left.stage = .working store (.leaving none) ∧ Run around left later s ∧
    s.keeper.tally.writesApplied = (Request.writes (left.collected earlier)).length

theorem Exited.step (h : Exited around start sent s) (hsteps : around.steps s interference)
    (hstep : s.step interference = some s')
    (hcount : s'.keeper.tally.writesApplied = s.keeper.tally.writesApplied) :
    Exited around start sent s' := by
  obtain ⟨earlier, later, left, store, hsent, hbefore, hstage, hafter, happlied⟩ := h
  exact ⟨earlier, later, left, store, hsent, hbefore, hstage, hafter.step hsteps hstep,
    hcount.trans happlied⟩

/-- A run that is over has failed, or its keeper has left the loop of itself. -/
inductive Farewell (around : Surroundings S W) (start : System S W) (sent : List Request)
    (s : System S W) : Prop
  | opening (opener : Opener S W) : s.stage = .opening opener → Farewell around start sent s
  | working (store : S) (task : Task) : s.stage = .working store task →
      (task = .closing → Exited around start sent s) → Farewell around start sent s
  | failing (store : Option S) (cause : Failure) : s.stage = .failing store cause →
      Farewell around start sent s
  | failed : s.IsOver → s.log ≠ [] → Farewell around start sent s
  | exited : s.IsOver → Exited around start sent s → Farewell around start sent s

theorem GoesOn.farewell (h : s.GoesOn) : Farewell around start sent s := by
  rcases h with ⟨store, task, hstage, -, hclosing⟩ | ⟨store, text, hstage⟩
  · exact .working store task hstage fun h => absurd h hclosing
  · exact .failing store (.panic text) hstage

theorem farewell_attempt {α : Type} {store : S} {task : Task} {call : StoreCall S W α}
    {next : α → S → System S W → System S W} (hinside : task.isInside = false)
    (hnext : ∀ v st', interference = none → call (store, s.world) = .ok v st' →
      Farewell around start sent (next v st'.1 { s with world := st'.2 })) :
    Farewell around start sent (s.attempt interference store task call next) := by
  have hbreak : ∀ (s : System S W) store e, Farewell around start sent (s.breakOff store task e) :=
    fun s store e => breakOff_rule (fun h => by rw [hinside] at h; cases h)
      fun _ => .failing _ _ rfl
  exact attempt_rule (fun e _ => hbreak _ _ e) (fun text _ => .failing _ _ rfl)
    (fun e _ _ _ => hbreak _ _ e) hnext

theorem Farewell.leave {store : S} {failure : Option StoreError} (hrun : Run around start sent s)
    (hsteps : around.steps s interference) (hstage : s.stage = .working store (.leaving failure))
    (h : Leaving view initial sent s store (.leaving failure))
    (hstep : s.step interference = some s') : Farewell around start sent s' := by
  have hwork : s.step interference = s.work interference store (.leaving failure) := by
    unfold System.step
    rw [hstage]
  have hself : Run around s [] s := .start
  have hafter := hself.step hsteps hstep
  rw [hwork] at hstep
  cases hstep
  refine farewell_attempt rfl fun _ st' hnone hr => ?_
  cases failure with
  | some e => exact .failing _ _ rfl
  | none =>
    subst hnone
    refine .working st'.1 .closing rfl fun _ => ⟨sent, [], s, store, by simp, hrun, hstage, ?_,
      h.complete rfl⟩
    rw [show s.attempt _ _ _ _ _ = _ from (by unfold attempt; rw [hr])] at hafter
    exact hafter

theorem Farewell.step (hrun : Run around start sent s) (hsteps : around.steps s interference)
    (hconsistent : Consistent view initial Ready sent s) (h : Farewell around start sent s)
    (hstep : s.step interference = some s') : Farewell around start sent s' := by
  cases h with
  | opening opener hstage =>
    unfold System.step at hstep
    rw [hstage] at hstep
    cases hstep
    unfold System.openStore
    split
    · exact .failing none _ rfl
    · exact .failing none _ rfl
    · split
      · exact .working _ .entering rfl nofun
      · exact .failing none _ rfl
  | working store task hstage hexited =>
    have hwork : s.step interference = s.work interference store task := by
      unfold System.step
      rw [hstage]
    by_cases hloop : task.InLoop
    · rw [hwork] at hstep
      by_cases hentering : task = .entering
      · subst hentering
        cases hstep
        exact farewell_attempt rfl fun _ st' _ _ => .working st'.1 .collecting rfl nofun
      · exact (goesOn_of_work hstage hloop hentering hstep).farewell
    cases task with
    | leaving failure => exact .leave hrun hsteps hstage (hconsistent.outOfLoop hstage id) hstep
    | closing =>
      have hcount := hexited rfl
      have hafter := hcount.step hsteps hstep
      rw [hwork] at hstep
      cases hstep
      refine farewell_attempt rfl fun _ st' hnone hr => .exited trivial ?_
      subst hnone
      have hnext : s.attempt none store .closing Store.close (fun _ _ s =>
          { s with stage := .draining false }) =
            { s with world := st'.2, stage := .draining false } := by
        unfold attempt
        rw [hr]
      rw [hnext] at hafter
      exact hafter rfl
    | _ => exact absurd trivial hloop
  | failing store cause hstage =>
    unfold System.step at hstep
    rw [hstage] at hstep
    cases hstep
    exact .failed trivial (by simp)
  | failed hover hlog =>
    have hwinds := winds_of_step hover hstep
    exact .failed hwinds.isOver fun hnil => hlog (List.prefix_nil.mp (hnil ▸ hwinds.log))
  | exited hover h =>
    have hwinds := winds_of_step hover hstep
    exact .exited hwinds.isOver (h.step hsteps hstep (congrArg _ hwinds.tally))

theorem Farewell.map {sent' : List Request} (h : Farewell around start sent s)
    (hstage : s'.stage = s.stage) (hlog : s'.log = s.log)
    (hexited : Exited around start sent s → Exited around start sent' s') :
    Farewell around start sent' s' := by
  have hover : s.IsOver → s'.IsOver := by
    unfold IsOver
    rw [hstage]
    exact id
  cases h with
  | opening opener h => exact .opening opener (hstage.trans h)
  | working store task h hclosing =>
    exact .working store task (hstage.trans h) fun he => hexited (hclosing he)
  | failing store cause h => exact .failing store cause (hstage.trans h)
  | failed h hne => exact .failed (hover h) (hlog ▸ hne)
  | exited h he => exact .exited (hover h) (hexited he)

theorem Farewell.send {request : Request} (h : Farewell around start sent s)
    (hsend : s.send request = some s') : Farewell around start (sent ++ [request]) s' := by
  have hsent := hsend
  obtain ⟨inbox, -, rfl⟩ := Option.map_eq_some_iff.mp hsend
  refine h.map rfl rfl ?_
  rintro ⟨earlier, later, left, store, he, hbefore, hstage, hafter, happlied⟩
  refine ⟨earlier, later ++ [request], left, store, ?_, hbefore, hstage, hafter.send hsent, happlied⟩
  rw [he, List.append_assoc]

theorem Farewell.congr (h : Farewell around start sent s) (hstage : s'.stage = s.stage)
    (hkeeper : s'.keeper = s.keeper) (hlog : s'.log = s.log)
    (hrun : ∀ {left later}, Run around left later s → Run around left later s') :
    Farewell around start sent s' := by
  refine h.map hstage hlog ?_
  rintro ⟨earlier, later, left, store, he, hbefore, hleft, hafter, happlied⟩
  exact ⟨earlier, later, left, store, he, hbefore, hleft, hrun hafter, hkeeper ▸ happlied⟩

theorem Run.farewell (hview : view.Faithful) (hothers : ∀ w w', around.others w w' → view.others w w')
    (hordered : ∀ {name entries}, initial name = .ok entries → entries.Ordered)
    (hstart : Consistent view initial Ready [] start) {opener : Opener S W}
    (hopening : start.stage = .opening opener) (hrun : Run around start sent s)
    (hnamed : ∀ r ∈ sent, r.Names view.Named) : Farewell around start sent s := by
  induction hrun with
  | start => exact .opening opener hopening
  | step hrun hsteps hstep ih =>
    have hconsistent := hrun.consistent hview hothers hordered hstart hnamed
    exact (ih hnamed).step hrun hsteps hconsistent hstep
  | send _ hsend ih => exact (ih (Consistent.named hnamed)).send hsend
  | tick nanos _ ih => exact (ih hnamed).congr rfl rfl rfl fun h => h.tick nanos
  | disconnect _ ih => exact (ih hnamed).congr rfl rfl rfl Run.disconnect
  | change world _ hchange ih => exact (ih hnamed).congr rfl rfl rfl fun h => h.change world hchange
  | note status startedAt _ ih =>
    exact (ih hnamed).congr rfl rfl rfl fun h => h.note status startedAt

end

/-! ### Runs on a disk -/

theorem consistentOn_start (hfiles : DistinctFiles dir names d) :
    ConsistentOn dir names d [] (.start (.new interval lookup now)
      (.of (FileStore.openStore dir timeout)) d .empty status clock) :=
  .opening _ rfl (FileStore.opens dir timeout names d) ⟨hfiles, fun _ _ => rfl⟩ rfl
    (Books.start _ lookup)

theorem Run.consistentOn (hstart : ConsistentOn dir names d [] start)
    (hrun : Run undisturbed start sent s) (hnamed : ∀ r ∈ sent, r.Names names) :
    ConsistentOn dir names d sent s :=
  hrun.consistent (FileStore.faithful_view dir names) (fun _ _ h => h) CacheFile.ordered_of_kept
    hstart hnamed

theorem Run.saved (hstart : ConsistentOn dir names d [] start)
    (hopening : start.stage = .opening (.of (FileStore.openStore dir timeout)))
    (hcount : start.keeper.tally.writesApplied = 0) (hrun : Run undisturbed start sent s)
    (hnamed : ∀ r ∈ sent, r.Names names) : Durable dir timeout names d sent s := by
  induction hrun with
  | start => exact .opening hopening hcount
  | step hrun hsteps hstep ih => exact (ih hnamed).step (hrun.consistentOn hstart hnamed) hsteps hstep
  | send hrun hsend ih =>
    have hnamed' := Consistent.named hnamed
    exact (ih hnamed').send (hrun.consistentOn hstart hnamed').past hsend
  | tick nanos _ ih => exact (ih hnamed).congr rfl rfl rfl rfl rfl
  | disconnect _ ih => exact (ih hnamed).congr rfl rfl rfl rfl rfl
  | change world _ hchange ih => exact (ih hnamed).congr rfl rfl rfl hchange.1 hchange.2
  | note _ _ _ ih => exact (ih hnamed).congr rfl rfl rfl rfl rfl

/-- Without a panic the disk has in the end what was applied. -/
theorem Run.saved_of_ended (hstart : ConsistentOn dir names d [] start)
    (hopening : start.stage = .opening (.of (FileStore.openStore dir timeout)))
    (hcount : start.keeper.tally.writesApplied = 0) (hrun : Run undisturbed start sent s)
    (hnamed : ∀ r ∈ sent, r.Names names) (hstage : s.stage = .ended)
    (hpanic : ∀ text, .panic text ∉ s.log) : Saved dir names d sent s := by
  cases hrun.saved hstart hopening hcount hnamed with
  | opening h => rw [hstage] at h; cases h
  | working _ _ h => rw [hstage] at h; cases h
  | panicking _ _ h => rw [hstage] at h; cases h
  | panicked text _ h => exact absurd h (hpanic text)
  | ended _ h => exact h

/-- When a run has ended without a panic, the disk has the first writes that were sent, as many as
were applied. Files that are corrupt have their bytes, and if there was no failure, all writes that
were taken in until the keeper left the loop are there. -/
theorem Run.durable (hfiles : DistinctFiles dir names d)
    (hstart : start = .start (.new interval lookup now) (.of (FileStore.openStore dir timeout)) d
      .empty status clock)
    (hrun : Run undisturbed start sent s) (hnamed : ∀ r ∈ sent, r.Names names)
    (hended : s.hasEnded = true) (hpanic : ∀ text, .panic text ∉ s.log) :
    s.keeper.tally.writesApplied ≤ (Request.writes sent).length ∧
      (∀ name, names name → kept (cachePath dir name) s.world =
        PendingWrite.contentAfter (fun name => kept (cachePath dir name) d)
          ((Request.writes sent).take s.keeper.tally.writesApplied) name) ∧
      (∀ name bytes, names name → kept (cachePath dir name) d = .error bytes →
        ∃ id, s.world.stat (cachePath dir name) = .ok (.file id bytes)) ∧
      (s.log = [] → Exited undisturbed start sent s) := by
  subst hstart
  have hstart : ConsistentOn dir names d [] (.start (.new interval lookup now)
      (.of (FileStore.openStore dir timeout)) d .empty status clock) := consistentOn_start hfiles
  have hstage := stage_of_hasEnded hended
  have hpast := (hrun.consistentOn hstart hnamed).past
  have hsaved := hrun.saved_of_ended hstart rfl rfl hnamed hstage hpanic
  refine ⟨hpast.count, hsaved, fun name bytes hname herror => ?_, fun hlog => ?_⟩
  · refine CacheFile.hasFile_of_kept ((hsaved name hname).trans ?_)
    exact PendingWrite.contentAfter_of_error herror _
  · cases hrun.farewell (FileStore.faithful_view dir names) (fun _ _ h => h)
      CacheFile.ordered_of_kept hstart rfl hnamed with
    | opening _ h => rw [hstage] at h; cases h
    | working _ _ h => rw [hstage] at h; cases h
    | failing _ _ h => rw [hstage] at h; cases h
    | failed _ h => exact absurd hlog h
    | exited _ h => exact h

/-- A write before a stop, on an empty disk. -/
theorem Run.durable_of_put :
    let put : PendingWrite := ⟨⟨"tasks", "str", "utf8"⟩, "1", .put [97]⟩
    ∃ s : System FileStore Disk, s.hasEnded = true ∧ s.log = [] ∧
      kept (cachePath ⟨"store"⟩ "tasks") s.world = .ok [("1", [97])] ∧
      ∃ start, Exited undisturbed start [.write put, .stop] s := by
  intro put
  let d : Disk := .empty ["home"] 1
  let start : System FileStore Disk :=
    .start (.new .zero true ⟨0⟩) (.of (FileStore.openStore ⟨"store"⟩ .zero)) d .empty {} ⟨0⟩
  let begun : System FileStore Disk :=
    { start with inbox := { start.inbox with queue := [.write put, .stop] } }
  have hfiles : DistinctFiles ⟨"store"⟩ (· = "tasks") d :=
    ⟨Disk.wellFormed_empty .., fun n hn => Disk.shows_of_no_up (Disk.wellFormed_empty ..) (hn ▸ by decide),
      fun m n hm hn _ => hm.trans hn.symm⟩
  have hnamed : ∀ r ∈ [Request.write put, .stop], r.Names (· = "tasks") := by
    intro r hr
    rcases List.mem_pair.mp hr with rfl | rfl
    · rfl
    · exact trivial
  have hbegun : Run undisturbed start [.write put, .stop] begun :=
    (Run.start : Run undisturbed start [] start).sendAll rfl [.write put, .stop]
  have hsteps : ∀ m < 15, (begun.proceed m).writesBack none = true := by decide +kernel
  have hended : (begun.proceed 15).hasEnded = true := by decide +kernel
  have hlog : (begun.proceed 15).log = [] := by decide +kernel
  have hcount : (begun.proceed 15).keeper.tally.writesApplied = 1 := by decide +kernel
  have hentries : PendingWrite.contentAfter (fun name => kept (cachePath ⟨"store"⟩ name) d)
      [put] "tasks" = .ok [("1", [97])] := by decide +kernel
  have hrun := hbegun.proceed 15 hsteps
  generalize begun.proceed 15 = s at hended hlog hcount hrun
  obtain ⟨-, hsaved, -, hexited⟩ := hrun.durable hfiles rfl hnamed hended (by simp [hlog])
  refine ⟨s, hended, hlog, ?_, start, hexited hlog⟩
  rw [hsaved "tasks" rfl, hcount]
  exact hentries

/-- A file that is there is not found through a missing directory: nothing is removed from it. -/
theorem Run.removed_kept :
    ¬ ∀ (names : String → Prop) (d : Disk) (sent : List Request) (s : System FileStore Disk),
      d.WellFormed →
      (∀ m n, names m → names n →
        (cachePath ⟨"store"⟩ m).location d.home = (cachePath ⟨"store"⟩ n).location d.home → m = n) →
      Run undisturbed (.start (.new .zero true ⟨0⟩) (.of (FileStore.openStore ⟨"store"⟩ .zero)) d
        .empty {} ⟨0⟩) sent s →
      (∀ r ∈ sent, r.Names names) → s.hasEnded = true → s.log = [] →
      ∀ name, names name → kept (cachePath ⟨"store"⟩ name) s.world =
        PendingWrite.contentAfter (fun name => kept (cachePath ⟨"store"⟩ name) d)
          ((Request.writes sent).take s.keeper.tally.writesApplied) name := by
  intro hclaim
  let remove : PendingWrite := ⟨⟨"x/../a", "str", "utf8"⟩, "k", .remove⟩
  let put : PendingWrite := ⟨⟨"x/b", "str", "utf8"⟩, "k", .put [97]⟩
  let sent : List Request := [.write remove, .write put, .stop]
  let start : System FileStore Disk := .start (.new .zero true ⟨0⟩)
    (.of (FileStore.openStore ⟨"store"⟩ .zero)) FileStore.stocked .empty {} ⟨0⟩
  let begun : System FileStore Disk := { start with inbox := { start.inbox with queue := sent } }
  have hsteps : ∀ m < 20, (begun.proceed m).writesBack none = true := by decide +kernel
  have hseen : (begun.proceed 20).hasEnded = true ∧ (begun.proceed 20).log = [] ∧
      (begun.proceed 20).keeper.tally.writesApplied = 2 ∧
      kept (cachePath ⟨"store"⟩ "x/../a") (begun.proceed 20).world = .ok [("k", [118])] := by
    decide +kernel
  have hafter : PendingWrite.contentAfter (fun name => kept (cachePath ⟨"store"⟩ name) FileStore.stocked)
      [remove, put] "x/../a" = .ok [] := by decide +kernel
  have hrun : Run undisturbed start sent (begun.proceed 20) :=
    ((Run.start : Run undisturbed start [] start).sendAll rfl sent).proceed 20 hsteps
  have hnamed : ∀ r ∈ sent, r.Names FileStore.astray := by
    intro r hr
    simp only [sent, List.mem_cons, List.not_mem_nil, or_false] at hr
    rcases hr with rfl | rfl | rfl
    exacts [.inl rfl, .inr rfl, trivial]
  generalize begun.proceed 20 = s at hseen hrun
  obtain ⟨hended, hlog, hcount, hkept⟩ := hseen
  have hsaved := hclaim _ FileStore.stocked sent s FileStore.wellFormed_stocked FileStore.distinct_astray
    hrun hnamed hended hlog "x/../a" (.inl rfl)
  rw [hkept, hcount] at hsaved
  cases hsaved.trans hafter

end HistoryKeeper.System
