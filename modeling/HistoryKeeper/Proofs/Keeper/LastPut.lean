import HistoryKeeper.Proofs.Keeper.Dialog
import HistoryKeeper.Proofs.Keeper.Opening
import HistoryKeeper.Proofs.Keeper.Progress

/-!
# Programs read what they put last

`Dialog.reads_last_put`: a get returns the value that was put last on its key, however far the call
and the keeper have come, as long as no call on the store fails. The call does return, because it and
the keeper have only so much left to do, and a keeper that has nothing left to do has answered.
-/

namespace HistoryKeeper

namespace Dialog

variable {S W : Type} [Store S W] {view : StoreView S W} {initial : String → CacheContent}
  {Ready : W → Prop} {others : W → W → Prop} {first c : Controller S W}
  {declared : List SomeHandle} {written : List TypedWrite} {errand : Errand}

theorem completeWithin (h : Dialog others first declared written (some errand) c) (n : Nat) :
    Dialog others first declared written (some errand)
      { c with service := c.service.completeWithin n 0 } := by
  refine Service.completeWithin_rule (i := 0)
    (P := fun service => Dialog others first declared written (some errand) { c with service })
    (fun s s' h hstep => h.call hstep) (fun s s' h hturn => ?_) n h
  obtain ⟨service, hstep, rfl⟩ := Service.keeperTurn_eq_some hturn
  exact (h.keeper hstep).tick 1

theorem storeFailed_completeWithin {s : Service S W} (h : s.system.StoreFailed) (n : Nat) :
    (s.completeWithin n 0).system.StoreFailed := by
  refine Service.completeWithin_rule (P := fun s => s.system.StoreFailed) (fun s s' h hstep => ?_)
    (fun s s' h hturn => ?_) n h
  · obtain ⟨hstage, hlog, -⟩ := Service.callStep_system hstep
    exact h.congr hstage hlog
  · obtain ⟨service, hstep, rfl⟩ := Service.keeperTurn_eq_some hturn
    obtain ⟨-, system, hsystem, rfl⟩ := Service.keeperStep_eq_some hstep
    exact (h.step hsystem).congr rfl rfl

theorem clock_le_completeWithin (s : Service S W) (n : Nat) :
    s.system.clock.nanos ≤ (s.completeWithin n 0).system.clock.nanos := by
  refine Service.completeWithin_rule
    (P := fun s' => s.system.clock.nanos ≤ s'.system.clock.nanos) (fun s' s'' h hstep => ?_)
    (fun s' s'' h hturn => ?_) n (Nat.le_refl _)
  · rw [(Service.callStep_system hstep).2.2]
    exact h
  · obtain ⟨service, hstep, rfl⟩ := Service.keeperTurn_eq_some hturn
    obtain ⟨-, system, hsystem, rfl⟩ := Service.keeperStep_eq_some hstep
    have hclock : system.clock = s'.system.clock :=
      congrArg (·.2.2.2) (System.constants_step hsystem)
    show _ ≤ system.clock.nanos + 1
    rw [hclock]
    exact Nat.le_succ_of_le h

variable {key : ValueType} {codec : Codec} {h : Handle key codec} {k : key.Carrier}
  {past sent : List Request} {read : PendingRead} {since : Instant}

/-- A call that waits does so for a keeper that has something to do. -/
theorem Orderly.turns (hg : Grounds view initial Ready others first)
    (ho : Orderly others first view.Named declared written (some (.get h k)) c past
      (past ++ [.read read]))
    (hcalls : c.service.calls = [.awaiting read.token since]) (hstarted : c.status.started = true)
    (hstep : c.service.callStep 0 = none) :
    ∃ service, c.service.keeperTurn = some service ∧ service.toil < c.service.toil := by
  have houtcome : c.service.system.outcome? read.token = none := by
    unfold Service.callStep at hstep
    rw [hcalls] at hstep
    simp only [List.getElem?_cons_zero] at hstep
    split at hstep
    · assumption
    · cases hstep
  have hidles := ho.run.idles hg.idles
  have hrests : ¬ c.service.system.Rests := by
    intro hrests
    have hanswers :=
      System.answers_of_rests ho.serving hidles (ho.consistent hg) hrests (ho.lookup hg)
    rw [Request.answersInOrder_append] at hanswers
    have hmem : (read.token, read.valueAfter initial (Request.writes past)) ∈
        c.service.system.answers := by
      rw [hanswers]
      exact List.mem_append_right _ (List.mem_singleton_self _)
    exact System.outcome?_ne_none_of_answered hmem houtcome
  have hended : c.service.system.stage ≠ .ended := by
    intro hended
    refine ho.serving.not_isOver ?_
    unfold System.IsOver
    rw [hended]
    trivial
  obtain ⟨system, hsystem⟩ := System.exists_step hrests hended
  have hkeeper : c.service.keeperStep none = some { c.service with system } := by
    rw [Service.keeperStep, if_pos (ho.running hstarted), hsystem]
    rfl
  have htoil := Service.toil_keeperStep hidles hrests hkeeper
  exact ⟨{ c.service with system := system.tick 1 }, by rw [Service.keeperTurn, hkeeper]; rfl, htoil⟩

theorem returns (hg : Grounds view initial Ready others first)
    (hd : Dialog others first declared written (some (.get h k)) c)
    (hnames : ∀ h ∈ declared, view.Named h.handle.identity.name) {n : Nat} (hn : c.service.toil ≤ n)
    (hclock : (c.service.completeWithin n 0).system.clock.nanos < Instant.limit)
    (hfailed : ¬ (c.service.completeWithin n 0).system.StoreFailed) :
    ∃ result, (c.service.completeWithin n 0).calls = [.returned result] := by
  induction n generalizing c with
  | zero =>
    obtain ⟨past, sent, -, hu⟩ := (orderly hg hd hnames hclock).resolve_left hfailed
    cases hu with
    | asking hcalls | sending hcalls | awaiting hcalls =>
      have htoil := Nat.le_trans (Service.call_toil_le hcalls) hn
      exact absurd htoil (Nat.not_succ_le_zero _)
    | answered hcalls => exact ⟨_, hcalls⟩
  | succ n ih =>
    have horderly := orderly hg hd hnames
      (Nat.lt_of_le_of_lt (clock_le_completeWithin c.service _) hclock)
    obtain ⟨past, sent, ho, hu⟩ := horderly.resolve_left fun h =>
      hfailed (storeFailed_completeWithin h _)
    cases hstep : c.service.callStep 0 with
    | some service =>
      rw [Service.completeWithin_call hstep] at hclock hfailed ⊢
      exact ih (hd.call hstep) (Nat.le_of_lt_succ (Nat.lt_of_lt_of_le
        (Service.toil_callStep hstep) hn)) hclock hfailed
    | none =>
      cases hu with
      | asking hcalls =>
        unfold Service.callStep at hstep
        rw [hcalls] at hstep
        simp only [List.getElem?_cons_zero] at hstep
        split at hstep <;> cases hstep
      | sending hcalls =>
        unfold Service.callStep at hstep
        rw [hcalls] at hstep
        cases hstep
      | @awaiting _ _ _ _ read since hcalls hstarted =>
        obtain ⟨service, hturn, htoil⟩ := ho.turns hg hcalls hstarted hstep
        have hcall : c.service.calls[0]? = some (.awaiting read.token since) := by rw [hcalls]; rfl
        rw [Service.completeWithin_turn hcall nofun hstep hturn] at hclock hfailed ⊢
        obtain ⟨service, hkeeper, rfl⟩ := Service.keeperTurn_eq_some hturn
        exact ih ((hd.keeper hkeeper).tick 1) (Nat.le_of_lt_succ (Nat.lt_of_lt_of_le htoil hn)) hclock
          hfailed
      | answered hcalls =>
        rw [Service.completeWithin_returned (by rw [hcalls]; rfl)]
        exact ⟨_, hcalls⟩

theorem answer_seeThrough (hg : Grounds view initial Ready others first)
    (hd : Dialog others first declared written (some (.get h k)) c)
    (hnames : ∀ h ∈ declared, view.Named h.handle.identity.name)
    (hempty : ∀ name, view.Named name → initial name = .ok [])
    (hclock : c.seeThrough.service.system.clock.nanos < Instant.limit)
    (hfailed : ¬ c.seeThrough.service.system.StoreFailed) :
    c.seeThrough.answer codec = .ok (TypedWrite.lastValue h k written) := by
  obtain ⟨past, sent, -, hu⟩ := (orderly hg hd hnames (Nat.lt_of_le_of_lt
    (clock_le_completeWithin c.service _) hclock)).resolve_left fun h =>
      hfailed (storeFailed_completeWithin h _)
  have htoil : c.service.toil ≤ c.service.effort + 16 := by
    cases hu with
    | asking hcalls | sending hcalls | awaiting hcalls | answered hcalls =>
      exact Service.toil_le_effort hcalls
  obtain ⟨result, hcalls⟩ := returns hg hd hnames htoil hclock hfailed
  obtain ⟨past, sent, ho, hu⟩ :=
    (orderly hg (completeWithin hd _) hnames hclock).resolve_left hfailed
  have hresult : c.seeThrough.service.result? 0 = some result :=
    Service.result?_eq_some_iff.mpr (congrArg (·[0]?) hcalls)
  cases hu with
  | asking hc | sending hc | awaiting hc =>
    rw [hcalls] at hc
    cases hc
  | answered hc hasks =>
    rw [hcalls] at hc
    cases hc
    obtain ⟨text, token, htext, he, -⟩ := hasks
    cases he
    obtain ⟨hname, hdeclared, hk⟩ := ho.sound rfl
    rw [Controller.answer, hresult, ho.stored]
    exact TypedWrite.decodeAnswer_valueAfter ho.storable hdeclared hk htext (hempty _ hname)

/-! ### Programs on stores -/

variable {names : String → Prop} {kind : StoreKind} {dir : Path} {timeout : Duration} {site : Site}
  {settings : Settings} {others : Site → Site → Prop} {c : Controller AnyStore Site}

theorem grounds_new (hlookup : settings.pendingLookup = true)
    (hfiles : AnyStore.DistinctFiles kind dir names site)
    (hothers : ∀ w w', others w w' → w'.disk.nodes = w.disk.nodes ∧ w'.disk.home = w.disk.home) :
    Grounds (AnyStore.view dir names) (AnyStore.initial kind dir site)
      (AnyStore.Ready kind dir names site) others
      (.new settings (.of (AnyStore.openStore kind dir timeout)) site) := by
  refine ⟨AnyStore.faithful_view dir names, hothers, AnyStore.ordered_initial,
    .opening _ rfl (AnyStore.opens kind dir timeout names site) (AnyStore.ready hfiles) rfl
      (Books.start _ _), hlookup, System.idles_of_not_working nofun, rfl, nofun,
    List.forall_mem_nil _, nofun, List.forall_mem_nil _, rfl, .start, List.forall_mem_nil _,
    List.forall_mem_nil _, ?_, rfl, nofun⟩
  refine .opening _ rfl (fun h => ?_) ⟨rfl, rfl, nofun, rfl, rfl, rfl, rfl⟩
    ⟨Nat.le_refl _, Nat.le_refl _, Nat.le_refl _⟩
  obtain ⟨e, -, he⟩ := Opener.of_eq_error h
  exact ⟨e, he⟩

/-- A get returns the value that was put last on its key, and none if it was removed since or never
put, on a store that holds nothing at first and does not fail. -/
theorem reads_last_put (hlookup : settings.pendingLookup = true)
    (hfiles : AnyStore.DistinctFiles kind dir names site)
    (hempty : ∀ name, names name → AnyStore.initial kind dir site name = .ok [])
    (hothers : ∀ w w', others w w' → w'.disk.nodes = w.disk.nodes ∧ w'.disk.home = w.disk.home)
    (hd : Dialog others (.new settings (.of (AnyStore.openStore kind dir timeout)) site) declared
      written (some (.get h k)) c)
    (hnames : ∀ h ∈ declared, names h.handle.identity.name)
    (hclock : c.seeThrough.service.system.clock.nanos < Instant.limit)
    (hfailed : ¬ c.seeThrough.service.system.StoreFailed) :
    c.seeThrough.answer codec = .ok (TypedWrite.lastValue h k written) :=
  answer_seeThrough (grounds_new hlookup hfiles hothers) hd hnames hempty hclock hfailed

/-- A get behind a put, on an empty disk. -/
theorem reads_last_put_of_milk :
    ∃ (c : Controller AnyStore Site) (h : Handle .keyText .utf8) (w : TypedWrite),
      c.seeThrough.answer .utf8 = .ok (TypedWrite.lastValue h "1" [w]) ∧
        c.seeThrough.answer .utf8 = .ok (some "milk") := by
  let site : Site := { disk := .empty ["home"] 1, probe := {} }
  let fresh : Controller AnyStore Site :=
    .new .standard (.of (AnyStore.openStore .file ⟨"store"⟩ .zero)) site
  let h : Handle .keyText .utf8 := ⟨⟨"tasks", "str", "utf8"⟩⟩
  let w : TypedWrite := ⟨h, "1", some "milk"⟩
  let declared : Controller AnyStore Site := (fresh.declare "tasks" .keyText .utf8).2
  let started := (Errand.start.begin declared).seeThrough
  let idle : Controller AnyStore Site := { started with service := { started.service with calls := [] } }
  let put := ((Errand.write w).begin idle).seeThrough
  let ready : Controller AnyStore Site := { put with service := { put.service with calls := [] } }
  let asking := (Errand.get h "1").begin ready
  have hdeclared : Dialog (fun w w' => w' = w) fresh [⟨h⟩] [] none declared :=
    Dialog.first.declare "tasks" .keyText .utf8 (h := h) rfl
  have hlaunched : started.service.result? 0 = some (.ok .done) := by decide +kernel
  have hstarted : Dialog (fun w w' => w' = w) fresh [⟨h⟩] [] none idle :=
    (completeWithin (hdeclared.begin .start trivial) _).finish
      (Service.calls_of_result? (by decide +kernel) hlaunched)
  have hsent : put.service.result? 0 = some (.ok .done) := by decide +kernel
  have hput : Dialog (fun w w' => w' = w) fresh [⟨h⟩] [w] none ready :=
    (completeWithin (hstarted.begin (.write w) ⟨by decide +kernel, List.mem_singleton_self _,
      trivial, fun _ => trivial⟩) _).finish (Service.calls_of_result? (by decide +kernel) hsent)
  have hget : Dialog (fun w w' => w' = w) fresh [⟨h⟩] [w] (some (.get h "1")) asking :=
    hput.begin (.get h "1") ⟨by decide +kernel, List.mem_singleton_self _, trivial⟩
  have hfiles : AnyStore.DistinctFiles .file ⟨"store"⟩ (· = "tasks") site :=
    ⟨Disk.wellFormed_empty .., fun n hn => Disk.shows_of_no_up (Disk.wellFormed_empty ..) (hn ▸ by decide),
      fun m n hm hn _ => hm.trans hn.symm⟩
  have hanswer := hget.reads_last_put rfl hfiles
    (fun n hn => by rw [hn]; decide +kernel) (fun _ _ he => by rw [he]; exact ⟨rfl, rfl⟩)
    (fun h' hh => by rw [List.mem_singleton.mp hh]) (by decide +kernel)
    (System.not_storeFailed_of_serves (by decide +kernel))
  have hmilk : ∀ x : Except CacheError (Option String), decide (x = .ok (some "milk")) = true →
      x = .ok (some "milk") := fun _ => of_decide_eq_true
  exact ⟨asking, h, w, hanswer, hmilk _ (by decide +kernel)⟩

end Dialog

end HistoryKeeper
