import HistoryKeeper.Proofs.Keeper.Consistent
import HistoryKeeper.Proofs.Keeper.Toil
import HistoryKeeper.Proofs.Time.Instant

/-!
# Keepers whose stores do not fail

`System.Serving`: the keeper opens its store or serves requests, nobody has stopped it and nothing has
gone wrong. It stays so for as long as no call on the store fails and the clock can show the time
(`Serving.step`); once it rests, every read is answered (`answers_of_rests`).
-/

namespace HistoryKeeper

namespace Tally

/-- The keeper has been idle for no longer than until `since`, which is not in the future. -/
structure Timely (t : Tally) (since now : Instant) : Prop where
  idle : t.idle.nanos ≤ since.nanos
  past : since.nanos ≤ now.nanos
  released : t.lockReleased.nanos ≤ t.idle.nanos

theorem Timely.later {t : Tally} {since now later : Instant} (h : t.Timely since now)
    (hlater : now.nanos ≤ later.nanos) : t.Timely since later :=
  ⟨h.idle, Nat.le_trans h.past hlater, h.released⟩

theorem Timely.upToNow {t : Tally} {since now : Instant} (h : t.Timely since now) : t.Timely now now :=
  ⟨Nat.le_trans h.idle h.past, Nat.le_refl _, h.released⟩

theorem add?_of_fits {a b : Duration} (h : a.nanos + b.nanos < Instant.limit) :
    ∃ c, a.add? b = some c ∧ c.nanos = a.nanos + b.nanos := by
  have hfits : a.nanos + b.nanos < Word.size64 * nanosPerSecond := by
    simp only [Instant.limit, Word.size63, Word.size64, nanosPerSecond] at *
    omega
  exact ⟨⟨_, hfits⟩, by rw [Duration.add?, Duration.ofNanos?, dif_pos hfits], rfl⟩

theorem Timely.recordIdle {t : Tally} {since now : Instant} (h : t.Timely since now)
    (hnow : now.nanos < Instant.limit) (lockReleased : Bool) :
    ∃ tally, t.recordIdle (now.since since) lockReleased = some tally ∧ tally.Timely now now := by
  have hpast := h.past
  have hidle := h.idle
  have hreleased := h.released
  have hwaited : (now.since since).nanos = now.nanos - since.nanos := Instant.nanos_since hnow
  obtain ⟨idle, hadd, hsum⟩ := add?_of_fits (a := t.idle) (b := now.since since) (by omega)
  cases lockReleased with
  | false =>
    refine ⟨{ t with idle }, by rw [Tally.recordIdle, hadd]; rfl, ?_, Nat.le_refl _, ?_⟩
    · show idle.nanos ≤ now.nanos
      omega
    · show t.lockReleased.nanos ≤ idle.nanos
      omega
  | true =>
    obtain ⟨released, hadd', hsum'⟩ :=
      add?_of_fits (a := t.lockReleased) (b := now.since since) (by omega)
    refine ⟨{ t with idle, lockReleased := released }, ?_, ?_, Nat.le_refl _, ?_⟩
    · rw [Tally.recordIdle, hadd]
      show (t.lockReleased.add? (now.since since) >>= fun d => _ : Option Tally) = _
      rw [hadd']
      rfl
    · show idle.nanos ≤ now.nanos
      omega
    · show released.nanos ≤ idle.nanos
      omega

end Tally

namespace System

variable {S W : Type} {s s' : System S W} {store : S} {task : Task}

/-- A call on the store has failed. -/
inductive StoreFailed (s : System S W) : Prop
  | leaving {store : S} {e : StoreError} : s.stage = .working store (.leaving (some e)) →
      StoreFailed s
  | failing {store : Option S} {e : StoreError} : s.stage = .failing store (.store e) → StoreFailed s
  | failed {e : StoreError} : s.IsOver → .store e ∈ s.log → StoreFailed s

/-- The keeper is in the loop that serves requests. -/
def serves (s : System S W) : Bool :=
  match s.stage with
  | .working _ (.leaving _) | .working _ .closing => false
  | .working _ _ => true
  | _ => false

theorem not_storeFailed_of_serves (h : s.serves = true) : ¬ s.StoreFailed := by
  intro hfailed
  unfold serves at h
  cases hfailed with
  | leaving hstage => rw [hstage] at h; cases h
  | failing hstage => rw [hstage] at h; cases h
  | failed hover _ =>
    unfold IsOver at hover
    cases hstage : s.stage with
    | working _ _ => rw [hstage] at hover; exact hover
    | _ => rw [hstage] at h; cases h

theorem StoreFailed.step [Store S W] (h : s.StoreFailed) (hstep : s.step none = some s') :
    s'.StoreFailed := by
  cases h with
  | leaving hstage =>
    unfold System.step at hstep
    rw [hstage] at hstep
    cases hstep
    exact attempt_rule nofun nofun (fun _ _ _ _ => .failing rfl) fun _ _ _ _ => .failing rfl
  | failing hstage =>
    unfold System.step at hstep
    rw [hstage] at hstep
    cases hstep
    exact .failed trivial (List.mem_append_right _ (List.mem_singleton_self _))
  | failed hover hlog =>
    have hwinds := winds_of_step hover hstep
    exact .failed hwinds.isOver (hwinds.log.subset hlog)

theorem StoreFailed.congr (h : s.StoreFailed) (hstage : s'.stage = s.stage) (hlog : s'.log = s.log) :
    s'.StoreFailed := by
  cases h with
  | leaving h => exact .leaving (hstage.trans h)
  | failing h => exact .failing (hstage.trans h)
  | failed hover h =>
    refine .failed ?_ (hlog ▸ h)
    unfold IsOver at hover ⊢
    rw [hstage]
    exact hover

/-- Nobody has stopped the keeper, and nothing has gone wrong. -/
structure Calm (s : System S W) : Prop where
  hasSenders : s.inbox.hasSenders = true
  hasReceiver : s.inbox.hasReceiver = true
  noStop : .stop ∉ s.inbox.queue
  unstopped : s.keeper.stopRequested = false
  dropped : s.dropped = []
  unfailed : s.status.failed = false
  unended : s.status.stopped = false

end System

namespace Task

/-- Since when the keeper is idle; now if it is not. -/
def idleSince (task : Task) (pacing : Pacing) (now : Instant) : Instant :=
  match task with
  | .waiting since => since
  | .releasing | .released | .reacquiring _ => pacing.releasedSince.getD now
  | _ => now

theorem idleSince_of_busy {task : Task} (h : ¬ task.IsIdle) (pacing : Pacing) (now : Instant) :
    task.idleSince pacing now = now := by
  cases task with
  | waiting _ | releasing | released | reacquiring _ => exact absurd trivial h
  | _ => rfl

end Task

namespace System

variable {S W : Type} {s s' : System S W} {store : S} {task : Task}

/-- The keeper serves requests. -/
structure AtWork (s : System S W) (task : Task) : Prop where
  loop : task.InLoop
  calm : s.Calm
  received : ∀ {outcome}, task = .reacquiring outcome →
    ∃ request, outcome = .ok (some request) ∧ request ≠ .stop
  timely : s.keeper.tally.Timely (task.idleSince s.keeper.pacing s.clock) s.clock

inductive Serving (s : System S W) : Prop
  | opening (opener : Opener S W) : s.stage = .opening opener →
      (∀ {w cause w'}, opener w = .error cause w' → ∃ e, cause = .store e) → s.Calm →
      s.keeper.tally.Timely s.clock s.clock → Serving s
  | working (store : S) (task : Task) : s.stage = .working store task → s.AtWork task → Serving s

theorem Calm.congr (h : s.Calm) (hinbox : s'.inbox = s.inbox)
    (hstop : s'.keeper.stopRequested = s.keeper.stopRequested) (hdropped : s'.dropped = s.dropped)
    (hstatus : s'.status = s.status) : s'.Calm :=
  ⟨hinbox ▸ h.hasSenders, hinbox ▸ h.hasReceiver, hinbox ▸ h.noStop, hstop ▸ h.unstopped,
    hdropped ▸ h.dropped, hstatus ▸ h.unfailed, hstatus ▸ h.unended⟩

theorem AtWork.timely_now (h : s.AtWork task) (hbusy : ¬ task.IsIdle) :
    s.keeper.tally.Timely s.clock s.clock := by
  have htimely := h.timely
  rw [Task.idleSince_of_busy hbusy] at htimely
  exact htimely

theorem serving_go (hcalm : s.Calm) (hloop : task.InLoop) (hbusy : ¬ task.IsIdle)
    (htimely : s.keeper.tally.Timely s.clock s.clock) : (s.go store task).Serving := by
  refine .working store task rfl ⟨hloop, hcalm.congr rfl rfl rfl rfl, fun he => ?_, ?_⟩
  · rw [he] at hbusy
    exact absurd trivial hbusy
  · rw [Task.idleSince_of_busy hbusy]
    exact htimely

theorem Serving.calm (h : s.Serving) : s.Calm := by
  cases h with
  | opening _ _ _ hcalm _ => exact hcalm
  | working _ _ _ h => exact h.calm

theorem Serving.atWork (h : s.Serving) (hstage : s.stage = .working store task) : s.AtWork task := by
  cases h with
  | opening _ hopening => rw [hstage] at hopening; cases hopening
  | working _ _ hworking h => rw [hstage] at hworking; cases hworking; exact h

theorem Serving.not_isOver (h : s.Serving) : ¬ s.IsOver := by
  unfold IsOver
  cases h with
  | opening _ hstage => rw [hstage]; exact id
  | working _ _ hstage => rw [hstage]; exact id

/-! ### Taking requests in -/

theorem Calm.receive {request : Request} {inbox : Inbox} (h : s.Calm)
    (hreceive : s.inbox.receive = .request request inbox) :
    request ≠ .stop ∧ ({ s with inbox } : System S W).Calm := by
  obtain ⟨hqueue, hsenders, hreceiver⟩ := Inbox.queue_of_receive hreceive
  have hnoStop := h.noStop
  rw [hqueue, List.mem_cons, not_or] at hnoStop
  exact ⟨Ne.symm hnoStop.1, hsenders.trans h.hasSenders, hreceiver.trans h.hasReceiver,
    hnoStop.2, h.unstopped, h.dropped, h.unfailed, h.unended⟩

theorem Calm.enqueue {request : Request} (h : s.Calm) (hrequest : request ≠ .stop) :
    ({ s with keeper := s.keeper.enqueue request } : System S W).Calm := by
  refine ⟨h.hasSenders, h.hasReceiver, h.noStop, ?_, h.dropped, h.unfailed, h.unended⟩
  cases request with
  | stop => exact absurd rfl hrequest
  | _ => exact h.unstopped

theorem serving_enqueue {request : Request} (hcalm : s.Calm) (hrequest : request ≠ .stop)
    (htimely : s.keeper.tally.Timely s.clock s.clock) :
    ({ s with keeper := s.keeper.enqueue request }.go store .collecting).Serving := by
  have htally : (s.keeper.enqueue request).tally = s.keeper.tally := by cases request <;> rfl
  exact serving_go (hcalm.enqueue hrequest) trivial id (htally ▸ htimely)

theorem waited_of_reacquire (pacing : Pacing) (now : Instant) :
    (pacing.reacquire now).1 = now.since (pacing.releasedSince.getD now) := by
  unfold Pacing.reacquire
  cases pacing.releasedSince with
  | some since => rfl
  | none =>
    show Duration.zero = now.since now
    unfold Instant.since
    rw [Nat.sub_self]
    rfl

section
variable [Store S W] {store₁ : S} {received : Option (Option Request)} {waited : Duration}
  {lockReleased : Bool} {s₁ : System S W}

theorem AtWork.awake (h : s.AtWork task) (hclock : s.clock.nanos < Instant.limit)
    (hawakes : Awakes s store task received waited lockReleased s₁ store₁) :
    ∃ tally, s.keeper.tally.recordIdle waited lockReleased = some tally ∧
      ({ s₁ with keeper := { s₁.keeper with tally }.hear received }.go store₁ .collecting).Serving := by
  have hconnected := Inbox.receive_ne_disconnected h.calm.hasSenders
  cases hawakes with
  | request hreceive =>
    obtain ⟨hrequest, hcalm⟩ := h.calm.receive hreceive
    obtain ⟨tally, ht, htimely⟩ := h.timely.recordIdle hclock false
    let awake : System S W := { s with keeper := { s.keeper with tally } }
    exact ⟨tally, ht, serving_enqueue (s := { awake with inbox := _ })
      (hcalm.congr rfl rfl rfl rfl) hrequest htimely⟩
  | disconnected hreceive => exact absurd hreceive hconnected
  | deadline =>
    obtain ⟨tally, ht, htimely⟩ := h.timely.recordIdle hclock false
    exact ⟨tally, ht, serving_go (h.calm.congr rfl rfl rfl rfl) trivial id htimely⟩
  | @reacquired received store' world hr =>
    obtain ⟨request, he, hrequest⟩ := h.received rfl
    cases he
    obtain ⟨tally, ht, htimely⟩ := h.timely.recordIdle hclock true
    let pacing := (s.keeper.pacing.reacquire s.clock).2
    let awake : System S W := { s with world, keeper := { s.keeper with pacing, tally } }
    exact ⟨tally, (waited_of_reacquire ..) ▸ ht,
      serving_enqueue (s := awake) (h.calm.congr rfl rfl rfl rfl) hrequest htimely⟩

/-- The keeper goes on serving, unless a call on the store fails. -/
theorem Serving.step (h : s.Serving) (hclock : s.clock.nanos < Instant.limit)
    (hstep : s.step none = some s') : s'.StoreFailed ∨ s'.Serving := by
  have hover := h.not_isOver
  have hconnected := Inbox.receive_ne_disconnected h.calm.hasSenders
  unfold IsOver at hover
  cases moves_of_step hstep with
  | opened hstage =>
    cases h with
    | opening _ _ _ hcalm htimely =>
      exact Or.inr (serving_go ⟨hcalm.hasSenders, hcalm.hasReceiver, hcalm.noStop, hcalm.unstopped,
        hcalm.dropped, hcalm.unfailed, hcalm.unended⟩ trivial id htimely)
    | working _ _ hworking => rw [hstage] at hworking; cases hworking
  | unopened hstage herror =>
    cases h with
    | opening _ hopening hopener =>
      rw [hstage] at hopening
      cases hopening
      obtain ⟨e, rfl⟩ := hopener (herror rfl)
      exact Or.inl (.failing rfl)
    | working _ _ hworking => rw [hstage] at hworking; cases hworking
  | broken => exact Or.inl (.leaving rfl)
  | failed => exact Or.inl (.failing rfl)
  | crashed _ _ hpanic => cases hpanic
  | brokenReleased _ hfailure => cases hfailure
  | entered hstage | tookAll hstage | pickedRead hstage | pickedWrite hstage =>
    have hw := h.atWork hstage
    exact Or.inr (serving_go (hw.calm.congr rfl rfl rfl rfl) trivial id (hw.timely_now id))
  | answeredFromWrites hstage | answeredFromStore hstage | applied hstage =>
    have hw := h.atWork hstage
    have htimely := hw.timely_now id
    exact Or.inr (serving_go (hw.calm.congr rfl rfl rfl rfl) trivial id
      ⟨htimely.idle, htimely.past, htimely.released⟩)
  | openedCache hstage _ hcache =>
    have hw := h.atWork hstage
    have hbusy := Task.not_isIdle_of_cache hcache
    exact Or.inr (serving_go (hw.calm.congr rfl rfl rfl rfl) hw.loop hbusy (hw.timely_now hbusy))
  | took hstage hreceive =>
    obtain ⟨hrequest, hcalm⟩ := h.calm.receive hreceive
    exact Or.inr (serving_enqueue hcalm hrequest ((h.atWork hstage).timely_now id))
  | releases hstage | rests hstage =>
    have hw := h.atWork hstage
    exact Or.inr (.working _ _ rfl
      ⟨trivial, hw.calm.congr rfl rfl rfl rfl, nofun, hw.timely_now id⟩)
  | released hstage =>
    have hw := h.atWork hstage
    exact Or.inr (.working _ _ rfl ⟨trivial, hw.calm.congr rfl rfl rfl rfl, nofun, hw.timely⟩)
  | tookReleased hstage _ hreceive =>
    have hw := h.atWork hstage
    obtain ⟨hrequest, hcalm⟩ := hw.calm.receive hreceive
    refine Or.inr (.working _ _ rfl ⟨trivial, hcalm.congr rfl rfl rfl rfl, fun he => ?_, hw.timely⟩)
    cases he
    exact ⟨_, rfl, hrequest⟩
  | awoke hstage hawakes ht =>
    obtain ⟨tally, ht', hserving⟩ := (h.atWork hstage).awake hclock hawakes
    rw [ht] at ht'
    cases ht'
    exact Or.inr hserving
  | overflowed hstage hawakes ht =>
    obtain ⟨tally, ht', -⟩ := (h.atWork hstage).awake hclock hawakes
    rw [ht] at ht'
    cases ht'
  | sawEnd _ hreceive | sawEndReleased _ _ hreceive => exact absurd hreceive hconnected
  | exited _ _ _ hstop => rw [h.calm.unstopped] at hstop; cases hstop
  | reacquiredBroken hstage =>
    obtain ⟨_, he, -⟩ := (h.atWork hstage).received rfl
    cases he
  | left hstage | leftFailed hstage | closed hstage => exact (h.atWork hstage).loop.elim
  | letGo hstage | drained hstage | drainedAll hstage | finished hstage | parted hstage =>
    rw [hstage] at hover
    exact absurd trivial hover

end

/-! ### What others do -/

theorem timely_later {tally : Tally} {pacing : Pacing} {now later : Instant}
    (h : tally.Timely (task.idleSince pacing now) now) (hlater : now.nanos ≤ later.nanos) :
    tally.Timely (task.idleSince pacing later) later := by
  have hnow : tally.Timely now now → tally.Timely later later := fun h =>
    ⟨Nat.le_trans h.idle hlater, Nat.le_refl _, h.released⟩
  have hreleased : tally.Timely (pacing.releasedSince.getD now) now →
      tally.Timely (pacing.releasedSince.getD later) later := by
    cases pacing.releasedSince with
    | none => exact hnow
    | some since => exact fun h => h.later hlater
  cases task with
  | waiting since => exact h.later hlater
  | releasing | released | reacquiring _ => exact hreleased h
  | _ => exact hnow h

/-- The keeper goes on whatever others do, if they do not stop it. -/
theorem Serving.later (h : s.Serving) (hcalm : s'.Calm) (hstage : s'.stage = s.stage)
    (hkeeper : s'.keeper = s.keeper) (hclock : s.clock.nanos ≤ s'.clock.nanos) : s'.Serving := by
  cases h with
  | opening opener h hopener _ htimely =>
    refine .opening opener (hstage.trans h) hopener hcalm ?_
    rw [hkeeper]
    exact ⟨Nat.le_trans htimely.idle hclock, Nat.le_refl _, htimely.released⟩
  | working store task hworking h =>
    refine .working store task (hstage.trans hworking) ⟨h.loop, hcalm, h.received, ?_⟩
    rw [hkeeper]
    exact timely_later h.timely hclock

theorem Calm.send {request : Request} (h : s.Calm) (hrequest : request ≠ .stop)
    (hsend : s.send request = some s') : s'.Calm := by
  obtain ⟨inbox, hinbox, rfl⟩ := Option.map_eq_some_iff.mp hsend
  unfold Inbox.send at hinbox
  rw [if_pos h.hasReceiver] at hinbox
  cases hinbox
  refine ⟨h.hasSenders, h.hasReceiver, ?_, h.unstopped, h.dropped, h.unfailed, h.unended⟩
  intro hmem
  rcases List.mem_append.mp hmem with hmem | hmem
  · exact h.noStop hmem
  · exact hrequest (List.mem_singleton.mp hmem).symm

theorem answers_of_rests {view : StoreView S W} {initial : String → CacheContent} {Ready : W → Prop}
    {sent : List Request} (h : s.Serving) (hidles : s.Idles) (hconsistent : Consistent view initial Ready sent s)
    (hrests : s.Rests) (hlookup : s.keeper.pendingLookup = true) :
    s.answers = Request.answersInOrder initial [] sent := by
  obtain ⟨hqueue, -, hwaits⟩ := hrests
  cases h with
  | opening opener hstage => rw [hstage] at hwaits; exact hwaits.elim
  | working store task hstage h =>
    rw [hstage] at hwaits
    have htask : task.IsIdle ∧ task.received = [] ∧ task.reading = [] := by
      cases task with
      | waiting _ | released => exact ⟨trivial, rfl, rfl⟩
      | _ => exact hwaits.elim
    obtain ⟨hidle, hreceived, hreading⟩ := htask
    obtain ⟨taken, applied, hw⟩ := hconsistent.inLoop hstage h.loop
    have hsent : sent = taken ++ task.received ++ s.inbox.queue := hw.books.sent
    have hanswers : s.answers ++ (task.reading ++ s.keeper.reads).map _ = _ :=
      hw.books.answers hlookup
    rw [hreceived, hqueue, List.append_nil, List.append_nil] at hsent
    rw [hreading, (hidles.empty hstage hidle).1] at hanswers
    rw [hsent, ← hanswers]
    exact (List.append_nil _).symm

section
variable {store₁ : S} {received : Option (Option Request)} {waited : Duration} {lockReleased : Bool}
  {s₁ : System S W} {sent : List Request} {start : System S W} {around : Surroundings S W}
  {interference : Option Interference}

/-- The tally has no more idle time than the clock has shown. -/
def OnTime (s : System S W) : Prop :=
  match s.stage with
  | .working _ task => s.keeper.tally.Timely (task.idleSince s.keeper.pacing s.clock) s.clock
  | _ => s.keeper.tally.Timely s.clock s.clock

theorem OnTime.timely (h : s.OnTime) (hstage : s.stage = .working store task) :
    s.keeper.tally.Timely (task.idleSince s.keeper.pacing s.clock) s.clock := by
  unfold OnTime at h
  rw [hstage] at h
  exact h

theorem OnTime.upToNow (h : s.OnTime) : s.keeper.tally.Timely s.clock s.clock := by
  unfold OnTime at h
  split at h
  · exact h.upToNow
  · exact h

theorem onTime_of_busy (htimely : s.keeper.tally.Timely s.clock s.clock)
    (hbusy : ∀ {store task}, s.stage = .working store task → ¬ task.IsIdle) : s.OnTime := by
  unfold OnTime
  split
  · rw [Task.idleSince_of_busy (hbusy ‹_›)]
    exact htimely
  · exact htimely

/-- Every wait can be recorded while the clock can show the time. -/
theorem OnTime.recordIdle [Store S W] (h : s.OnTime) (hclock : s.clock.nanos < Instant.limit)
    (hstage : s.stage = .working store task)
    (hawakes : Awakes s store task received waited lockReleased s₁ store₁) :
    ∃ tally, s.keeper.tally.recordIdle waited lockReleased = some tally ∧
      tally.Timely s.clock s.clock := by
  have htimely := h.timely hstage
  cases hawakes with
  | request | disconnected | deadline => exact htimely.recordIdle hclock false
  | reacquired =>
    rw [waited_of_reacquire]
    exact htimely.recordIdle hclock true

theorem OnTime.step [Store S W] (h : s.OnTime) (hclock : s.clock.nanos < Instant.limit)
    (hstep : s.step interference = some s') : s'.OnTime := by
  have hnow := h.upToNow
  have hbusy : ∀ {s' : System S W}, s'.keeper.tally.Timely s'.clock s'.clock →
      (∀ {store task}, s'.stage = .working store task → ¬ task.IsIdle) → s'.OnTime := fun h h' =>
    onTime_of_busy h h'
  cases moves_of_step hstep with
  | releases | rests => exact hnow
  | released hstage | tookReleased hstage | sawEndReleased hstage | brokenReleased hstage =>
    have htimely := h.timely hstage
    exact htimely
  | opened | entered | tookAll | sawEnd | pickedRead | pickedWrite | exited | reacquiredBroken | left | broken =>
    refine hbusy hnow fun hworking => ?_
    cases hworking
    exact id
  | applied | answeredFromWrites | answeredFromStore =>
    refine hbusy ⟨hnow.idle, hnow.past, hnow.released⟩ fun hworking => ?_
    cases hworking
    exact id
  | openedCache _ _ hcache =>
    refine hbusy hnow fun hworking => ?_
    cases hworking
    exact Task.not_isIdle_of_cache hcache
  | @took store request =>
    refine hbusy ?_ fun hworking => ?_
    · show (s.keeper.enqueue request).tally.Timely s.clock s.clock
      rw [tally_enqueue]
      exact hnow
    · cases hworking
      exact id
  | @awoke _ _ received _ _ s₁ _ tally hstage hawakes htally =>
    obtain ⟨tally', hrecorded, htimely⟩ := h.recordIdle hclock hstage hawakes
    cases htally.symm.trans hrecorded
    refine hbusy ?_ fun hworking => ?_
    · show ({ s₁.keeper with tally }.hear received).tally.Timely s₁.clock s₁.clock
      rw [tally_hear]
      cases hawakes <;> exact htimely
    · cases hworking
      exact id
  | overflowed _ hawakes => cases hawakes <;> exact hbusy hnow nofun
  | drained hstage =>
    refine hbusy ?_ fun hworking => ?_
    · rw [tally_enqueue]
      exact hnow
    · cases hstage.symm.trans hworking
  | _ => exact hbusy hnow nofun

theorem OnTime.congr (h : s.OnTime) (hstage : s'.stage = s.stage) (hkeeper : s'.keeper = s.keeper)
    (hclock : s.clock.nanos ≤ s'.clock.nanos) : s'.OnTime := by
  unfold OnTime at h ⊢
  rw [hstage, hkeeper]
  split at h
  · exact timely_later h hclock
  · exact ⟨Nat.le_trans h.idle hclock, Nat.le_refl _, h.released⟩

theorem Run.onTime [Store S W] (hstart : start.OnTime) (hrun : Run around start sent s)
    (hclock : s.clock.nanos < Instant.limit) : s.OnTime := by
  induction hrun with
  | start => exact hstart
  | @step _ s s' _ _ _ hstep ih =>
    have hsame : s'.clock = s.clock := congrArg (·.2.2.2) (constants_step hstep)
    rw [hsame] at hclock
    exact (ih hclock).step hclock hstep
  | send _ hsend ih =>
    obtain ⟨inbox, -, rfl⟩ := Option.map_eq_some_iff.mp hsend
    exact (ih hclock).congr rfl rfl (Nat.le_refl _)
  | @tick _ s nanos _ ih =>
    have hlater : s.clock.nanos ≤ s.clock.nanos + nanos := Nat.le_add_right ..
    exact (ih (Nat.lt_of_le_of_lt hlater hclock)).congr rfl rfl hlater
  | disconnect _ ih | change _ _ _ ih | note _ _ _ ih => exact (ih hclock).congr rfl rfl (Nat.le_refl _)

end

end System

end HistoryKeeper
