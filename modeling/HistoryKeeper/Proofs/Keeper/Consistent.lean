import HistoryKeeper.Proofs.Keeper.Books
import HistoryKeeper.Proofs.Keeper.Run

/-!
# Keepers are sequentially consistent

`System.Consistent` holds in every state of a run (`Run.consistent`): while the keeper serves
requests its store holds the initial content with the applied writes, and the books of the requests
are right (`Working`); from then on the applied writes are the first ones that were sent, and the
answers are those of a service in order (`Past`).
-/

namespace HistoryKeeper

namespace Task

/-- The task is part of the loop that serves requests. -/
def InLoop : Task → Prop
  | .leaving _ | .closing => False
  | _ => True

end Task

namespace System

variable {S W : Type} {view : StoreView S W} {initial : String → CacheContent}
  {Ready : W → Prop} {sent taken : List Request} {applied : List PendingWrite} {s s' : System S W}
  {store store' : S} {world : W} {task task' : Task} {interference : Option Interference}

/-- A way to open a store that is sound then and has this content. -/
structure Opens (view : StoreView S W) (initial : String → CacheContent) (Ready : W → Prop)
    (opener : Opener S W) : Prop where
  opened : ∀ {w store w'}, Ready w → opener w = .ok store w' → view.Sound (store, w') ∧
    ∀ name, view.Named name → view.content (store, w') name = initial name
  others : ∀ {w w'}, Ready w → view.others w w' → Ready w'

/-- The keeper serves requests. -/
structure Working (view : StoreView S W) (initial : String → CacheContent)
    (sent taken : List Request) (applied : List PendingWrite) (s : System S W) (store : S)
    (task : Task) : Prop where
  sound : view.Sound (store, s.world)
  content : ∀ name, view.Named name →
    view.content (store, s.world) name = PendingWrite.contentAfter initial applied name
  caches : ∀ {name c}, s.keeper.caches.get? name = some c → view.Holds store c name
  books : Books initial sent taken applied (s.queues task)

/-- What stays true when the keeper serves no more requests. -/
structure Past (initial : String → CacheContent) (sent : List Request) (s : System S W) : Prop where
  count : s.keeper.tally.writesApplied ≤ (Request.writes sent).length
  answers : s.keeper.pendingLookup = true →
    s.answers <+: Request.answersInOrder initial [] sent

/-- The keeper writes back what it has done. -/
structure Leaving (view : StoreView S W) (initial : String → CacheContent) (sent : List Request)
    (s : System S W) (store : S) (task : Task) : Prop where
  sound : view.Sound (store, s.world)
  content : ∀ name, view.Named name → view.content (store, s.world) name =
    PendingWrite.contentAfter initial
      ((Request.writes sent).take s.keeper.tally.writesApplied) name
  past : Past initial sent s
  place : s.keeper.nextPlace ≤ sent.length
  /-- A keeper that was not interrupted has applied all writes that it has taken in. -/
  complete : task = .leaving none → s.keeper.tally.writesApplied =
    (Request.writes (sent.take s.keeper.nextPlace)).length

inductive Consistent (view : StoreView S W) (initial : String → CacheContent)
    (Ready : W → Prop) (sent : List Request) (s : System S W) : Prop
  | opening (opener : Opener S W) : s.stage = .opening opener → Opens view initial Ready opener →
      Ready s.world → s.keeper.caches = [] → Books initial sent [] [] (s.queues .entering) →
      Consistent view initial Ready sent s
  | working (store : S) (task : Task) (taken : List Request) (applied : List PendingWrite) :
      s.stage = .working store task → task.InLoop →
      Working view initial sent taken applied s store task → Consistent view initial Ready sent s
  | leaving (store : S) (task : Task) : s.stage = .working store task → ¬ task.InLoop →
      Leaving view initial sent s store task → Consistent view initial Ready sent s
  | ended : s.IsOver → Past initial sent s → Consistent view initial Ready sent s

theorem past_of_books (h : Books initial sent taken applied (s.queues task)) :
    Past initial sent s :=
  ⟨(show s.keeper.tally.writesApplied = applied.length from h.count) ▸ h.applied_prefix.length_le,
    h.answers_prefix⟩

theorem Consistent.past (h : Consistent view initial Ready sent s) : Past initial sent s := by
  cases h with
  | opening _ _ _ _ _ hbooks => exact past_of_books hbooks
  | working _ _ _ _ _ _ h => exact past_of_books h.books
  | leaving _ _ _ _ h => exact h.past
  | ended _ h => exact h

theorem Consistent.inLoop (h : Consistent view initial Ready sent s)
    (hstage : s.stage = .working store task) (hloop : task.InLoop) :
    ∃ taken applied, Working view initial sent taken applied s store task := by
  cases h with
  | opening _ hopening =>
    rw [hstage] at hopening
    cases hopening
  | working _ _ taken applied hworking _ h =>
    rw [hstage] at hworking
    cases hworking
    exact ⟨taken, applied, h⟩
  | leaving _ _ hleaving hnot =>
    rw [hstage] at hleaving
    cases hleaving
    exact absurd hloop hnot
  | ended hover =>
    unfold IsOver at hover
    rw [hstage] at hover
    exact hover.elim

theorem Consistent.outOfLoop (h : Consistent view initial Ready sent s)
    (hstage : s.stage = .working store task) (hloop : ¬ task.InLoop) :
    Leaving view initial sent s store task := by
  cases h with
  | opening _ hopening =>
    rw [hstage] at hopening
    cases hopening
  | working _ _ _ _ hworking hin =>
    rw [hstage] at hworking
    cases hworking
    exact absurd hin hloop
  | leaving _ _ hleaving _ h =>
    rw [hstage] at hleaving
    cases hleaving
    exact h
  | ended hover =>
    unfold IsOver at hover
    rw [hstage] at hover
    exact hover.elim

theorem Past.congr (h : Past initial sent s)
    (hcount : s'.keeper.tally.writesApplied = s.keeper.tally.writesApplied)
    (hlookup : s'.keeper.pendingLookup = s.keeper.pendingLookup) (hanswers : s'.answers = s.answers) :
    Past initial sent s' :=
  ⟨hcount ▸ h.count, fun hl => hanswers ▸ h.answers (hlookup ▸ hl)⟩

theorem applied_eq_take (h : Books initial sent taken applied (s.queues task)) :
    (Request.writes sent).take s.keeper.tally.writesApplied = applied := by
  rw [show s.keeper.tally.writesApplied = applied.length from h.count]
  exact (List.prefix_iff_eq_take.mp h.applied_prefix).symm

/-- The writes that were taken in are applied once none is queued any more. -/
theorem complete_of_books (h : Books initial sent taken applied (s.queues task))
    (hwriting : task.writing = []) (hqueued : s.keeper.writes = []) :
    s.keeper.tally.writesApplied = (Request.writes (sent.take s.keeper.nextPlace)).length := by
  have htaken : sent.take s.keeper.nextPlace = taken := by
    rw [h.sent, List.append_assoc, show s.keeper.nextPlace = taken.length from h.place,
      List.take_left']
    rfl
  have hwrites : Request.writes taken = applied ++ task.writing ++ s.keeper.writes.map (·.2) :=
    h.writes
  rw [htaken, hwrites, hwriting, hqueued, List.append_nil, List.map_nil, List.append_nil]
  exact h.count

theorem Working.congr (h : Working view initial sent taken applied s store task)
    (hworld : s'.world = s.world) (hcaches : s'.keeper.caches = s.keeper.caches)
    (hqueues : s'.queues task' = s.queues task) :
    Working view initial sent taken applied s' store task' := by
  refine ⟨hworld ▸ h.sound, fun name hname => ?_, fun hc => h.caches (hcaches ▸ hc),
    hqueues ▸ h.books⟩
  rw [hworld]
  exact h.content name hname

theorem Working.same (h : Working view initial sent taken applied s store task)
    (hsame : view.Same (store, s.world) (store', world)) :
    Working view initial sent taken applied { s with world } store' task :=
  ⟨hsame.sound, fun name hname => (hsame.content name hname).trans (h.content name hname),
    fun hc => hsame.caches (h.caches hc), h.books⟩

theorem Working.leaving (h : Working view initial sent taken applied s store task)
    (hstage : s'.stage = .working store task') (hloop : ¬ task'.InLoop)
    (hcomplete : task' = .leaving none → s.keeper.tally.writesApplied =
      (Request.writes (sent.take s.keeper.nextPlace)).length)
    (hworld : s'.world = s.world) (hkeeper : s'.keeper = s.keeper) (hanswers : s'.answers = s.answers) :
    Consistent view initial Ready sent s' := by
  have hpast := past_of_books h.books
  refine .leaving store task' hstage hloop ⟨hworld ▸ h.sound, fun name hname => ?_, ?_, ?_, ?_⟩
  · rw [hworld, hkeeper, h.content name hname, applied_eq_take h.books]
  · refine ⟨hkeeper ▸ hpast.count, fun hlookup => ?_⟩
    rw [hanswers]
    exact hpast.answers (hkeeper ▸ hlookup)
  · rw [hkeeper, show s.keeper.nextPlace = taken.length from h.books.place, h.books.sent,
      List.append_assoc, List.length_append]
    exact Nat.le_add_right ..
  · rw [hkeeper]
    exact hcomplete

theorem Working.ended (h : Working view initial sent taken applied s store task)
    (hover : s'.IsOver) (hkeeper : s'.keeper = s.keeper) (hanswers : s'.answers = s.answers) :
    Consistent view initial Ready sent s' := by
  have hpast := past_of_books h.books
  refine .ended hover ⟨hkeeper ▸ hpast.count, fun hlookup => ?_⟩
  rw [hanswers]
  exact hpast.answers (hkeeper ▸ hlookup)

theorem Working.breakOff (h : Working view initial sent taken applied s store task)
    (e : StoreError) : Consistent view initial Ready sent (s.breakOff store task e) :=
  breakOff_rule (fun _ => h.leaving rfl id nofun rfl rfl rfl) fun _ => h.ended trivial rfl rfl

theorem Working.crash (h : Working view initial sent taken applied s store task)
    (text : Option String) : Consistent view initial Ready sent (s.crash store task text) :=
  h.ended trivial rfl rfl

theorem Working.attempt {α : Type} {call : StoreCall S W α}
    {next : α → S → System S W → System S W}
    (h : Working view initial sent taken applied s store task) (hcall : Leads view.Invisible call)
    (hnext : ∀ v store' world, call (store, s.world) = .ok v (store', world) →
      Working view initial sent taken applied { s with world } store' task →
        Consistent view initial Ready sent (next v store' { s with world })) :
    Consistent view initial Ready sent (s.attempt interference store task call next) := by
  have hsame := hcall (store, s.world) h.sound
  refine attempt_rule (fun e _ => h.breakOff e) (fun text _ => h.crash text) (fun e st' _ hr => ?_)
    fun v st' _ hr => ?_
  · rw [hr, endState_error] at hsame
    exact (h.same hsame).breakOff e
  · rw [hr, endState_ok] at hsame
    exact hnext v st'.1 st'.2 hr (h.same hsame)

/-! ### Taking requests in -/

theorem Working.hold {request : Request} {inbox : Inbox}
    (h : Working view initial sent taken applied s store task)
    (hreceive : s.inbox.receive = .request request inbox) (hreceived : task.received = [])
    (hreading : task.reading = []) (hwriting : task.writing = []) :
    Working view initial sent taken applied { s with inbox } store
      (.reacquiring (.ok (some request))) := by
  have hbooks := h.books.hold (Inbox.queue_of_receive hreceive).1 hreceived
  have hqueues : ({ s with inbox } : System S W).queues (.reacquiring (.ok (some request))) =
      { s.queues task with inbox := inbox.queue, held := [request] } := by
    simp only [queues, hreading, hwriting]
    rfl
  exact ⟨h.sound, h.content, h.caches, hqueues ▸ hbooks⟩

theorem Working.enqueue {request : Request}
    (h : Working view initial sent taken applied s store (.reacquiring (.ok (some request)))) :
    Working view initial sent (taken ++ [request]) applied
      { s with keeper := s.keeper.enqueue request } store .collecting := by
  have hbooks := h.books.enqueue rfl rfl
  refine ⟨h.sound, h.content, fun hc => ?_, ?_⟩
  · cases request <;> exact h.caches hc
  · cases request <;> exact hbooks

theorem Working.collect (h : Working view initial sent taken applied s store .collecting) :
    Consistent view initial Ready sent (s.collect store) := by
  unfold System.collect
  cases hr : s.inbox.receive with
  | request request inbox =>
    have htaken := (h.hold hr rfl rfl rfl).enqueue
    exact .working store .collecting _ _ rfl trivial (htaken.congr rfl rfl rfl)
  | nothing => exact .working store .choosing _ _ rfl trivial (h.congr rfl rfl rfl)
  | disconnected => exact .working store .choosing _ _ rfl trivial (h.congr rfl rfl rfl)

theorem Working.idle {tally : Tally} {waited : Duration} {lockReleased : Bool}
    (h : Working view initial sent taken applied s store task)
    (ht : s.keeper.tally.recordIdle waited lockReleased = some tally) :
    Working view initial sent taken applied { s with keeper := { s.keeper with tally } } store
      task :=
  h.congr rfl rfl (by simp only [queues, (served_of_recordIdle ht).2])

theorem Working.resume {waited : Duration} {lockReleased : Bool}
    (received : Option (Option Request))
    (h : Working view initial sent taken applied s store
      (.reacquiring (.ok (received.getD none)))) :
    Consistent view initial Ready sent (s.resume store waited lockReleased received) := by
  refine resume_rule (fun _ => h.ended trivial rfl rfl) fun tally ht => ?_
  rcases received with _ | _ | request
  · exact .working store .collecting _ _ rfl trivial ((h.idle ht).congr rfl rfl rfl)
  · exact .working store .collecting _ _ rfl trivial ((h.idle ht).congr rfl rfl rfl)
  · have htaken := (h.idle ht).enqueue
    exact .working store .collecting _ _ rfl trivial (htaken.congr rfl rfl rfl)

theorem Working.choose (h : Working view initial sent taken applied s store .choosing) :
    Consistent view initial Ready sent (s.choose store) := by
  unfold System.choose
  split
  · rename_i place read reads hreads
    refine .working store (.answering place read) _ _ rfl trivial (h.congr rfl rfl ?_)
    simp only [queues, go, hreads]
    rfl
  · rename_i p write writes hreads hwrites
    have hbooks := h.books.pickWrite hwrites rfl hreads
    exact .working store (.applying write) _ _ rfl trivial ⟨h.sound, h.content, h.caches, hbooks⟩
  · rename_i hreads hwrites
    split
    · exact h.leaving rfl id (fun _ => complete_of_books h.books rfl hwrites) rfl rfl rfl
    · split
      · exact .working store .releasing _ _ rfl trivial (h.congr rfl rfl rfl)
      · exact .working store (.waiting s.clock) _ _ rfl trivial (h.congr rfl rfl rfl)

theorem Working.wait {since : Instant}
    (h : Working view initial sent taken applied s store (.waiting since))
    (hstep : s.wait store since = some s') : Consistent view initial Ready sent s' := by
  unfold System.wait at hstep
  cases hr : s.inbox.receive with
  | request request inbox =>
    rw [hr] at hstep
    cases hstep
    exact Working.resume (some (some request)) (h.hold hr rfl rfl rfl)
  | disconnected =>
    rw [hr] at hstep
    cases hstep
    exact Working.resume (some none) (h.congr rfl rfl rfl)
  | nothing =>
    rw [hr] at hstep
    simp only at hstep
    split at hstep
    · split at hstep
      · cases hstep
        exact Working.resume none (h.congr rfl rfl rfl)
      · cases hstep
    · cases hstep

theorem Working.waitReleased (h : Working view initial sent taken applied s store .released)
    (hstep : s.waitReleased interference store = some s') :
    Consistent view initial Ready sent s' := by
  unfold System.waitReleased at hstep
  split at hstep
  · cases hstep
    exact .working store _ _ _ rfl trivial (h.congr rfl rfl rfl)
  · cases hstep
    exact h.crash _
  · split at hstep
    · rename_i request inbox hr
      cases hstep
      exact .working store _ _ _ rfl trivial ((h.hold hr rfl rfl rfl).congr rfl rfl rfl)
    · cases hstep
      exact .working store _ _ _ rfl trivial (h.congr rfl rfl rfl)
    · cases hstep

theorem Working.reacquired {outcome : Except StoreError (Option Request)}
    (h : Working view initial sent taken applied s store (.reacquiring outcome)) :
    Consistent view initial Ready sent (s.reacquired store outcome) := by
  unfold System.reacquired
  cases outcome with
  | error e => exact h.leaving rfl id nofun rfl rfl rfl
  | ok received => exact Working.resume (some received) (h.congr rfl rfl rfl)

section
variable [Store S W]

/-- Opening a cache for a request changes nothing that can be seen. -/
theorem Working.openCache (hview : view.Faithful) {cache : CacheIdentity}
    (h : Working view initial sent taken applied s store task) (hloop : task.InLoop)
    (hname : view.Named cache.name) :
    Consistent view initial Ready sent (s.attempt interference store task
      (Store.openCache ((Store.baseDir store).join cache.fileName)) fun c store s =>
        { s with keeper := { s.keeper with caches := s.keeper.caches.insert cache.name c } }.go
          store task) := by
  have hopens := hview.openCache h.sound hname
  refine attempt_rule (fun e _ => h.breakOff e) (fun text _ => h.crash text) (fun e st' _ hr => ?_)
    fun c st' _ hr => ?_
  · rw [hr] at hopens
    exact (h.same hopens).breakOff e
  · rw [hr] at hopens
    obtain ⟨hsame, hholds⟩ := hopens
    have hw := h.same hsame
    refine .working st'.1 task taken applied rfl hloop ⟨hw.sound, hw.content, fun {n c'} hc => ?_,
      hw.books⟩
    have hc' : Table.get? (Table.insert s.keeper.caches cache.name c) n = some c' := hc
    rw [Table.get?_insert] at hc'
    split at hc'
    · rename_i he
      cases hc'
      exact he ▸ hholds
    · exact hw.caches hc'

theorem Working.answer (hview : view.Faithful) (hnamed : ∀ r ∈ sent, r.Names view.Named)
    (hordered : ∀ {name entries}, initial name = .ok entries → entries.Ordered) {place : Nat}
    {read : PendingRead}
    (h : Working view initial sent taken applied s store (.answering place read)) :
    Consistent view initial Ready sent (s.answer interference store place read) := by
  have hname : view.Named read.cache.name :=
    hnamed _ (h.books.outstanding_sent (x := (place, read)) (List.mem_cons_self ..))
  unfold System.answer
  cases hq : s.keeper.queuedValue place read with
  | some value =>
    have hbooks := h.books.answer value rfl
      fun _ => valueAfter_of_queuedValue hq initial applied _
    exact .working store .collecting _ _ rfl trivial ⟨h.sound, h.content, h.caches, hbooks⟩
  | none =>
    refine withCache_rule (fun c hc => ?_) fun _ => h.openCache hview trivial hname
    have hfinds := hview.get h.sound hname (h.caches hc) read.key
    refine attempt_rule (fun e _ => h.breakOff e) (fun text _ => h.crash text)
      (fun e st' _ hr => ?_) fun value st' _ hr => ?_
    · rw [hr] at hfinds
      exact (h.same hfinds).breakOff e
    · rw [hr] at hfinds
      obtain ⟨hsame, entries, hentries, rfl⟩ := hfinds
      rw [h.content _ hname] at hentries
      have hvalue : s.keeper.pendingLookup = true → entries.get? read.key =
          read.valueAfter initial (applied ++ (s.queues (.answering place read)).before place) := by
        intro hlookup
        rw [valueAfter_of_not_queued hq hlookup]
        exact read.get?_contentAfter hordered hentries
      have hw := h.same hsame
      exact .working st'.1 .collecting _ _ rfl trivial
        ⟨hw.sound, hw.content, hw.caches, h.books.answer (entries.get? read.key) rfl hvalue⟩

theorem Working.apply (hview : view.Faithful) (hnamed : ∀ r ∈ sent, r.Names view.Named)
    {write : PendingWrite}
    (h : Working view initial sent taken applied s store (.applying write)) :
    Consistent view initial Ready sent (s.apply interference store write) := by
  have hname : view.Named write.cache.name :=
    hnamed _ (h.books.writing_sent (List.mem_cons_self ..))
  refine withCache_rule (fun c hc => ?_) fun _ => h.openCache hview trivial hname
  have hmakes := hview.change h.sound hname (h.caches hc) write.key
    write.change
  refine attempt_rule (fun e _ => h.breakOff e) (fun text _ => h.crash text)
    (fun e st' _ hr => ?_) fun u st' _ hr => ?_
  · rw [show write.change.call c write.key (store, s.world) = _ from hr] at hmakes
    exact (h.same hmakes).breakOff e
  · rw [show write.change.call c write.key (store, s.world) = _ from hr] at hmakes
    refine .working st'.1 .collecting taken (applied ++ [write]) rfl trivial
      ⟨hmakes.sound, fun n hn => ?_, fun hc => hmakes.caches (h.caches hc), h.books.apply rfl⟩
    rw [PendingWrite.contentAfter_concat, ← h.content n hn]
    refine (hmakes.content n hn).trans ?_
    by_cases he : write.cache.name = n
    · rw [if_pos he, if_pos he.symm, he]
    · rw [if_neg he, if_neg (Ne.symm he)]

theorem Working.work (hview : view.Faithful) (hnamed : ∀ r ∈ sent, r.Names view.Named)
    (hordered : ∀ {name entries}, initial name = .ok entries → entries.Ordered)
    (h : Working view initial sent taken applied s store task) (hloop : task.InLoop)
    (hstep : s.work interference store task = some s') : Consistent view initial Ready sent s' := by
  cases task with
  | entering =>
    cases hstep
    exact h.attempt hview.enter fun _ store' _ _ hw =>
      .working store' .collecting _ _ rfl trivial (hw.congr rfl rfl rfl)
  | collecting => cases hstep; exact h.collect
  | choosing => cases hstep; exact h.choose
  | answering place read => cases hstep; exact h.answer hview hnamed hordered
  | applying write => cases hstep; exact h.apply hview hnamed
  | waiting since => exact h.wait hstep
  | releasing =>
    cases hstep
    exact h.attempt hview.release fun _ store' _ _ hw =>
      .working store' .released _ _ rfl trivial (hw.congr rfl rfl rfl)
  | released => exact h.waitReleased hstep
  | reacquiring outcome =>
    cases hstep
    exact h.attempt hview.reacquire fun _ _ _ _ hw => hw.reacquired
  | leaving failure => exact hloop.elim
  | closing => exact hloop.elim

theorem Leaving.work (hview : view.Faithful) (h : Leaving view initial sent s store task)
    (hloop : ¬ task.InLoop) (hstep : s.work interference store task = some s') :
    Consistent view initial Ready sent s' := by
  cases task with
  | leaving failure =>
    have hsame := hview.leave (store, s.world) h.sound
    cases hstep
    refine attempt_rule (fun e _ => .ended trivial (h.past.congr rfl rfl rfl))
      (fun text _ => .ended trivial (h.past.congr rfl rfl rfl))
      (fun e st' _ hr => .ended trivial (h.past.congr rfl rfl rfl)) fun u st' _ hr => ?_
    cases failure with
    | some e => exact .ended trivial (h.past.congr rfl rfl rfl)
    | none =>
      rw [hr, endState_ok] at hsame
      exact .leaving st'.1 .closing rfl id ⟨hsame.sound, fun name hname =>
        (hsame.content name hname).trans (h.content name hname), h.past.congr rfl rfl rfl, h.place,
        nofun⟩
  | closing =>
    cases hstep
    exact attempt_rule (fun e _ => .ended trivial (h.past.congr rfl rfl rfl))
      (fun text _ => .ended trivial (h.past.congr rfl rfl rfl))
      (fun e st' _ hr => .ended trivial (h.past.congr rfl rfl rfl))
      fun u st' _ hr => .ended trivial (h.past.congr rfl rfl rfl)
  | _ => exact absurd trivial hloop

theorem Consistent.openStore {opener : Opener S W} (hopens : Opens view initial Ready opener)
    (hready : Ready s.world) (hcaches : s.keeper.caches = [])
    (hbooks : Books initial sent [] [] (s.queues .entering)) :
    Consistent view initial Ready sent (s.openStore interference opener) := by
  have hpast := past_of_books hbooks
  unfold System.openStore
  split
  · exact .ended trivial (hpast.congr rfl rfl rfl)
  · exact .ended trivial (hpast.congr rfl rfl rfl)
  · split
    · rename_i store world hopened
      obtain ⟨hsound, hcontent⟩ := hopens.opened hready hopened
      refine .working store .entering [] [] rfl trivial ⟨hsound, hcontent, fun {n c} hc => ?_, hbooks⟩
      have hc' : s.keeper.caches.get? n = some c := hc
      rw [hcaches] at hc'
      cases hc'
    · exact .ended trivial (hpast.congr rfl rfl rfl)

theorem Consistent.step (hview : view.Faithful) (hnamed : ∀ r ∈ sent, r.Names view.Named)
    (hordered : ∀ {name entries}, initial name = .ok entries → entries.Ordered)
    (h : Consistent view initial Ready sent s) (hstep : s.step interference = some s') :
    Consistent view initial Ready sent s' := by
  cases h with
  | opening opener hstage hopens hready hcaches hbooks =>
    unfold System.step at hstep
    rw [hstage] at hstep
    cases hstep
    exact .openStore hopens hready hcaches hbooks
  | working store task taken applied hstage hloop h =>
    unfold System.step at hstep
    rw [hstage] at hstep
    exact h.work hview hnamed hordered hloop hstep
  | leaving store task hstage hloop h =>
    unfold System.step at hstep
    rw [hstage] at hstep
    exact h.work hview hloop hstep
  | ended hover h =>
    obtain ⟨hover, -, htally, hlookup, hanswers, -⟩ := winds_of_step hover hstep
    exact .ended hover (h.congr (congrArg _ htally) hlookup hanswers)

end

/-! ### What others do -/

theorem Past.send (h : Past initial sent s) (request : Request) :
    Past initial (sent ++ [request]) s := by
  refine ⟨?_, fun hlookup => ?_⟩
  · rw [Request.writes_append, List.length_append]
    exact Nat.le_add_right_of_le h.count
  · rw [Request.answersInOrder_append]
    exact (h.answers hlookup).trans (List.prefix_append ..)

theorem Leaving.send (h : Leaving view initial sent s store task) (request : Request) :
    Leaving view initial (sent ++ [request]) s store task := by
  refine ⟨h.sound, fun name hname => ?_, h.past.send request, ?_, fun htask => ?_⟩
  · rw [Request.writes_append, List.take_append_of_le_length h.past.count]
    exact h.content name hname
  · rw [List.length_append]
    exact Nat.le_add_right_of_le h.place
  · rw [List.take_append_of_le_length h.place]
    exact h.complete htask

theorem Consistent.send {request : Request} (h : Consistent view initial Ready sent s)
    (hsend : s.send request = some s') : Consistent view initial Ready (sent ++ [request]) s' := by
  obtain ⟨inbox, hinbox, rfl⟩ := Option.map_eq_some_iff.mp hsend
  unfold Inbox.send at hinbox
  split at hinbox
  · cases hinbox
    cases h with
    | opening opener hstage hopens hready hcaches hbooks =>
      exact .opening opener hstage hopens hready hcaches (hbooks.send request)
    | working store task taken applied hstage hloop h =>
      exact .working store task taken applied hstage hloop
        ⟨h.sound, h.content, h.caches, h.books.send request⟩
    | leaving store task hstage hloop h =>
      have hsent := h.send request
      exact .leaving store task hstage hloop
        ⟨hsent.sound, hsent.content, hsent.past.congr rfl rfl rfl, hsent.place, hsent.complete⟩
    | ended hover h => exact .ended hover ((h.send request).congr rfl rfl rfl)
  · cases hinbox

theorem Consistent.congr (h : Consistent view initial Ready sent s) (hstage : s'.stage = s.stage)
    (hworld : s'.world = s.world) (hkeeper : s'.keeper = s.keeper)
    (hqueue : s'.inbox.queue = s.inbox.queue) (hanswers : s'.answers = s.answers) :
    Consistent view initial Ready sent s' := by
  have hqueues : ∀ task, s'.queues task = s.queues task := fun task => by
    simp only [queues, hkeeper, hqueue, hanswers]
  cases h with
  | opening opener hopening hopens hready hcaches hbooks =>
    exact .opening opener (hstage.trans hopening) hopens (hworld ▸ hready) (hkeeper ▸ hcaches)
      (hqueues _ ▸ hbooks)
  | working store task taken applied hworking hloop h =>
    exact .working store task taken applied (hstage.trans hworking) hloop
      (h.congr hworld (by rw [hkeeper]) (hqueues task))
  | leaving store task hworking hloop h =>
    refine .leaving store task (hstage.trans hworking) hloop
      ⟨hworld ▸ h.sound, fun name hname => ?_,
        h.past.congr (by rw [hkeeper]) (by rw [hkeeper]) hanswers, hkeeper ▸ h.place,
        hkeeper ▸ h.complete⟩
    rw [hworld, hkeeper]
    exact h.content name hname
  | ended hover h =>
    have hover' : s'.IsOver := by
      unfold IsOver at hover ⊢
      rw [hstage]
      exact hover
    exact .ended hover' (h.congr (by rw [hkeeper]) (by rw [hkeeper]) hanswers)

theorem Consistent.change [Store S W] (hview : view.Faithful)
    (h : Consistent view initial Ready sent s) (hothers : view.others s.world world) :
    Consistent view initial Ready sent { s with world } := by
  cases h with
  | opening opener hstage hopens hready hcaches hbooks =>
    exact .opening opener hstage hopens (hopens.others hready hothers) hcaches hbooks
  | working store task taken applied hstage hloop h =>
    exact .working store task taken applied hstage hloop
      (h.same (hview.others h.sound hothers))
  | leaving store task hstage hloop h =>
    have hsame := hview.others h.sound hothers
    exact .leaving store task hstage hloop
      ⟨hsame.sound, fun name hname => (hsame.content name hname).trans (h.content name hname),
        h.past.congr rfl rfl rfl, h.place, h.complete⟩
  | ended hover h => exact .ended hover (h.congr rfl rfl rfl)

theorem Consistent.named {names : String → Prop} {request : Request}
    (h : ∀ r ∈ sent ++ [request], r.Names names) : ∀ r ∈ sent, r.Names names :=
  fun r hr => h r (List.mem_append_left _ hr)

theorem Run.consistent [Store S W] {around : Surroundings S W} {start : System S W}
    (hview : view.Faithful) (hothers : ∀ w w', around.others w w' → view.others w w')
    (hordered : ∀ {name entries}, initial name = .ok entries → entries.Ordered)
    (hstart : Consistent view initial Ready [] start) (hrun : Run around start sent s)
    (hnamed : ∀ r ∈ sent, r.Names view.Named) : Consistent view initial Ready sent s := by
  induction hrun with
  | start => exact hstart
  | step _ _ hstep ih => exact (ih hnamed).step hview hnamed hordered hstep
  | send _ hsend ih => exact (ih (Consistent.named hnamed)).send hsend
  | tick _ _ ih => exact (ih hnamed).congr rfl rfl rfl rfl rfl
  | disconnect _ ih => exact (ih hnamed).congr rfl rfl rfl rfl rfl
  | change world _ hchange ih => exact (ih hnamed).change hview (hothers _ _ hchange)
  | note _ _ _ ih => exact (ih hnamed).congr rfl rfl rfl rfl rfl

end System

end HistoryKeeper
