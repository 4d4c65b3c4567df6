import HistoryKeeper.Proofs.Keeper.Applied
import HistoryKeeper.Proofs.Keeper.Opening
import HistoryKeeper.Proofs.Keeper.Serving
import HistoryKeeper.Proofs.Store.OneCache

/-!
# Keepers that have a directory to themselves

While nobody else uses the directory of a store and all requests are about one cache, store and disk are
always as `FileStore.Occupies` tells, whatever fails and however often the lock is given up
(`System.Lodged`). So it is known what is found in the directory once the keeper has gone: what was found
before, with the writes that were applied, or with the first of them if the keeper has failed
(`System.Run.found`). A keeper that nothing interferes with and that nobody asks to write does not fail
(`System.Run.not_fails`), and what it answers is what is found (`System.Run.answers_found`).
-/

namespace HistoryKeeper

open FileStore (Occupies Premises Standing opened openStore found)
open CacheFile (load)

namespace PendingWrite

/-- What a cache has once these writes are made. -/
def written (had : Except StoreError Entries) (ws : List PendingWrite) : Except StoreError Entries :=
  ws.foldl (fun had w => had.map (w.change.applyTo w.key)) had

/-- What a key has once these writes are made. -/
def valueOver (key : String) (value : Option Bytes) (ws : List PendingWrite) : Option Bytes :=
  ws.foldl (fun value w => if key = w.key then w.visibleValue else value) value

theorem written_concat (had : Except StoreError Entries) (ws : List PendingWrite) (w : PendingWrite) :
    written had (ws ++ [w]) = (written had ws).map (w.change.applyTo w.key) := by
  unfold written
  rw [List.foldl_append]
  rfl

theorem written_error (e : StoreError) (ws : List PendingWrite) :
    written (.error e) ws = .error e := by
  induction ws with
  | nil => rfl
  | cons w ws ih => exact ih

theorem get?_written {entries : Entries} (hordered : entries.Ordered) (ws : List PendingWrite) (key : String) :
    (written (.ok entries) ws).toOption.map (·.get? key) =
      some (valueOver key (entries.get? key) ws) := by
  induction ws generalizing entries with
  | nil => rfl
  | cons w ws ih =>
    refine (ih (w.change.ordered_applyTo w.key hordered)).trans ?_
    rw [FileStore.get?_applyTo w hordered]
    rfl

theorem valueOver_of_forall {w : PendingWrite} {ws : List PendingWrite} (h : ∀ x ∈ ws, x = w) (key : String)
    (value : Option Bytes) :
    valueOver key value ws = if ws ≠ [] ∧ key = w.key then w.visibleValue else value := by
  induction ws generalizing value with
  | nil => exact (if_neg fun hne => hne.1 rfl).symm
  | cons x ws ih =>
    obtain ⟨rfl, hrest⟩ := List.forall_mem_cons.mp h
    refine (ih hrest _).trans ?_
    by_cases hkey : key = x.key <;> simp [hkey]

end PendingWrite

open PendingWrite (written valueOver written_concat)

namespace Task

/-- What the store has to be like for the task. -/
def Suits : Task → Standing → Prop
  | .released, standing | .reacquiring _, standing => standing.held = false
  | .leaving _, _ => True
  | .closing, standing => standing.dirty = false
  | _, standing => standing.held = true

/-- The task is not about a failure. -/
def Unfailed : Task → Prop
  | .leaving (some _) | .reacquiring (.error _) => False
  | _ => True

end Task

namespace FileStore

variable {dir : Path} {timeout : Duration} {d d₁ : Disk}

/-- The store of the directory can be opened, which leaves the disk so. -/
def Opens (dir : Path) (timeout : Duration) (d d₁ : Disk) : Prop :=
  ∃ id, openStore dir timeout d = .ok (opened dir timeout id) (d₁.lock id) ∧ Prepared dir id d₁

theorem Opens.found (h : Opens dir timeout d d₁) (name key : String) :
    found dir timeout name key d = (load (cachePath dir name) d₁).toOption.map (·.get? key) := by
  obtain ⟨id, hopen, -⟩ := h
  unfold FileStore.found
  rw [hopen]
  dsimp only
  rw [load_lock]

theorem exists_opens (hd : d.WellFormed) (dir : Path) (timeout : Duration) :
    ∃ d₁, ∀ {store d'}, openStore dir timeout d = .ok store d' → Opens dir timeout d d₁ := by
  cases hopen : openStore dir timeout d with
  | error e d' => exact ⟨d, nofun⟩
  | ok store d' =>
    obtain ⟨id, d₁, rfl, rfl, hprepared⟩ := prepared_of_openStore hd hopen
    exact ⟨d₁, fun _ => ⟨id, hopen, hprepared⟩⟩

end FileStore

namespace System

section
variable {S W : Type} {s s' : System S W} {P : Request → Prop} {interference : Option Interference}

/-- This is true of every request that is on its way to the keeper, in its queues or in hand. -/
structure AllRequests (P : Request → Prop) (s : System S W) : Prop where
  inbox : ∀ r ∈ s.inbox.queue, P r
  hand : ∀ r ∈ s.stage.hand, P r
  reads : ∀ x ∈ s.keeper.reads, P (.read x.2)
  writes : ∀ x ∈ s.keeper.writes, P (.write x.2)

theorem allRequests_hear {k : Keeper} {received : Option (Option Request)}
    (hreads : ∀ x ∈ k.reads, P (.read x.2)) (hwrites : ∀ x ∈ k.writes, P (.write x.2))
    (hreceived : ∀ r ∈ received.join, P r) : (∀ x ∈ (k.hear received).reads, P (.read x.2)) ∧
      ∀ x ∈ (k.hear received).writes, P (.write x.2) := by
  rcases received with _ | _ | request
  · exact ⟨hreads, hwrites⟩
  · exact ⟨hreads, hwrites⟩
  · have hrequest := hreceived request rfl
    cases request with
    | read r =>
      refine ⟨fun x hx => ?_, hwrites⟩
      rcases List.mem_append.mp hx with hold | hnew
      · exact hreads x hold
      · rw [List.mem_singleton.mp hnew]
        exact hrequest
    | write w =>
      refine ⟨hreads, fun x hx => ?_⟩
      rcases List.mem_append.mp hx with hold | hnew
      · exact hwrites x hold
      · rw [List.mem_singleton.mp hnew]
        exact hrequest
    | stop => exact ⟨hreads, hwrites⟩

theorem AllRequests.step [Store S W] (h : s.AllRequests P) (hstep : s.step interference = some s') :
    s'.AllRequests P := by
  have hnone : ∀ r ∈ ([] : List Request), P r := nofun
  have hinbox : ∀ {request : Request} {inbox : Inbox}, s.inbox.receive = .request request inbox →
      P request ∧ ∀ r ∈ inbox.queue, P r := by
    intro request inbox hreceive
    have hqueue := h.inbox
    rw [(Inbox.queue_of_receive hreceive).1] at hqueue
    exact List.forall_mem_cons.mp hqueue
  have hhand : ∀ {stage : Stage S W}, s.stage = stage → ∀ r ∈ stage.hand, P r := fun hstage => hstage ▸ h.hand
  have hhears : ∀ (k : Keeper) (received : Option (Option Request)), k.reads = s.keeper.reads →
      k.writes = s.keeper.writes → (∀ r ∈ received.join, P r) →
      (∀ x ∈ (k.hear received).reads, P (.read x.2)) ∧ ∀ x ∈ (k.hear received).writes, P (.write x.2) :=
    fun _ _ hreads hwrites => allRequests_hear (hreads ▸ h.reads) (hwrites ▸ h.writes)
  cases moves_of_step hstep with
  | took _ hreceive =>
    obtain ⟨hrequest, hqueue⟩ := hinbox hreceive
    obtain ⟨hreads, hwrites⟩ := hhears s.keeper (some (some _)) rfl rfl fun _ h => Option.some_inj.mp h ▸ hrequest
    exact ⟨hqueue, hnone, hreads, hwrites⟩
  | drained hstage hreceive =>
    obtain ⟨hrequest, hqueue⟩ := hinbox hreceive
    obtain ⟨hreads, hwrites⟩ := hhears s.keeper (some (some _)) rfl rfl fun _ h => Option.some_inj.mp h ▸ hrequest
    exact ⟨hqueue, h.hand, hreads, hwrites⟩
  | tookReleased _ _ hreceive =>
    obtain ⟨hrequest, hqueue⟩ := hinbox hreceive
    exact ⟨hqueue, List.forall_mem_singleton.mpr hrequest, h.reads, h.writes⟩
  | @awoke _ _ received _ _ s₁ _ tally hstage hawakes =>
    have hnext : (∀ r ∈ s₁.inbox.queue, P r) ∧ (∀ r ∈ received.join, P r) := by
      cases hawakes with
      | request hreceive =>
        obtain ⟨hrequest, hqueue⟩ := hinbox hreceive
        exact ⟨hqueue, fun _ h => Option.some_inj.mp h ▸ hrequest⟩
      | disconnected | deadline => exact ⟨h.inbox, nofun⟩
      | @reacquired received =>
        refine ⟨h.inbox, fun r hr => hhand hstage r ?_⟩
        cases received with
        | none => cases hr
        | some request => exact Option.some_inj.mp hr ▸ List.mem_singleton_self _
    have hqueues : s₁.keeper.reads = s.keeper.reads ∧ s₁.keeper.writes = s.keeper.writes := by
      cases hawakes <;> exact ⟨rfl, rfl⟩
    obtain ⟨hreads, hwrites⟩ := hhears { s₁.keeper with tally } received hqueues.1 hqueues.2 hnext.2
    exact ⟨hnext.1, hnone, hreads, hwrites⟩
  | overflowed _ hawakes =>
    cases hawakes with
    | request hreceive => exact ⟨(hinbox hreceive).2, hnone, h.reads, h.writes⟩
    | _ => exact ⟨h.inbox, hnone, h.reads, h.writes⟩
  | pickedRead _ hreads =>
    have hold := h.reads
    rw [hreads] at hold
    obtain ⟨hread, hrest⟩ := List.forall_mem_cons.mp hold
    exact ⟨h.inbox, List.forall_mem_singleton.mpr hread, hrest, h.writes⟩
  | pickedWrite _ _ hwrites =>
    have hold := h.writes
    rw [hwrites] at hold
    obtain ⟨hwrite, hrest⟩ := List.forall_mem_cons.mp hold
    exact ⟨h.inbox, List.forall_mem_singleton.mpr hwrite, h.reads, hrest⟩
  | openedCache hstage =>
    have hsame := hhand hstage
    exact ⟨h.inbox, hsame, h.reads, h.writes⟩
  | parted => exact ⟨hnone, hnone, nofun, nofun⟩
  | _ => exact ⟨h.inbox, hnone, h.reads, h.writes⟩

theorem Run.allRequests [Store S W] {around : Surroundings S W} {start : System S W} {sent : List Request}
    (hstart : start.AllRequests P) (hrun : Run around start sent s) (hsent : ∀ r ∈ sent, P r) : s.AllRequests P := by
  induction hrun with
  | start => exact hstart
  | step _ _ hstep ih => exact (ih hsent).step hstep
  | send _ hsend ih =>
    obtain ⟨hold, hnew⟩ := List.forall_mem_append.mp hsent
    obtain ⟨inbox, hinbox, rfl⟩ := Option.map_eq_some_iff.mp hsend
    unfold Inbox.send at hinbox
    split at hinbox
    · cases hinbox
      exact ⟨List.forall_mem_append.mpr ⟨(ih hold).inbox, hnew⟩, (ih hold).hand, (ih hold).reads, (ih hold).writes⟩
    · cases hinbox
  | tick _ _ ih | disconnect _ ih | change _ _ _ ih | note _ _ _ ih =>
    exact ⟨(ih hsent).inbox, (ih hsent).hand, (ih hsent).reads, (ih hsent).writes⟩

end

/-- The store has gone. -/
def IsAway {S W : Type} (s : System S W) : Prop :=
  match s.stage with
  | .draining _ | .finishing _ | .parting | .ended => True
  | _ => False

/-- The store has what the directory had, with the writes; the disk has the first of them. -/
structure Houses (dir : Path) (timeout : Duration) (name : String) (d d₁ : Disk) (standing : Standing)
    (saved ws : List PendingWrite) (s : System FileStore Disk) (store : FileStore) : Prop where
  opens : FileStore.Opens dir timeout d d₁
  occupies : Occupies dir timeout name d₁ standing (written (load (cachePath dir name) d₁) saved)
    (written (load (cachePath dir name) d₁) ws) (store, s.world)
  saved : saved <+: ws
  dirty : standing.dirty = true → ws ≠ []
  legible : ws ≠ [] → ∃ entries, load (cachePath dir name) d₁ = .ok entries
  caches : ∀ n c, s.keeper.caches.get? n = some c → c = 0 ∧ standing.inUse = true
  log : s.log = []

/-- What the store leaves behind. -/
structure Leaves (dir : Path) (timeout : Duration) (name : String) (d d₁ : Disk)
    (saved ws : List PendingWrite) (world : Disk) : Prop where
  opens : FileStore.Opens dir timeout d d₁
  premises : ∃ id, Premises dir name d₁ (written (load (cachePath dir name) d₁) saved) id world
  saved : saved <+: ws
  legible : ws ≠ [] → ∃ entries, load (cachePath dir name) d₁ = .ok entries

/-- How a keeper and its directory stand. As long as all is `fine` there is no failure. -/
inductive Lodged (dir : Path) (timeout : Duration) (name : String) (d d₁ : Disk) (fine : Prop)
    (ws : List PendingWrite) (s : System FileStore Disk) : Prop
  | opening : s.stage = .opening (.of (FileStore.openStore dir timeout)) → s.keeper.caches = [] → s.world = d →
      s.log = [] → ws = [] → Lodged dir timeout name d d₁ fine ws s
  | unopened {cause} : ¬ fine → s.stage = .failing none cause → ws = [] →
      s.world = d ∨ (∃ e, FileStore.openStore dir timeout d = .error e s.world) → Lodged dir timeout name d d₁ fine ws s
  | working {store task saved} (standing : Standing) : s.stage = .working store task → task.Suits standing →
      (fine → task.Unfailed) → Houses dir timeout name d d₁ standing saved ws s store →
      Lodged dir timeout name d d₁ fine ws s
  | failing {store cause standing saved} : ¬ fine → s.stage = .failing (some store) cause →
      Houses dir timeout name d d₁ standing saved ws s store → Lodged dir timeout name d d₁ fine ws s
  | away {saved} : s.IsAway → (fine → s.log = []) → (s.log = [] → saved = ws) →
      Leaves dir timeout name d d₁ saved ws s.world → Lodged dir timeout name d d₁ fine ws s
  | never : s.IsAway → ¬ fine → s.log ≠ [] → ws = [] →
      s.world = d ∨ (∃ e, FileStore.openStore dir timeout d = .error e s.world) → Lodged dir timeout name d d₁ fine ws s

variable {dir : Path} {timeout : Duration} {name other key : String} {d d₁ : Disk} {fine : Prop}
  {ws saved : List PendingWrite} {standing : Standing} {s s' : System FileStore Disk} {store : FileStore}
  {task : Task} {interference : Option Interference}

theorem Houses.congr (h : Houses dir timeout name d d₁ standing saved ws s store) (hworld : s'.world = s.world)
    (hcaches : s'.keeper.caches = s.keeper.caches) (hlog : s'.log = s.log) :
    Houses dir timeout name d d₁ standing saved ws s' store :=
  ⟨h.opens, hworld ▸ h.occupies, h.saved, h.dirty, h.legible, hcaches ▸ h.caches, hlog.trans h.log⟩

theorem Houses.moved {inUse held held' dirty : Bool} {st : FileStore × Disk}
    (h : Houses dir timeout name d d₁ ⟨inUse, held, dirty⟩ saved ws s store)
    (hst : Occupies dir timeout name d₁ ⟨inUse, held', dirty⟩ (written (load (cachePath dir name) d₁) saved)
      (written (load (cachePath dir name) d₁) ws) st) :
    Houses dir timeout name d d₁ ⟨inUse, held', dirty⟩ saved ws { s with world := st.2 } st.1 :=
  ⟨h.opens, hst, h.saved, h.dirty, h.legible, h.caches, h.log⟩

theorem Houses.flushed {inUse held held' dirty : Bool} {st : FileStore × Disk}
    (h : Houses dir timeout name d d₁ ⟨inUse, held, dirty⟩ saved ws s store)
    (hst : Occupies dir timeout name d₁ ⟨inUse, held', false⟩ (written (load (cachePath dir name) d₁) ws)
      (written (load (cachePath dir name) d₁) ws) st) :
    Houses dir timeout name d d₁ ⟨inUse, held', false⟩ ws ws { s with world := st.2 } st.1 :=
  ⟨h.opens, hst, List.prefix_rfl, nofun, h.legible, h.caches, h.log⟩

theorem Houses.breakOff (h : Houses dir timeout name d d₁ standing saved ws s store) (hfine : ¬ fine)
    (task : Task) (e : StoreError) : Lodged dir timeout name d d₁ fine ws (s.breakOff store task e) :=
  breakOff_rule (fun _ => .working _ rfl trivial (absurd · hfine) (h.congr rfl rfl rfl))
    fun _ => .failing hfine rfl (h.congr rfl rfl rfl)

/-- A call on the store succeeds, or else something is the matter. -/
theorem Houses.attempt {α : Type} {call : StoreCall FileStore Disk α}
    {next : α → FileStore → System FileStore Disk → System FileStore Disk}
    (h : Houses dir timeout name d d₁ standing saved ws s store) (hnone : fine → interference = none)
    (hcall : (∃ v st', call (store, s.world) = .ok v st' ∧
        Lodged dir timeout name d d₁ fine ws (next v st'.1 { s with world := st'.2 })) ∨
      ¬ fine ∧ ∃ e st' standing', call (store, s.world) = .error e st' ∧
        Houses dir timeout name d d₁ standing' saved ws { s with world := st'.2 } st'.1) :
    Lodged dir timeout name d d₁ fine ws (s.attempt interference store task call next) := by
  refine attempt_rule (fun e hsome => ?_) (fun text hsome => ?_) (fun e st' _ herror => ?_) fun v st' _ hok => ?_
  · exact h.breakOff (fun hfine => by rw [hnone hfine] at hsome; cases hsome) task e
  · exact .failing (fun hfine => by rw [hnone hfine] at hsome; cases hsome) rfl (h.congr rfl rfl rfl)
  · rcases hcall with ⟨v, st'', hok, -⟩ | ⟨hfine, e', st'', standing', herror', h'⟩
    · rw [herror] at hok
      cases hok
    · rw [herror] at herror'
      cases herror'
      exact h'.breakOff hfine task e
  · rcases hcall with ⟨v', st'', hok', hnext⟩ | ⟨-, e', st'', standing', herror', -⟩
    · rw [hok] at hok'
      cases hok'
      exact hnext
    · rw [hok] at herror'
      cases herror'

/-- When all is `fine`, nothing is the matter. -/
structure Untroubled (fine : Prop) (dir : Path) (name : String) (d₁ : Disk) (ws : List PendingWrite)
    (interference : Option Interference) (s : System FileStore Disk) : Prop where
  undisturbed : fine → interference = none
  unwritten : fine → ws = []
  legible : fine → ∃ entries, load (cachePath dir name) d₁ = .ok entries
  onTime : fine → s.OnTime ∧ s.clock.nanos < Instant.limit

theorem Untroubled.not_fine_of_error {e : StoreError} (hu : Untroubled fine dir name d₁ ws interference s)
    (herror : written (load (cachePath dir name) d₁) ws = .error e) : ¬ fine := by
  intro hfine
  obtain ⟨entries, hok⟩ := hu.legible hfine
  rw [hu.unwritten hfine, hok] at herror
  cases herror

theorem Untroubled.not_fine_of_dirty (hu : Untroubled fine dir name d₁ ws interference s)
    (h : Houses dir timeout name d d₁ standing saved ws s store) (hdirty : standing.dirty = true) : ¬ fine :=
  fun hfine => h.dirty hdirty (hu.unwritten hfine)

theorem Houses.openCache {cache : CacheIdentity} (hu : Untroubled fine dir name d₁ ws interference s)
    (h : Houses dir timeout name d d₁ standing saved ws s store) (hcache : cache.name = name)
    (hsuits : ∀ standing : Standing, standing.held = true → task.Suits standing) (hunfailed : task.Unfailed)
    (hheld : standing.held = true) : Lodged dir timeout name d d₁ fine ws
      (s.attempt interference store task (Store.openCache ((Store.baseDir store).join cache.fileName))
        fun c store s =>
          { s with keeper := { s.keeper with caches := s.keeper.caches.insert cache.name c } }.go
            store task) := by
  obtain ⟨inUse, held, dirty⟩ := standing
  obtain ⟨st', hcall, h'⟩ := h.occupies.openCache
  have hpath : (Store.baseDir store).join cache.fileName = cachePath dir name := by
    show store.baseDir.join (cache.name ++ ".bin") = _
    rw [hcache, show store.baseDir = dir from h.occupies.baseDir]
    rfl
  rw [hpath]
  refine h.attempt hu.undisturbed (.inl ⟨0, st', hcall, ?_⟩)
  refine .working ⟨true, held, dirty⟩ rfl (hsuits _ hheld) (fun _ => hunfailed)
    ⟨h.opens, h', h.saved, h.dirty, h.legible, fun n c hc => ?_, h.log⟩
  have hinserted : (s.keeper.caches.insert cache.name 0).get? n = some c := hc
  rw [Table.get?_insert] at hinserted
  split at hinserted
  · exact ⟨(Option.some_inj.mp hinserted).symm, rfl⟩
  · exact ⟨(h.caches n c hinserted).1, rfl⟩

theorem Houses.answer {place : Nat} {read : PendingRead} (hu : Untroubled fine dir name d₁ ws interference s)
    (h : Houses dir timeout name d d₁ standing saved ws s store) (hread : read.cache.name = name)
    (hheld : standing.held = true) :
    Lodged dir timeout name d d₁ fine ws (s.answer interference store place read) := by
  obtain ⟨inUse, held, dirty⟩ := standing
  obtain rfl : held = true := hheld
  unfold System.answer
  split
  · exact .working ⟨inUse, true, dirty⟩ rfl rfl (fun _ => trivial) (h.congr rfl rfl rfl)
  · refine withCache_rule (fun c hc => ?_) fun _ => h.openCache hu hread (fun _ => id) trivial rfl
    obtain ⟨rfl, hinUse⟩ := h.caches _ _ hc
    obtain rfl : inUse = true := hinUse
    refine h.attempt hu.undisturbed ?_
    rcases h.occupies.lookup read.key with ⟨e, hhas, hcall⟩ | ⟨entries, st', hhas, hcall, h'⟩
    · exact .inr ⟨hu.not_fine_of_error hhas, e, _, _, hcall, h⟩
    · exact .inl ⟨_, st', hcall, .working ⟨true, true, dirty⟩ rfl rfl (fun _ => trivial)
        ((h.moved h').congr rfl rfl rfl)⟩

theorem Houses.resume {waited : Duration} {lockReleased : Bool} {received : Option (Option Request)}
    (h : Houses dir timeout name d d₁ standing saved ws s store) (hheld : standing.held = true)
    (hrecorded : fine → ∃ tally, s.keeper.tally.recordIdle waited lockReleased = some tally) :
    Lodged dir timeout name d d₁ fine ws (s.resume store waited lockReleased received) := by
  refine resume_rule (fun hnone => ?_) fun tally _ => ?_
  · refine .failing (fun hfine => ?_) rfl (h.congr rfl rfl rfl)
    obtain ⟨tally, hsome⟩ := hrecorded hfine
    rw [hnone] at hsome
    cases hsome
  · refine .working standing rfl hheld (fun _ => trivial) (h.congr rfl ?_ rfl)
    rcases received with _ | _ | request
    · rfl
    · rfl
    · cases request <;> rfl

theorem Houses.choose (h : Houses dir timeout name d d₁ standing saved ws s store) (hheld : standing.held = true) :
    Lodged dir timeout name d d₁ fine ws (s.choose store) := by
  unfold System.choose
  split
  · exact .working standing rfl hheld (fun _ => trivial) (h.congr rfl rfl rfl)
  · exact .working standing rfl hheld (fun _ => trivial) (h.congr rfl rfl rfl)
  · split
    · exact .working standing rfl trivial (fun _ => trivial) (h.congr rfl rfl rfl)
    · split <;> exact .working standing rfl hheld (fun _ => trivial) (h.congr rfl rfl rfl)

theorem Houses.apply {write : PendingWrite} (hu : Untroubled fine dir name d₁ ws interference s)
    (h : Houses dir timeout name d d₁ standing saved ws s store) (hwrite : write.cache.name = name)
    (hheld : standing.held = true) (hstage : s.stage = .working store (.applying write)) :
    Lodged dir timeout name d d₁ fine (ws ++ s.applies interference) (s.apply interference store write) := by
  obtain ⟨inUse, held, dirty⟩ := standing
  obtain rfl : held = true := hheld
  cases interference with
  | some interference =>
    have hfine : ¬ fine := fun hfine => by cases hu.undisturbed hfine
    rw [applies_some, List.append_nil, apply_eq]
    exact withCache_rule (fun _ _ => attempt_rule (fun e _ => h.breakOff hfine _ e)
      (fun _ _ => .failing hfine rfl (h.congr rfl rfl rfl)) nofun nofun)
      fun _ => h.openCache hu hwrite (fun _ => id) trivial rfl
  | none =>
    rw [apply_eq]
    cases hcache : s.keeper.caches.get? write.cache.name with
    | none =>
      -- the cache is opened first
      rw [applies_of_closed hstage hcache, List.append_nil]
      refine withCache_rule (fun c hc => ?_) fun _ => h.openCache hu hwrite (fun _ => id) trivial rfl
      rw [hcache] at hc
      cases hc
    | some c =>
      obtain ⟨rfl, hinUse⟩ := h.caches _ _ hcache
      obtain rfl : inUse = true := hinUse
      rw [withCache_of_get? hcache]
      rcases h.occupies.change write.change write.key with ⟨e, hhas, hcall⟩ |
        ⟨dirty', entries, st', hhas, hcall, h'⟩
      · rw [applies_of_error hstage hcache hcall, List.append_nil, attempt_of_error rfl hcall]
        exact h.breakOff (hu.not_fine_of_error hhas) _ e
      · rw [applies_of_ok hstage hcache hcall, attempt_of_ok rfl hcall]
        refine .working ⟨true, true, dirty'⟩ rfl rfl (fun _ => trivial) ⟨h.opens, ?_,
          h.saved.trans (List.prefix_append ..), fun _ => List.concat_ne_nil _ _, fun _ => ?_, h.caches, h.log⟩
        · rw [written_concat, hhas]
          exact h'
        · cases hload : load (cachePath dir name) d₁ with
          | error e =>
            rw [hload, PendingWrite.written_error] at hhas
            cases hhas
          | ok entries => exact ⟨entries, rfl⟩

theorem Houses.enter (hu : Untroubled fine dir name d₁ ws interference s)
    (h : Houses dir timeout name d d₁ standing saved ws s store) : Lodged dir timeout name d d₁ fine ws
      (s.attempt interference store .entering Store.enter fun _ store s =>
        { s with keeper := { s.keeper with pacing := .start s.keeper.pacing.interval s.clock } }.go
          store .collecting) := by
  obtain ⟨inUse, held, dirty⟩ := standing
  obtain ⟨st', hcall, hst⟩ := h.occupies.ensureLocked
  exact h.attempt hu.undisturbed (.inl ⟨(), st', hcall,
    .working ⟨inUse, true, dirty⟩ rfl rfl (fun _ => trivial) ((h.moved hst).congr rfl rfl rfl)⟩)

theorem Houses.collect (h : Houses dir timeout name d d₁ standing saved ws s store) (hheld : standing.held = true) :
    Lodged dir timeout name d d₁ fine ws (s.collect store) := by
  unfold System.collect
  split
  · rename_i request inbox _
    refine .working standing rfl hheld (fun _ => trivial) (h.congr rfl ?_ rfl)
    cases request <;> rfl
  · exact .working standing rfl hheld (fun _ => trivial) (h.congr rfl rfl rfl)
  · exact .working standing rfl hheld (fun _ => trivial) (h.congr rfl rfl rfl)

theorem Houses.wait {since : Instant} (hu : Untroubled fine dir name d₁ ws interference s)
    (h : Houses dir timeout name d d₁ standing saved ws s store) (hheld : standing.held = true)
    (hstage : s.stage = .working store (.waiting since)) (hstep : s.wait store since = some s') :
    Lodged dir timeout name d d₁ fine ws s' := by
  have hrecorded : ∀ {received waited released s₁ store₁},
      Awakes s store (.waiting since) received waited released s₁ store₁ →
      fine → ∃ tally, s.keeper.tally.recordIdle waited released = some tally := fun hawakes hfine =>
    have hu := hu.onTime hfine
    (hu.1.recordIdle hu.2 hstage hawakes).imp fun _ => And.left
  unfold System.wait at hstep
  simp only at hstep
  split at hstep
  · rename_i request inbox hreceive
    cases hstep
    have hnow : Houses dir timeout name d d₁ _ saved ws { s with inbox } store := h.congr rfl rfl rfl
    exact hnow.resume hheld (hrecorded (.request hreceive))
  · rename_i hreceive
    cases hstep
    exact h.resume hheld (hrecorded (.disconnected hreceive))
  · rename_i hreceive
    split at hstep
    · rename_i deadline hdeadline
      split at hstep
      · rename_i hreached
        cases hstep
        exact h.resume hheld (hrecorded (.deadline hreceive hdeadline hreached))
      · cases hstep
    · cases hstep

theorem Houses.waitReleased (hu : Untroubled fine dir name d₁ ws interference s)
    (h : Houses dir timeout name d d₁ standing saved ws s store) (hheld : standing.held = false)
    (hstep : s.waitReleased interference store = some s') : Lodged dir timeout name d d₁ fine ws s' := by
  unfold System.waitReleased at hstep
  split at hstep
  · cases hstep
    exact .working _ rfl hheld (fun hfine => by cases hu.undisturbed hfine) (h.congr rfl rfl rfl)
  · cases hstep
    exact .failing (fun hfine => by cases hu.undisturbed hfine) rfl (h.congr rfl rfl rfl)
  · split at hstep
    · cases hstep
      exact .working _ rfl hheld (fun _ => trivial) (h.congr rfl rfl rfl)
    · cases hstep
      exact .working _ rfl hheld (fun _ => trivial) (h.congr rfl rfl rfl)
    · cases hstep

theorem Houses.reacquire {outcome : Except StoreError (Option Request)}
    (hu : Untroubled fine dir name d₁ ws interference s)
    (h : Houses dir timeout name d d₁ standing saved ws s store)
    (hunfailed : fine → Task.Unfailed (.reacquiring outcome))
    (hstage : s.stage = .working store (.reacquiring outcome)) : Lodged dir timeout name d d₁ fine ws
      (s.attempt interference store (.reacquiring outcome) Store.reacquire fun _ store s =>
        s.reacquired store outcome) := by
  obtain ⟨inUse, held, dirty⟩ := standing
  obtain ⟨st', hcall, hst⟩ := h.occupies.ensureLocked
  refine h.attempt hu.undisturbed (.inl ⟨(), st', hcall, ?_⟩)
  have hback := h.moved hst
  cases outcome with
  | error e =>
    show Lodged _ _ _ _ _ _ _ (System.go _ st'.1 (.leaving (some e)))
    exact .working _ rfl trivial (fun hfine => hunfailed hfine) (hback.congr rfl rfl rfl)
  | ok received =>
    let pacing := (s.keeper.pacing.reacquire s.clock).2
    have hnow : Houses dir timeout name d d₁ ⟨inUse, true, dirty⟩ saved ws
        { s with world := st'.2, keeper := { s.keeper with pacing } } st'.1 := hback.congr rfl rfl rfl
    refine hnow.resume rfl fun hfine => ?_
    have hu := hu.onTime hfine
    exact (hu.1.recordIdle hu.2 hstage (.reacquired hcall)).imp fun _ => And.left

theorem Houses.release (hname : PlainName name) (hu : Untroubled fine dir name d₁ ws interference s)
    (h : Houses dir timeout name d d₁ standing saved ws s store) (hheld : standing.held = true) :
    Lodged dir timeout name d d₁ fine ws
      (s.attempt interference store .releasing Store.release fun _ store s => s.go store .released) := by
  obtain ⟨inUse, held, dirty⟩ := standing
  obtain rfl : held = true := hheld
  refine h.attempt hu.undisturbed ?_
  rcases h.occupies.release hname with ⟨st', hcall, hst⟩ | ⟨rfl, e, st', hcall, hst⟩
  · exact .inl ⟨(), st', hcall, .working ⟨inUse, false, false⟩ rfl rfl (fun _ => trivial)
      ((h.flushed hst).congr rfl rfl rfl)⟩
  · exact .inr ⟨hu.not_fine_of_dirty h rfl, e, st', _, hcall, h.moved hst⟩

theorem Houses.leave {failure : Option StoreError} (hname : PlainName name)
    (hu : Untroubled fine dir name d₁ ws interference s)
    (h : Houses dir timeout name d d₁ standing saved ws s store)
    (hunfailed : fine → Task.Unfailed (.leaving failure))
    (hstep : s.work interference store (.leaving failure) = some s') : Lodged dir timeout name d d₁ fine ws s' := by
  obtain ⟨inUse, held, dirty⟩ := standing
  cases hstep
  refine h.attempt hu.undisturbed ?_
  rcases h.occupies.leave hname with ⟨st', hcall, hst⟩ | ⟨rfl, e, st', hcall, hst⟩
  · refine .inl ⟨(), st', hcall, ?_⟩
    have hleft := h.flushed hst
    cases failure with
    | none => exact .working ⟨inUse, held, false⟩ rfl rfl (fun _ => trivial) (hleft.congr rfl rfl rfl)
    | some e => exact .failing hunfailed rfl (hleft.congr rfl rfl rfl)
  · exact .inr ⟨hu.not_fine_of_dirty h rfl, e, st', _, hcall, h.moved hst⟩

theorem Houses.close (hu : Untroubled fine dir name d₁ ws interference s)
    (h : Houses dir timeout name d d₁ standing saved ws s store) (hclean : standing.dirty = false) :
    Lodged dir timeout name d d₁ fine ws
      (s.attempt interference store .closing Store.close fun _ _ s => { s with stage := .draining false }) := by
  obtain ⟨inUse, held, dirty⟩ := standing
  obtain rfl : dirty = false := hclean
  obtain ⟨store', world, hcall, hsaved, id, hpremises⟩ := h.occupies.close
  refine h.attempt hu.undisturbed (.inl ⟨(), (store', world), hcall, ?_⟩)
  exact .away trivial (fun _ => h.log) (fun _ => rfl)
    ⟨h.opens, ⟨id, hsaved ▸ hpremises⟩, List.prefix_rfl, h.legible⟩

theorem Lodged.work (hname : PlainName name) (hu : Untroubled fine dir name d₁ ws interference s)
    (h : Houses dir timeout name d d₁ standing saved ws s store) (hstage : s.stage = .working store task)
    (hsuits : task.Suits standing) (hunfailed : fine → task.Unfailed)
    (hrequests : s.AllRequests (Request.Names (· = name))) (hstep : s.work interference store task = some s') :
    Lodged dir timeout name d d₁ fine (ws ++ s.applies interference) s' := by
  have hhand : ∀ r ∈ task.serving, Request.Names (· = name) r := fun r hr =>
    hrequests.hand r (by rw [hstage]; exact List.mem_append_left _ hr)
  have hquiet : Request.writes task.serving = [] → Lodged dir timeout name d d₁ fine ws s' →
      Lodged dir timeout name d d₁ fine (ws ++ s.applies interference) s' := by
    intro hserving h
    rw [applies_of_stage hstage hserving, List.append_nil]
    exact h
  cases task with
  | applying write =>
    cases hstep
    exact h.apply hu (hhand _ (List.mem_singleton_self _)) hsuits hstage
  | entering =>
    cases hstep
    exact hquiet rfl (h.enter hu)
  | collecting =>
    cases hstep
    exact hquiet rfl (h.collect hsuits)
  | choosing =>
    cases hstep
    exact hquiet rfl (h.choose hsuits)
  | answering place read =>
    cases hstep
    exact hquiet rfl (h.answer hu (hhand _ (List.mem_singleton_self _)) hsuits)
  | waiting since => exact hquiet rfl (h.wait hu hsuits hstage hstep)
  | releasing =>
    cases hstep
    exact hquiet rfl (h.release hname hu hsuits)
  | released => exact hquiet rfl (h.waitReleased hu hsuits hstep)
  | reacquiring outcome =>
    cases hstep
    exact hquiet rfl (h.reacquire hu hunfailed hstage)
  | leaving failure => exact hquiet rfl (h.leave hname hu hunfailed hstep)
  | closing =>
    cases hstep
    exact hquiet rfl (h.close hu hsuits)

theorem away_step {S W : Type} [Store S W] {s s' : System S W} (h : s.IsAway)
    (hstep : s.step interference = some s') : s'.IsAway ∧ s'.world = s.world ∧ s'.log = s.log := by
  unfold IsAway at h
  cases moves_of_step hstep with
  | drained hstage =>
    refine ⟨?_, rfl, rfl⟩
    unfold IsAway
    rw [hstage]
    trivial
  | drainedAll | finished | parted => exact ⟨trivial, rfl, rfl⟩
  | _ hstage =>
    rw [hstage] at h
    exact h.elim

theorem Lodged.openStore (hopened : ∀ {store d'}, FileStore.openStore dir timeout d = .ok store d' →
      FileStore.Opens dir timeout d d₁) (hopens : fine → FileStore.Opens dir timeout d d₁)
    (hu : Untroubled fine dir name d₁ [] interference s) (hcaches : s.keeper.caches = []) (hworld : s.world = d)
    (hlog : s.log = []) : Lodged dir timeout name d d₁ fine []
      (s.openStore interference (.of (FileStore.openStore dir timeout))) := by
  unfold System.openStore
  split
  · exact .unopened (fun hfine => by cases hu.undisturbed hfine) rfl rfl (.inl hworld)
  · exact .unopened (fun hfine => by cases hu.undisturbed hfine) rfl rfl (.inl hworld)
  · rw [hworld]
    split
    · rename_i store world hopen
      have hopen := Opener.of_eq_ok hopen
      obtain ⟨id, hopen', hprepared⟩ := hopened hopen
      cases hopen.symm.trans hopen'
      refine .working ⟨false, true, false⟩ rfl rfl (fun _ => trivial)
        ⟨⟨id, hopen', hprepared⟩, FileStore.occupies_opened hprepared, List.prefix_rfl, nofun, nofun,
          fun n c hc => ?_, hlog⟩
      have hnone : s.keeper.caches.get? n = some c := hc
      rw [hcaches] at hnone
      cases hnone
    · rename_i cause world hopen
      obtain ⟨e, herror, -⟩ := Opener.of_eq_error hopen
      refine .unopened (fun hfine => ?_) rfl rfl (.inr ⟨e, herror⟩)
      obtain ⟨id, hok, -⟩ := hopens hfine
      rw [herror] at hok
      cases hok

theorem Lodged.step (hname : PlainName name)
    (hopened : ∀ {store d'}, FileStore.openStore dir timeout d = .ok store d' →
      FileStore.Opens dir timeout d d₁) (hopens : fine → FileStore.Opens dir timeout d d₁)
    (hu : Untroubled fine dir name d₁ ws interference s) (hrequests : s.AllRequests (Request.Names (· = name)))
    (h : Lodged dir timeout name d d₁ fine ws s) (hstep : s.step interference = some s') :
    Lodged dir timeout name d d₁ fine (ws ++ s.applies interference) s' := by
  have hquiet : ∀ {stage : Stage FileStore Disk}, s.stage = stage → Request.writes stage.serving = [] →
      Lodged dir timeout name d d₁ fine ws s' →
      Lodged dir timeout name d d₁ fine (ws ++ s.applies interference) s' := by
    intro stage hstage hserving h
    rw [applies_of_stage hstage hserving, List.append_nil]
    exact h
  have haway : s.IsAway → Request.writes s.stage.serving = [] := by
    unfold IsAway
    cases s.stage with
    | working => exact False.elim
    | _ => exact fun _ => rfl
  cases h with
  | opening hstage hcaches hworld hlog hws =>
    refine hquiet hstage rfl ?_
    unfold System.step at hstep
    rw [hstage] at hstep
    cases hstep
    subst hws
    exact .openStore hopened hopens hu hcaches hworld hlog
  | unopened hfine hstage hws hworld =>
    refine hquiet hstage rfl ?_
    unfold System.step at hstep
    rw [hstage] at hstep
    cases hstep
    exact .never trivial hfine (by simp) hws hworld
  | working standing hstage hsuits hunfailed hhouses =>
    unfold System.step at hstep
    rw [hstage] at hstep
    exact .work hname hu hhouses hstage hsuits hunfailed hrequests hstep
  | failing hfine hstage hhouses =>
    refine hquiet hstage rfl ?_
    unfold System.step at hstep
    rw [hstage] at hstep
    cases hstep
    exact .away trivial (absurd · hfine) (by simp)
      ⟨hhouses.opens, hhouses.occupies.freeLock, hhouses.saved, hhouses.legible⟩
  | away hgone hlog hall hleaves =>
    obtain ⟨hgone', hworld, hsame⟩ := away_step hgone hstep
    refine hquiet rfl (haway hgone) (.away hgone' ?_ ?_ (hworld ▸ hleaves))
    · rw [hsame]
      exact hlog
    · rw [hsame]
      exact hall
  | never hgone hfine hlog hws hworld =>
    obtain ⟨hgone', hsame, hlogs⟩ := away_step hgone hstep
    exact hquiet rfl (haway hgone) (.never hgone' hfine (hlogs ▸ hlog) hws (hsame ▸ hworld))

/-- Only the stage and the world count, the open caches and the log. -/
theorem Lodged.congr {fine' : Prop} (h : Lodged dir timeout name d d₁ fine ws s) (hfine : fine' → fine)
    (hstage : s'.stage = s.stage) (hkeeper : s'.keeper = s.keeper) (hworld : s'.world = s.world)
    (hlog : s'.log = s.log) : Lodged dir timeout name d d₁ fine' ws s' := by
  have haway : s.IsAway → s'.IsAway := by
    unfold IsAway
    rw [hstage]
    exact id
  cases h with
  | opening h hcaches hd hnone hws =>
    exact .opening (hstage.trans h) (hkeeper ▸ hcaches) (hworld.trans hd) (hlog.trans hnone) hws
  | unopened hnot h hws hd => exact .unopened (mt hfine hnot) (hstage.trans h) hws (hworld ▸ hd)
  | working standing h hsuits hunfailed hhouses =>
    exact .working standing (hstage.trans h) hsuits (fun h => hunfailed (hfine h))
      (hhouses.congr hworld (by rw [hkeeper]) hlog)
  | failing hnot h hhouses =>
    exact .failing (mt hfine hnot) (hstage.trans h) (hhouses.congr hworld (by rw [hkeeper]) hlog)
  | away h hnone hall hleaves =>
    refine .away (haway h) (fun h => hlog.trans (hnone (hfine h))) ?_ (hworld ▸ hleaves)
    rw [hlog]
    exact hall
  | never h hnot hne hws hd => exact .never (haway h) (mt hfine hnot) (hlog ▸ hne) hws (hworld ▸ hd)

/-! ### Runs -/

section
variable {around : Surroundings FileStore Disk} {interval : Duration} {lookup : Bool} {now clock : Instant}
  {status : Status} {sent : List Request} {start : System FileStore Disk}

/-- Nobody interferes, the cache can be had, nothing is written, and the clock can show the time. -/
structure Peaceful (around : Surroundings FileStore Disk) (dir : Path) (timeout : Duration) (name : String)
    (d d₁ : Disk) (sent : List Request) (clock : Instant) : Prop where
  quiet : ∀ s interference, around.steps s interference → interference = none
  opens : FileStore.Opens dir timeout d d₁
  legible : ∃ entries, load (cachePath dir name) d₁ = .ok entries
  unwritten : Request.writes sent = []
  clock : clock.nanos < Instant.limit

/-- How a keeper and its directory begin. -/
def MovesIn (dir : Path) (timeout : Duration) (d : Disk) (start : System FileStore Disk) : Prop :=
  ∃ interval lookup now status clock,
    start = .start (.new interval lookup now) (.of (FileStore.openStore dir timeout)) d .empty status clock

theorem Applied.lodged (hname : PlainName name) (hothers : ∀ w w', ¬ around.others w w')
    (hnames : ∀ r ∈ sent, r.Names (· = name))
    (hopened : ∀ {store d'}, FileStore.openStore dir timeout d = .ok store d' →
      FileStore.Opens dir timeout d d₁) (hstart : MovesIn dir timeout d start)
    (h : Applied around start sent ws s) :
    Lodged dir timeout name d d₁ (Peaceful around dir timeout name d d₁ sent s.clock) ws s := by
  obtain ⟨interval, lookup, now, status, clock, rfl⟩ := hstart
  induction h with
  | start => exact .opening rfl rfl rfl rfl rfl
  | @step sent ws s s' interference hbefore hsteps hstep ih =>
    have hsame : s'.clock = s.clock := congrArg (·.2.2.2) (constants_step hstep)
    rw [hsame]
    have hrequests := hbefore.run.allRequests ⟨nofun, nofun, nofun, nofun⟩ hnames
    refine (ih hnames).step hname hopened (·.opens) ⟨fun h => h.quiet _ _ hsteps, fun h => ?_, (·.legible),
      fun h => ⟨hbefore.run.onTime ?_ h.clock, h.clock⟩⟩ hrequests hstep
    · have hprefix := hbefore.isPrefix (ledger_start rfl rfl) (absurd rfl)
      rw [h.unwritten] at hprefix
      exact List.prefix_nil.mp hprefix
    · exact ⟨Nat.zero_le _, Nat.le_refl _, Nat.le_refl _⟩
  | send _ hsend ih =>
    obtain ⟨inbox, -, rfl⟩ := Option.map_eq_some_iff.mp hsend
    refine (ih (List.forall_mem_append.mp hnames).1).congr (fun h => ?_) rfl rfl rfl rfl
    have hunwritten := h.unwritten
    rw [Request.writes_append] at hunwritten
    exact ⟨h.quiet, h.opens, h.legible, (List.append_eq_nil_iff.mp hunwritten).1, h.clock⟩
  | tick nanos _ ih =>
    exact (ih hnames).congr (fun h => ⟨h.quiet, h.opens, h.legible, h.unwritten,
      Nat.lt_of_le_of_lt (Nat.le_add_right _ nanos) h.clock⟩) rfl rfl rfl rfl
  | disconnect _ ih | note _ _ _ ih => exact (ih hnames).congr id rfl rfl rfl rfl
  | change _ _ hchange => exact absurd hchange (hothers _ _)

theorem Lodged.not_fails (h : Lodged dir timeout name d d₁ fine ws s) (hfine : fine) : ¬ s.Fails := by
  rintro (hlog | hfails)
  · cases h with
    | opening _ _ _ hnone => exact hlog hnone
    | unopened hnot | failing hnot | never _ hnot => exact hnot hfine
    | working _ _ _ _ hhouses => exact hlog hhouses.log
    | away _ hnone => exact hlog (hnone hfine)
  · cases h with
    | opening hstage =>
      rw [hstage] at hfails
      exact hfails
    | unopened hnot | failing hnot | never _ hnot => exact hnot hfine
    | @working _ task _ _ hstage _ hunfailed =>
      rw [hstage] at hfails
      have hsound := hunfailed hfine
      cases task with
      | leaving failure =>
        cases failure with
        | none => exact hfails
        | some e => exact hsound
      | _ => exact hfails
    | away hgone =>
      unfold IsAway at hgone
      cases hstage : s.stage with
      | working | opening | failing =>
        rw [hstage] at hgone
        exact hgone
      | _ =>
        rw [hstage] at hfails
        exact hfails

theorem Lodged.houses (h : Lodged dir timeout name d d₁ fine ws s) (hstage : s.stage = .working store task) :
    ∃ standing saved, task.Suits standing ∧ Houses dir timeout name d d₁ standing saved ws s store := by
  have hnot : ¬ s.IsAway := by
    unfold IsAway
    rw [hstage]
    exact id
  cases h with
  | working standing h hsuits _ hhouses =>
    cases hstage.symm.trans h
    exact ⟨standing, _, hsuits, hhouses⟩
  | opening h | unopened _ h | failing _ h => cases hstage.symm.trans h
  | away h | never h => exact absurd h hnot

theorem Lodged.found_of_get {place : Nat} {read : PendingRead} {c : CacheId} {value : Option Bytes}
    {st : FileStore × Disk} (h : Lodged dir timeout name d d₁ fine [] s)
    (hstage : s.stage = .working store (.answering place read))
    (hcache : s.keeper.caches.get? read.cache.name = some c)
    (hcall : Store.get c read.key (store, s.world) = .ok value st) :
    FileStore.found dir timeout name read.key d = some value := by
  obtain ⟨⟨inUse, held, dirty⟩, saved, hsuits, hhouses⟩ := h.houses hstage
  obtain ⟨rfl, hinUse⟩ := hhouses.caches _ _ hcache
  obtain rfl : inUse = true := hinUse
  obtain rfl : held = true := hsuits
  have hlookup : FileStore.lookup 0 read.key (store, s.world) = .ok value st := hcall
  rw [hhouses.opens.found]
  rcases hhouses.occupies.lookup read.key with ⟨e, -, herror⟩ | ⟨entries, st', hhas, hok, -⟩
  · cases hlookup.symm.trans herror
  · cases hlookup.symm.trans hok
    rw [show load (cachePath dir name) d₁ = .ok entries from hhas]
    rfl

theorem Lodged.found (hd : d.WellFormed) (hname : PlainName name) (h : Lodged dir timeout name d d₁ fine ws s)
    (haway : s.IsAway) : ∃ saved, saved <+: ws ∧ (s.log = [] → saved = ws) ∧
      (saved ≠ [] → ∀ key, found dir timeout name key d ≠ none) ∧
      ∀ {other}, PlainName other → ∀ key, found dir timeout other key s.world =
        if other = name then (found dir timeout name key d).map (valueOver key · saved)
        else found dir timeout other key d := by
  have hgone : ∀ {stage : Stage FileStore Disk}, s.stage = stage → ({ s with stage } : System FileStore Disk).IsAway :=
    fun hstage => hstage ▸ haway
  cases h with
  | opening h | unopened _ h | working _ h | failing _ h => exact (hgone h).elim
  | @away saved _ _ hall hleaves =>
    have hfound := hleaves.opens.found
    obtain ⟨id₁, -, hprepared⟩ := hleaves.opens
    obtain ⟨id, hpremises⟩ := hleaves.premises
    refine ⟨saved, hleaves.saved, hall, fun hne key => ?_, fun hother key => ?_⟩
    · obtain ⟨entries, hload⟩ := hleaves.legible fun hws => hne (List.prefix_nil.mp (hws ▸ hleaves.saved))
      rw [hfound, hload]
      exact nofun
    rw [hpremises.found hprepared hname hother timeout, FileStore.found_of_prepared hprepared, ← hfound, hfound name]
    split
    · cases hload : load (cachePath dir name) d₁ with
      | error e =>
        rw [PendingWrite.written_error]
        rfl
      | ok entries =>
        exact PendingWrite.get?_written (CacheFile.ordered_of_kept (CacheFile.kept_of_load hload)) saved key
    · rfl
  | never _ _ hlog hws hworld =>
    subst hws
    refine ⟨[], List.prefix_rfl, fun _ => rfl, absurd rfl, fun {other} hother key => ?_⟩
    have hunchanged : FileStore.found dir timeout other key s.world = FileStore.found dir timeout other key d := by
      rcases hworld with hworld | ⟨e, herror⟩
      · rw [hworld]
      · obtain ⟨e', d', hagain⟩ := FileStore.openStore_error_again hd herror
        unfold FileStore.found
        rw [herror, hagain]
    rw [hunchanged]
    split
    · rename_i hsame
      rw [hsame]
      exact Option.map_id'.symm
    · rfl

theorem Lodged.spares (hd : d.WellFormed) (h : Lodged dir timeout name d d₁ fine ws s) (haway : s.IsAway) :
    s.world.WellFormed ∧ ∀ {p id content}, d.HasFile p id content →
      p.location d.home ≠ (cachePath dir name).location d.home →
      (∀ processId, p.location d.home ≠
        (CacheFile.temporary (cachePath dir name) processId).location d.home) →
      s.world.HasFile p id content := by
  have hgone : ∀ {stage : Stage FileStore Disk}, s.stage = stage → ({ s with stage } : System FileStore Disk).IsAway :=
    fun hstage => hstage ▸ haway
  have hopening : Disk.Tended (fun _ => False) (dir = ·) d (endState (FileStore.openStore dir timeout d)) :=
    (FileStore.tends_openStore (fun _ => True) (fun _ => True) _ rfl timeout hd).1
  cases h with
  | opening h | unopened _ h | working _ h | failing _ h => exact (hgone h).elim
  | away _ _ _ hleaves =>
    obtain ⟨id₁, hopen, hprepared⟩ := hleaves.opens
    obtain ⟨id, hpremises⟩ := hleaves.premises
    rw [hopen, endState_ok] at hopening
    refine ⟨hpremises.prepared.wellFormed, fun {p id content} hfile hplace hbeside => ?_⟩
    have hhome : d₁.home = d.home := hopening.home
    have hkept : d₁.HasFile p id content := (hopening.hasFile hfile nofun).congr rfl rfl
    refine hpremises.frame.hasFile ?_ hkept
    unfold CacheFile.touched
    rw [hhome]
    exact not_or.mpr ⟨hplace, hbeside _⟩
  | never _ _ _ _ hworld =>
    rcases hworld with hworld | ⟨e, herror⟩
    · rw [hworld]
      exact ⟨hd, fun hfile _ _ => hfile⟩
    · rw [herror, endState_error] at hopening
      exact ⟨hopening.wellFormed, fun hfile _ _ => hopening.hasFile hfile nofun⟩

theorem not_fails_of_away (haway : s.IsAway) (hlog : s.log = []) : ¬ s.Fails := by
  rintro (hne | hfails)
  · exact hne hlog
  · unfold IsAway at haway
    cases hstage : s.stage with
    | working | opening | failing =>
      rw [hstage] at haway
      exact haway
    | _ =>
      rw [hstage] at hfails
      exact hfails

theorem MovesIn.allRequests (h : MovesIn dir timeout d start) {P : Request → Prop} : start.AllRequests P := by
  obtain ⟨interval, lookup, now, status, clock, rfl⟩ := h
  exact ⟨nofun, nofun, nofun, nofun⟩

theorem MovesIn.ledger (h : MovesIn dir timeout d start) : Ledger [] [] start ∧ start.log = [] := by
  obtain ⟨interval, lookup, now, status, clock, rfl⟩ := h
  exact ⟨ledger_start rfl rfl, rfl⟩

/-- How a keeper that has a directory to itself stands, having applied the first writes that were sent. -/
theorem Run.lodged (hd : d.WellFormed) (hname : PlainName name) (hothers : ∀ w w', ¬ around.others w w')
    (hnames : ∀ r ∈ sent, r.Names (· = name)) (hstart : MovesIn dir timeout d start)
    (hrun : Run around start sent s) : ∃ d₁ ws,
      (∀ {store d'}, FileStore.openStore dir timeout d = .ok store d' → FileStore.Opens dir timeout d d₁) ∧
      Lodged dir timeout name d d₁ (Peaceful around dir timeout name d d₁ sent s.clock) ws s ∧
      ws <+: Request.writes sent ∧
      (¬ s.Fails → ws = (Request.writes sent).take s.keeper.tally.writesApplied) := by
  obtain ⟨d₁, hopened⟩ := FileStore.exists_opens hd dir timeout
  obtain ⟨ws, happlied⟩ := hrun.applied
  obtain ⟨hledger, hlog⟩ := hstart.ledger
  exact ⟨d₁, ws, hopened, happlied.lodged hname hothers hnames hopened hstart,
    happlied.isPrefix hledger (absurd hlog), fun hfails => (happlied.ledger hledger hfails).eq_take⟩

/-- When the keeper has gone, the directory has the writes that were applied, and otherwise what it had. -/
theorem Run.found (hd : d.WellFormed) (hname : PlainName name) (hothers : ∀ w w', ¬ around.others w w')
    (hnames : ∀ r ∈ sent, r.Names (· = name)) (hstart : MovesIn dir timeout d start)
    (hrun : Run around start sent s) (haway : s.IsAway) : ∃ saved, saved <+: Request.writes sent ∧
      (s.log = [] → saved = (Request.writes sent).take s.keeper.tally.writesApplied) ∧
      (saved ≠ [] → ∀ key, found dir timeout name key d ≠ none) ∧
      ∀ {other}, PlainName other → ∀ key, found dir timeout other key s.world =
        if other = name then (found dir timeout name key d).map (valueOver key · saved)
        else found dir timeout other key d := by
  obtain ⟨d₁, ws, -, hlodged, hprefix, hall⟩ := hrun.lodged hd hname hothers hnames hstart
  obtain ⟨saved, hsaved, hwhole, hfound⟩ := hlodged.found hd hname haway
  exact ⟨saved, hsaved.trans hprefix,
    fun hlog => (hwhole hlog).trans (hall (not_fails_of_away haway hlog)), hfound⟩

theorem Run.spares (hd : d.WellFormed) (hname : PlainName name) (hothers : ∀ w w', ¬ around.others w w')
    (hnames : ∀ r ∈ sent, r.Names (· = name)) (hstart : MovesIn dir timeout d start)
    (hrun : Run around start sent s) (haway : s.IsAway) :
    s.world.WellFormed ∧ ∀ {p id content}, d.HasFile p id content →
      p.location d.home ≠ (cachePath dir name).location d.home →
      (∀ processId, p.location d.home ≠
        (CacheFile.temporary (cachePath dir name) processId).location d.home) →
      s.world.HasFile p id content := by
  obtain ⟨d₁, ws, -, hlodged, -⟩ := hrun.lodged hd hname hothers hnames hstart
  exact hlodged.spares hd haway

/-- A keeper that can have the cache and that nothing disturbs does not fail, if it has nothing to write. -/
theorem Run.not_fails (hd : d.WellFormed) (hname : PlainName name) (hothers : ∀ w w', ¬ around.others w w')
    (hquiet : ∀ s interference, around.steps s interference → interference = none)
    (hnames : ∀ r ∈ sent, r.Names (· = name)) (hunwritten : Request.writes sent = [])
    (hstart : MovesIn dir timeout d start) (hrun : Run around start sent s)
    (hclock : s.clock.nanos < Instant.limit) (hfound : FileStore.found dir timeout name key d ≠ none) :
    ¬ s.Fails := by
  obtain ⟨d₁, ws, hopened, hlodged, -⟩ := hrun.lodged hd hname hothers hnames hstart
  have hopens : FileStore.Opens dir timeout d d₁ := by
    unfold FileStore.found at hfound
    split at hfound
    · exact absurd rfl hfound
    · exact hopened ‹_›
  refine hlodged.not_fails ⟨hquiet, hopens, ?_, hunwritten, hclock⟩
  rw [hopens.found] at hfound
  cases hload : load (cachePath dir name) d₁ with
  | error e =>
    rw [hload] at hfound
    exact absurd rfl hfound
  | ok entries => exact ⟨entries, rfl⟩

theorem Run.answers_found (hd : d.WellFormed) (hname : PlainName name) (hothers : ∀ w w', ¬ around.others w w')
    (hnames : ∀ r ∈ sent, r.Names (· = name)) (hunwritten : Request.writes sent = [])
    (hstart : MovesIn dir timeout d start) (hrun : Run around start sent s) {token : Token}
    {value : Option Bytes} (hanswer : (token, value) ∈ s.answers) : ∃ read, .read read ∈ sent ∧
      read.token = token ∧ FileStore.found dir timeout name read.key d = some value := by
  have hempty : start.answers = [] := by
    obtain ⟨interval, lookup, now, status, clock, rfl⟩ := hstart
    rfl
  induction hrun with
  | start =>
    rw [hempty] at hanswer
    cases hanswer
  | @step sent s s' _ hbefore _ hstep ih =>
    have hrequests : s.AllRequests (· ∈ sent) := hbefore.allRequests hstart.allRequests fun _ => id
    have hnowrite : ∀ {w}, Request.write w ∉ sent := fun {w} hw => by
      have hmem : w ∈ Request.writes sent := Request.mem_writes.mpr hw
      rw [hunwritten] at hmem
      cases hmem
    cases moves_of_step hstep with
    | answeredFromWrites _ hqueued =>
      have hnone : s.keeper.writes = [] :=
        List.eq_nil_iff_forall_not_mem.mpr fun x hx => hnowrite (hrequests.writes x hx)
      unfold Keeper.queuedValue Keeper.queuedWrite at hqueued
      rw [hnone] at hqueued
      split at hqueued <;> cases hqueued
    | @answeredFromStore _ _ read _ _ _ _ hstage _ _ hcache hcall =>
      rcases List.mem_append.mp hanswer with hold | hnew
      · exact ih hnames hunwritten hold
      cases List.mem_singleton.mp hnew
      obtain ⟨d₁, ws, -, hlodged, hprefix, -⟩ := hbefore.lodged hd hname hothers hnames hstart
      rw [hunwritten] at hprefix
      exact ⟨read, hrequests.hand _ (by rw [hstage]; exact List.mem_singleton_self _), rfl,
        (List.prefix_nil.mp hprefix ▸ hlodged).found_of_get hstage hcache hcall⟩
    | awoke _ hawakes | overflowed _ hawakes => cases hawakes <;> exact ih hnames hunwritten hanswer
    | _ => exact ih hnames hunwritten hanswer
  | send _ hsend ih =>
    obtain ⟨inbox, -, rfl⟩ := Option.map_eq_some_iff.mp hsend
    rw [Request.writes_append] at hunwritten
    obtain ⟨read, hread, hfound⟩ := ih (List.forall_mem_append.mp hnames).1
      (List.append_eq_nil_iff.mp hunwritten).1 hanswer
    exact ⟨read, List.mem_append_left _ hread, hfound⟩
  | tick _ _ ih | disconnect _ ih | change _ _ _ ih | note _ _ _ ih => exact ih hnames hunwritten hanswer

end

end System

end HistoryKeeper
