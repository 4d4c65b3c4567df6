import HistoryKeeper.Proofs.Keeper.Departure
import HistoryKeeper.Proofs.Keeper.Durable

/-!
# What a stop leaves in a store

A keeper that was stopped has all writes that it had taken in in its store, each of them once
(`Run.stopped`), and a store on disk has them in its files after that. Stores of a site stay of their
kind, so it is known which of the two a closed store was.
-/

namespace HistoryKeeper

theorem Request.take_writes {first sent : List Request} (h : first <+: sent) :
    (writes sent).take (writes first).length = writes first := by
  obtain ⟨rest, rfl⟩ := h
  rw [writes_append]
  exact List.take_left

namespace AnyStore

def kind : AnyStore → StoreKind
  | memory _ => .memory
  | file _ => .file

theorem kind_call {α : Type} {onMemory : MemoryStore.Call α} {onFile : FileStore.Call α}
    {store store' : AnyStore} {site site' : Site} {v : α}
    (h : call onMemory onFile (store, site) = .ok v (store', site')) : store'.kind = store.kind := by
  unfold call at h
  cases store with
  | memory store =>
    simp only at h
    split at h <;> cases h
    rfl
  | file store =>
    simp only at h
    split at h <;> cases h
    rfl

theorem onFile_of_call {α : Type} {onMemory : MemoryStore.Call α} {onFile : FileStore.Call α}
    {store : FileStore} {store' : AnyStore} {site site' : Site} {v : α}
    (h : call onMemory onFile (file store, site) = .ok v (store', site')) :
    ∃ after, onFile (store, site.disk) = .ok v (after, site'.disk) := by
  unfold call at h
  simp only at h
  split at h
  · rename_i hr
    cases h
    exact ⟨_, hr⟩
  · cases h

theorem kind_openStore {kind : StoreKind} {dir : Path} {timeout : Duration} {store : AnyStore}
    {site site' : Site} (h : openStore kind dir timeout site = .ok store site') :
    store.kind = kind := by
  unfold openStore at h
  cases kind with
  | memory =>
    cases h
    rfl
  | file =>
    simp only at h
    split at h <;> cases h
    rfl

end AnyStore

namespace System

open CacheFile (kept)

variable {names : String → Prop} {kind : StoreKind} {dir : Path} {timeout interval : Duration}
  {lookup : Bool} {now clock : Instant} {status : Status} {site : Site} {sent : List Request}
  {s s' : System AnyStore Site} {interference : Option Interference}
  {around : Surroundings AnyStore Site}

/-- Consistent with what stores of a kind find. -/
abbrev ConsistentAt (kind : StoreKind) (dir : Path) (names : String → Prop) (site : Site) :=
  Consistent (AnyStore.view dir names) (AnyStore.initial kind dir site)
    (AnyStore.Ready kind dir names site)

/-- The files have the writes that were applied. -/
def Filed (dir : Path) (names : String → Prop) (site : Site) (sent : List Request)
    (s : System AnyStore Site) : Prop :=
  ∀ name, names name → kept (cachePath dir name) s.world.disk =
    PendingWrite.contentAfter (AnyStore.initial .file dir site)
      ((Request.writes sent).take s.keeper.tally.writesApplied) name

/-- The store is of its kind for as long as there is one, and its files have everything when it is
closed. -/
def Files (kind : StoreKind) (dir : Path) (timeout : Duration) (names : String → Prop) (site : Site)
    (sent : List Request) (s : System AnyStore Site) : Prop :=
  match s.stage with
  | .opening opener => opener = .of (AnyStore.openStore kind dir timeout)
  | .working store _ => store.kind = kind
  | _ => kind = .file → s.Filed dir names site sent

theorem Files.close {store store' : AnyStore} {world : Site}
    (hconsistent : ConsistentAt kind dir names site sent s)
    (hstage : s.stage = .working store .closing) (hkind : store.kind = kind)
    (hclose : Store.close (store, s.world) = .ok () (store', world)) (hfile : kind = .file) :
    ({ s with world } : System AnyStore Site).Filed dir names site sent := by
  subst hfile
  have h := hconsistent.outOfLoop hstage id
  cases store with
  | memory => cases hkind
  | file store =>
    have hkeeps : FileStore.Keeps dir names (store, s.world.disk) := h.sound
    obtain ⟨closed, hdisk⟩ := AnyStore.onFile_of_call hclose
    intro name hname
    exact (FileStore.kept_of_close hkeeps.sound hdisk ⟨name, hname, rfl⟩).trans (h.content name hname)

theorem Files.step (hconsistent : ConsistentAt kind dir names site sent s)
    (h : s.Fails ∨ Files kind dir timeout names site sent s)
    (hstep : s.step interference = some s') :
    s'.Fails ∨ Files kind dir timeout names site sent s' := by
  rcases h with hfails | h
  · exact Or.inl (hfails.step hstep)
  unfold Files at h
  cases moves_of_step hstep with
  | unopened | broken | failed | crashed | overflowed | reacquiredBroken | leftFailed =>
    exact Or.inl (Or.inr trivial)
  | letGo => exact Or.inl (Or.inl (by simp))
  | opened hstage _ hopen =>
    rw [hstage] at h
    subst h
    exact Or.inr (AnyStore.kind_openStore (Opener.of_eq_ok hopen))
  | entered hstage _ hcall | released hstage _ hcall | left hstage _ hcall
  | answeredFromStore hstage _ _ _ hcall | openedCache hstage _ _ _ hcall =>
    rw [hstage] at h
    exact Or.inr ((AnyStore.kind_call hcall).trans h)
  | @applied _ write _ _ _ hstage _ _ hcall =>
    rw [hstage] at h
    refine Or.inr (Eq.trans ?_ h)
    cases hchange : write.change <;>
    · rw [hchange] at hcall
      exact AnyStore.kind_call hcall
  | awoke hstage hawakes =>
    rw [hstage] at h
    cases hawakes with
    | reacquired hcall => exact Or.inr ((AnyStore.kind_call hcall).trans h)
    | _ => exact Or.inr h
  | closed hstage _ hclose =>
    rw [hstage] at h
    exact Or.inr (Files.close hconsistent hstage h hclose)
  | @drained _ request _ hstage =>
    rw [hstage] at h
    refine Or.inr ?_
    unfold Files
    simp only [hstage]
    intro hfile name hname
    rw [tally_enqueue]
    exact h hfile name hname
  | drainedAll hstage | finished hstage | parted hstage =>
    rw [hstage] at h
    exact Or.inr h
  | _ hstage =>
    rw [hstage] at h
    exact Or.inr h

theorem Files.map {sent' : List Request} (h : Files kind dir timeout names site sent s)
    (hstage : s'.stage = s.stage)
    (hfiled : s.Filed dir names site sent → s'.Filed dir names site sent') :
    Files kind dir timeout names site sent' s' := by
  unfold Files at h ⊢
  rw [hstage]
  split at h
  · exact h
  · exact h
  · exact fun hfile => hfiled (h hfile)

theorem consistentAt_start (hfiles : AnyStore.DistinctFiles kind dir names site) :
    ConsistentAt kind dir names site [] (.start (.new interval lookup now)
      (.of (AnyStore.openStore kind dir timeout)) site .empty status clock) :=
  .opening _ rfl (AnyStore.opens kind dir timeout names site) (AnyStore.ready hfiles) rfl
    (Books.start _ lookup)

theorem Run.consistentAt {start : System AnyStore Site}
    (hothers : ∀ w w', around.others w w' →
      w'.disk.nodes = w.disk.nodes ∧ w'.disk.home = w.disk.home)
    (hstart : ConsistentAt kind dir names site [] start) (hrun : Run around start sent s)
    (hnamed : ∀ r ∈ sent, r.Names names) : ConsistentAt kind dir names site sent s :=
  hrun.consistent (AnyStore.faithful_view dir names) hothers AnyStore.ordered_initial hstart hnamed

theorem Run.files {start : System AnyStore Site}
    (hothers : ∀ w w', around.others w w' →
      w'.disk.nodes = w.disk.nodes ∧ w'.disk.home = w.disk.home)
    (hstart : ConsistentAt kind dir names site [] start)
    (hopening : start.stage = .opening (.of (AnyStore.openStore kind dir timeout)))
    (hrun : Run around start sent s) (hnamed : ∀ r ∈ sent, r.Names names) :
    s.Fails ∨ Files kind dir timeout names site sent s := by
  induction hrun with
  | start =>
    refine Or.inr ?_
    unfold Files
    rw [hopening]
  | step hrun _ hstep ih =>
    exact Files.step (hrun.consistentAt hothers hstart hnamed) (ih hnamed) hstep
  | @send _ s _ request hrun hsend ih =>
    have hnamed' := Consistent.named hnamed
    have hcount := (hrun.consistentAt hothers hstart hnamed').past.count
    obtain ⟨inbox, -, rfl⟩ := Option.map_eq_some_iff.mp hsend
    refine (ih hnamed').imp id fun h => h.map rfl fun hfiled name hname => ?_
    rw [Request.writes_append, List.take_append_of_le_length hcount]
    exact hfiled name hname
  | tick _ _ ih | disconnect _ ih | note _ _ _ ih =>
    exact (ih hnamed).imp id fun h => h.map rfl id
  | change world _ hchange ih =>
    obtain ⟨hnodes, hhome⟩ := hothers _ _ hchange
    refine (ih hnamed).imp id fun h => h.map rfl fun hfiled name hname => ?_
    exact (CacheFile.kept_of_nodes hnodes hhome _).trans (hfiled name hname)

/-- What a keeper that left its loop of itself has left behind: its store had the writes that were
taken in, and if it was on disk, its files have them now. -/
structure Bequest (kind : StoreKind) (dir : Path) (names : String → Prop) (site : Site)
    (ws : List PendingWrite) (store : AnyStore) (left s : System AnyStore Site) : Prop where
  count : s.keeper.tally.writesApplied = ws.length
  content : ∀ name, names name → (AnyStore.view dir names).content (store, left.world) name =
    PendingWrite.contentAfter (AnyStore.initial kind dir site) ws name
  files : kind = .file → ∀ name, names name → kept (cachePath dir name) s.world.disk =
    PendingWrite.contentAfter (AnyStore.initial kind dir site) ws name

theorem Run.stopped (hfiles : AnyStore.DistinctFiles kind dir names site)
    (hothers : ∀ w w', around.others w w' →
      w'.disk.nodes = w.disk.nodes ∧ w'.disk.home = w.disk.home)
    {start : System AnyStore Site}
    (hstart : start = .start (.new interval lookup now) (.of (AnyStore.openStore kind dir timeout))
      site .empty status clock)
    (hrun : Run around start sent s) (hnamed : ∀ r ∈ sent, r.Names names)
    (hended : s.hasEnded = true) (hlog : s.log = []) :
    ∃ earlier later left store, sent = earlier ++ later ∧ Run around start earlier left ∧
      left.stage = .working store (.leaving none) ∧ Run around left later s ∧
      Bequest kind dir names site (Request.writes (left.collected earlier)) store left s := by
  have hconsistent : ConsistentAt kind dir names site [] start := hstart ▸ consistentAt_start hfiles
  have hopening : start.stage = .opening (.of (AnyStore.openStore kind dir timeout)) := by
    rw [hstart]
    rfl
  have hstage := stage_of_hasEnded hended
  have hfiled : kind = .file → s.Filed dir names site sent := by
    rcases hrun.files hothers hconsistent hopening hnamed with (hlog' | hfails) | h
    · exact absurd hlog hlog'
    · rw [hstage] at hfails
      exact hfails.elim
    · unfold Files at h
      rw [hstage] at h
      exact h
  cases hrun.farewell (AnyStore.faithful_view dir names) hothers AnyStore.ordered_initial hconsistent
      hopening hnamed with
  | opening _ h | working _ _ h | failing _ _ h =>
    rw [hstage] at h
    cases h
  | failed _ h => exact absurd hlog h
  | exited _ h =>
    obtain ⟨earlier, later, left, store, rfl, hbefore, hleft, hafter, hcount⟩ := h
    refine ⟨earlier, later, left, store, rfl, hbefore, hleft, hafter, hcount, fun name hname => ?_,
      fun hfile name hname => ?_⟩
    · have hnamed' : ∀ r ∈ earlier, r.Names names := fun r hr => hnamed r (List.mem_append_left _ hr)
      have hleaving := (hbefore.consistentAt hothers hconsistent hnamed').outOfLoop hleft id
      rw [hleaving.content name hname, hleaving.complete rfl,
        Request.take_writes (List.take_prefix ..)]
      rfl
    · subst hfile
      have htaken : left.collected earlier <+: earlier ++ later :=
        (List.take_prefix ..).trans (List.prefix_append ..)
      rw [hfiled rfl name hname, hcount, Request.take_writes htaken]

end System

end HistoryKeeper
