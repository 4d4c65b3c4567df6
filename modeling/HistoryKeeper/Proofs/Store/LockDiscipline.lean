import HistoryKeeper.Proofs.Store.Action

/-!
# Who answers without the lock

The caches of a store outlive it. A `Crew` is any number of stores, on any directories, that come and go:
each call may succeed or fail, and a store may be closed, fail to close, or just be dropped.

A cache answers while its store holds the lock, and not while the store is without it or once it is
closed. But a store that goes away unclosed while it holds the lock takes the lock with it and leaves its
caches answering (`Crew.Run.refuses_iff`, `Crew.Run.answers_after_drop`).
-/

namespace HistoryKeeper

open FileStore (Action Response openStore)

/-- What has become of a store. -/
inductive Fate where
  | live
  | closed
  /-- It went away unclosed, with the lock or without it. -/
  | dropped (locked : Bool)
  deriving DecidableEq, Repr

structure Holder where
  store : FileStore
  fate : Fate

namespace Holder

/-- The store goes away as it is. -/
def drop (h : Holder) (d : Disk) : Holder × Disk :=
  ({ store := (h.store.freeLock d).1, fate := .dropped h.store.isLocked }, (h.store.freeLock d).2)

/-- A call; a store that fails to close goes away as it is. -/
def call (h : Holder) (action : Action) (d : Disk) : Except StoreError Response × Holder × Disk :=
  match action.perform (h.store, d) with
  | .ok response (store, d) =>
    (.ok response, { store, fate := if action.closes then .closed else h.fate }, d)
  | .error e (store, d) =>
    (.error e, if action.closes then { h with store }.drop d else ({ h with store }, d))

/-- Whether the caches are told that the lock is held. -/
def Answers (h : Holder) : Prop :=
  match h.fate with
  | .live => h.store.isLocked = true
  | .closed => False
  | .dropped locked => locked = true

end Holder

structure Crew where
  /-- Every store that was opened. -/
  holders : List Holder
  disk : Disk

/-- Something that a crew, or somebody else, does. -/
inductive Deed where
  | openStore (dir : Path) (timeout : Duration)
  /-- A call of the store with this number, or of one of its caches. -/
  | call (n : Nat) (action : Action)
  | drop (n : Nat)
  /-- Whatever others do on the disk. -/
  | change (disk : Disk)

namespace Crew

/-- A step, with its outcome. There is none if there is no such store, or if the store is gone and it is
not one of its caches that is called. -/
def step (crew : Crew) : Deed → Option (Except StoreError Response × Crew)
  | .openStore dir timeout =>
    match openStore dir timeout crew.disk with
    | .ok store disk =>
      some (.ok .done, { holders := crew.holders ++ [{ store, fate := .live }], disk })
    | .error e disk => some (.error e, { crew with disk })
  | .call n action =>
    match crew.holders[n]? with
    | none => none
    | some h =>
      if h.fate = .live ∨ action.onCache = true then
        let (result, h, disk) := h.call action crew.disk
        some (result, { holders := crew.holders.set n h, disk })
      else none
  | .drop n =>
    match crew.holders[n]? with
    | none => none
    | some h =>
      if h.fate = .live then
        let (h, disk) := h.drop crew.disk
        some (.ok .done, { holders := crew.holders.set n h, disk })
      else none
  | .change disk => some (.ok .done, { crew with disk })

inductive Run (d : Disk) : Crew → Prop
  | start : Run d { holders := [], disk := d }
  | step {crew deed result crew'} : Run d crew → crew.step deed = some (result, crew') → Run d crew'

/-- Steps in turn, whatever their outcomes. -/
def replay (crew : Crew) : List Deed → Option Crew
  | [] => some crew
  | deed :: deeds => (crew.step deed).bind fun (_, crew) => replay crew deeds

theorem Run.replay {d : Disk} {deeds : List Deed} {crew last : Crew} (h : Run d crew)
    (hr : crew.replay deeds = some last) : Run d last := by
  induction deeds generalizing crew with
  | nil =>
    cases hr
    exact h
  | cons deed deeds ih =>
    obtain ⟨⟨result, crew'⟩, hstep, hrest⟩ := Option.bind_eq_some_iff.mp hr
    exact ih (h.step hstep) hrest

end Crew

namespace FileStore

variable {s : FileStore} {d : Disk} {action : Action}

/-- If the flag told of the lock, it still does. -/
def Follows (st st' : FileStore × Disk) : Prop :=
  st.1.lockHeld = st.1.isLocked → st'.1.lockHeld = st'.1.isLocked

theorem Follows.of_eq {st st' : FileStore × Disk} (hheld : st'.1.lockHeld = st.1.lockHeld)
    (hlock : st'.1.lock = st.1.lock) : Follows st st' := by
  intro h
  rw [hheld, h, isLocked, isLocked, hlock]

theorem follows_ensureLocked : Leads Follows ensureLocked := by
  rintro ⟨s, d⟩ h
  rw [ensureLocked_eq]
  split
  · exact h
  · split
    · rfl
    · exact h

theorem follows_flush : Leads Follows flush := by
  rintro ⟨s, d⟩
  rw [flush_eq]
  split <;> exact .of_eq rfl rfl

theorem follows_leave : Leads Follows leave := by
  rintro ⟨s, d⟩
  rw [leave_eq]
  split
  · exact follows_flush _
  · exact .of_eq rfl rfl

theorem lockHeld_freeLock (s : FileStore) (d : Disk) : (s.freeLock d).1.lockHeld = s.lockHeld := by
  unfold freeLock
  split <;> rfl

theorem isLocked_freeLock (s : FileStore) (d : Disk) : (s.freeLock d).1.isLocked = false := by
  unfold freeLock
  split
  · rfl
  · rename_i hlock
    rw [isLocked, hlock]
    rfl

theorem follows_unlock : Leads Follows unlock := by
  rintro ⟨s, d⟩ -
  exact (isLocked_freeLock s d).symm

/-- A cache can be used, or the call fails, and neither the flag nor the lock changes. -/
theorem access_keeps {α : Type} (c : CacheId) (f : CacheFile → Entries → α × CacheFile)
    (st : FileStore × Disk) : (endState (access c f st)).1.lockHeld = st.1.lockHeld ∧
      (endState (access c f st)).1.lock = st.1.lock := by
  obtain ⟨s, d⟩ := st
  rw [access_eq]
  split
  · split
    · exact ⟨rfl, rfl⟩
    · split <;> exact ⟨rfl, rfl⟩
  · exact ⟨rfl, rfl⟩

theorem perform_eq_access (hcache : action.onCache = true) :
    ∃ (α : Type) (c : CacheId) (f : CacheFile → Entries → α × CacheFile) (g : α → Response),
      action.perform = g <$> access c f := by
  cases action with
  | get c key => exact ⟨_, c, _, _, rfl⟩
  | edit c key change =>
    cases change with
    | put value =>
      have hput : (Change.put value).call c key = put c key value := rfl
      exact ⟨_, c, _, _, congrArg ((fun _ => Response.done) <$> ·) hput⟩
    | remove =>
      have hremove : Change.remove.call c key = remove c key := rfl
      exact ⟨_, c, _, _, congrArg ((fun _ => Response.done) <$> ·) hremove⟩
  | _ => cases hcache

theorem perform_keeps (hcache : action.onCache = true) (st : FileStore × Disk) :
    (endState (action.perform st)).1.lockHeld = st.1.lockHeld ∧
      (endState (action.perform st)).1.lock = st.1.lock := by
  obtain ⟨α, c, f, g, hperform⟩ := perform_eq_access hcache
  rw [hperform, endState_map]
  exact access_keeps c f st

theorem follows_perform (action : Action) : Leads Follows action.perform := by
  rintro ⟨s, d⟩
  cases action with
  | openCache file =>
    rw [Action.perform, endState_map, openCache_eq]
    split <;> exact .of_eq rfl rfl
  | get c key =>
    have hcache : (Action.get c key).onCache = true := rfl
    have hkeeps := perform_keeps hcache (s, d)
    exact .of_eq hkeeps.1 hkeeps.2
  | edit c key change =>
    have hcache : (Action.edit c key change).onCache = true := rfl
    have hkeeps := perform_keeps hcache (s, d)
    exact .of_eq hkeeps.1 hkeeps.2
  | enter | reacquire =>
    rw [Action.perform, endState_map]
    exact follows_ensureLocked (s, d)
  | leave =>
    rw [Action.perform, endState_map]
    exact follows_leave (s, d)
  | release =>
    have hflush := follows_flush (s, d)
    rw [Action.perform, endState_map, release_eq]
    cases hr : flush (s, d) with
    | ok u st => exact fun _ => rfl
    | error e st =>
      rw [hr] at hflush
      exact hflush
  | close =>
    rw [Action.perform, endState_map]
    exact Leads.bind (fun h h' hs => h' (h hs)) follows_leave (fun _ => follows_unlock) (s, d)

theorem held_of_openStore {dir : Path} {timeout : Duration} {d' : Disk}
    (h : openStore dir timeout d = .ok s d') : s.lockHeld = s.isLocked := by
  rw [openStore_eq] at h
  cases hdirs : Disk.createDirs dir d with
  | error fault d₁ =>
    rw [hdirs] at h
    cases h
  | ok u d₁ =>
    have hfollows := follows_ensureLocked (fresh dir timeout, d₁) rfl
    simp only [hdirs] at h
    cases hlock : ensureLocked (fresh dir timeout, d₁) with
    | error e st =>
      simp only [hlock] at h
      cases h
    | ok u st =>
      rw [hlock] at hfollows
      simp only [hlock] at h
      cases h
      exact hfollows

/-- A store that was closed has neither the lock nor the flag. -/
theorem gone_of_close {s' : FileStore} {d' : Disk} {response : Response}
    (hcloses : action.closes = true) (h : action.perform (s, d) = .ok response (s', d')) :
    s'.isLocked = false ∧ s'.lockHeld = false := by
  cases action with
  | close =>
    have hend : endState (close (s, d)) = (s', d') := by
      rw [← endState_map (fun _ => Response.done)]
      exact congrArg endState h
    have hok : (outcome (close (s, d))).map (fun _ => Response.done) = .ok response := by
      rw [← outcome_map]
      exact congrArg outcome h
    cases hclose : close (s, d) with
    | error e st =>
      rw [hclose] at hok
      cases hok
    | ok u st =>
      rw [hclose] at hend
      cases hend
      obtain ⟨-, ⟨s₁, d₁⟩, -, hunlock⟩ := bind_eq_ok_of hclose
      cases hunlock
      exact ⟨isLocked_freeLock s₁ d₁, rfl⟩
  | _ => cases hcloses

theorem loaded_ne_lockNotHeld (f : CacheFile) (d : Disk) : f.loaded d ≠ .error .lockNotHeld := by
  intro h
  unfold CacheFile.loaded at h
  split at h
  · cases h
  · cases hload : CacheFile.load f.path d with
    | ok entries =>
      rw [hload] at h
      cases h
    | error e =>
      rw [hload] at h
      cases h
      unfold CacheFile.load at hload
      split at hload
      · cases hload
      · split at hload
        · cases hload
        · split at hload <;> cases hload

/-- A cache that is told that the lock is held does not say that it is not. -/
theorem ne_lockNotHeld (hheld : s.lockHeld = true) (hcache : action.onCache = true) (d : Disk) :
    outcome (action.perform (s, d)) ≠ .error .lockNotHeld := by
  obtain ⟨α, c, f, g, hperform⟩ := perform_eq_access hcache
  have haccess : outcome (access c f (s, d)) ≠ .error .lockNotHeld := by
    rw [access_eq, if_pos hheld]
    split
    · exact nofun
    · rename_i file _
      split
      · rename_i e hloaded
        intro he
        cases he
        exact loaded_ne_lockNotHeld file d hloaded
      · exact nofun
  rw [hperform, outcome_map]
  intro h
  cases hout : outcome (access c f (s, d)) with
  | ok a =>
    rw [hout] at h
    cases h
  | error e =>
    rw [hout] at h
    cases h
    exact haccess hout

end FileStore

/-! ### Runs -/

/-- The flag is as it should be, and a store that is gone has no lock. -/
structure Holder.Sound (h : Holder) : Prop where
  flag : h.store.lockHeld = true ↔ h.Answers
  gone : h.fate ≠ .live → h.store.isLocked = false

namespace Holder

variable {h : Holder} {action : Action}

theorem Sound.held (hsound : h.Sound) (hlive : h.fate = .live) :
    h.store.lockHeld = h.store.isLocked := by
  have hflag := hsound.flag
  rw [Answers, hlive] at hflag
  exact Bool.eq_iff_iff.mpr hflag

theorem sound_live {store : FileStore} (h : store.lockHeld = store.isLocked) :
    ({ store, fate := .live } : Holder).Sound := by
  refine ⟨?_, fun hgone => absurd rfl hgone⟩
  rw [h]
  rfl

theorem sound_drop (hheld : h.store.lockHeld = h.store.isLocked) (d : Disk) :
    (h.drop d).1.Sound := by
  refine ⟨?_, fun _ => FileStore.isLocked_freeLock h.store d⟩
  show (h.store.freeLock d).1.lockHeld = true ↔ h.store.isLocked = true
  rw [FileStore.lockHeld_freeLock, hheld]

/-- A store that does not go away by the call is sound behind it. -/
theorem Sound.keep (hsound : h.Sound) (hallowed : h.fate = .live ∨ action.onCache = true) (d : Disk) :
    ({ store := (endState (action.perform (h.store, d))).1, fate := h.fate } : Holder).Sound := by
  by_cases hlive : h.fate = .live
  · rw [hlive]
    exact sound_live (FileStore.follows_perform action (h.store, d) (hsound.held hlive))
  · obtain ⟨hheld, hlock⟩ := FileStore.perform_keeps (hallowed.resolve_left hlive) (h.store, d)
    refine ⟨?_, fun _ => ?_⟩
    · show (endState (action.perform (h.store, d))).1.lockHeld = true ↔ _
      rw [hheld, hsound.flag]
      unfold Answers
      cases hfate : h.fate with
      | live => exact absurd hfate hlive
      | _ => rfl
    · rw [FileStore.isLocked, hlock]
      exact hsound.gone hlive

theorem Sound.call (hsound : h.Sound) (hallowed : h.fate = .live ∨ action.onCache = true)
    (d : Disk) : (h.call action d).2.1.Sound := by
  have hkeep := hsound.keep hallowed d
  unfold Holder.call
  cases hr : action.perform (h.store, d) with
  | ok response st =>
    rw [hr] at hkeep
    by_cases hcloses : action.closes = true
    · obtain ⟨hunlocked, hheld⟩ := FileStore.gone_of_close hcloses hr
      refine ⟨?_, fun _ => hunlocked⟩
      simp only [hcloses, if_true, hheld]
      exact iff_of_false nofun id
    · simp only [hcloses]
      exact hkeep
  | error e st =>
    rw [hr] at hkeep
    by_cases hcloses : action.closes = true
    · have hlive : h.fate = .live := by
        refine hallowed.resolve_right fun hcache => ?_
        cases action with
        | close => cases hcache
        | _ => cases hcloses
      simp only [hcloses, if_true]
      exact sound_drop (hkeep.held hlive) st.2
    · simp only [hcloses]
      exact hkeep

theorem call_fst (h : Holder) (action : Action) (d : Disk) :
    (h.call action d).1 = outcome (action.perform (h.store, d)) := by
  unfold Holder.call
  cases action.perform (h.store, d) <;> rfl

theorem Sound.call_of_not_answers (hsound : h.Sound) (hanswers : ¬ h.Answers)
    (hcache : action.onCache = true) (d : Disk) :
    h.call action d = (.error .lockNotHeld, h, d) := by
  have hheld : h.store.lockHeld = false := Bool.eq_false_iff.mpr fun hheld =>
    hanswers (hsound.flag.mp hheld)
  have hcloses : action.closes = false := by
    cases action with
    | close => cases hcache
    | _ => rfl
  unfold Holder.call
  rw [FileStore.perform_of_unlocked hheld hcache]
  simp [hcloses]

end Holder

namespace Crew

variable {d : Disk} {crew crew' : Crew} {n : Nat} {h : Holder} {action : Action}
  {result : Except StoreError Response}

theorem step_call (hstep : crew.step (.call n action) = some (result, crew')) :
    ∃ h, crew.holders[n]? = some h ∧ (h.fate = .live ∨ action.onCache = true) ∧
      result = (h.call action crew.disk).1 ∧
      crew' = { holders := crew.holders.set n (h.call action crew.disk).2.1
                disk := (h.call action crew.disk).2.2 } := by
  simp only [Crew.step] at hstep
  split at hstep
  · cases hstep
  · rename_i h hn
    split at hstep
    · rename_i hallowed
      cases hstep
      exact ⟨h, hn, hallowed, rfl, rfl⟩
    · cases hstep

theorem Run.sound (hrun : Run d crew) : ∀ h ∈ crew.holders, h.Sound := by
  induction hrun with
  | start => exact nofun
  | @step crew deed result crew' _ hstep ih =>
    have hset : ∀ {n : Nat} {h' : Holder}, h'.Sound → ∀ x ∈ crew.holders.set n h', x.Sound := by
      intro n h' hsound x hx
      rcases List.mem_or_eq_of_mem_set hx with hold | rfl
      · exact ih x hold
      · exact hsound
    cases deed with
    | openStore dir timeout =>
      simp only [Crew.step] at hstep
      split at hstep
      · rename_i store disk hopen
        cases hstep
        intro x hx
        rcases List.mem_append.mp hx with hold | hnew
        · exact ih x hold
        · rw [List.mem_singleton.mp hnew]
          exact Holder.sound_live (FileStore.held_of_openStore hopen)
      · cases hstep
        exact ih
    | call n action =>
      obtain ⟨h, hn, hallowed, -, rfl⟩ := step_call hstep
      exact hset ((ih h (List.mem_of_getElem? hn)).call hallowed crew.disk)
    | drop n =>
      simp only [Crew.step] at hstep
      split at hstep
      · cases hstep
      · rename_i h hn
        split at hstep
        · rename_i hlive
          cases hstep
          exact hset (Holder.sound_drop ((ih h (List.mem_of_getElem? hn)).held hlive) crew.disk)
        · cases hstep
    | change disk =>
      cases hstep
      exact ih

/-- A cache says that the lock is not held just when its store is without the lock or closed, or went
away without it; then nothing changes. -/
theorem Run.refuses_iff (hrun : Run d crew) (hn : crew.holders[n]? = some h)
    (hcache : action.onCache = true)
    (hstep : crew.step (.call n action) = some (result, crew')) :
    (result = .error .lockNotHeld ↔ ¬ h.Answers) ∧ (¬ h.Answers → crew' = crew) := by
  obtain ⟨h', hn', -, rfl, rfl⟩ := step_call hstep
  cases hn.symm.trans hn'
  have hsound := hrun.sound h (List.mem_of_getElem? hn)
  by_cases hanswers : h.Answers
  · refine ⟨iff_of_false ?_ (not_not.mpr hanswers), absurd hanswers⟩
    rw [h.call_fst]
    exact FileStore.ne_lockNotHeld (hsound.flag.mpr hanswers) hcache crew.disk
  · rw [hsound.call_of_not_answers hanswers hcache]
    refine ⟨iff_of_true rfl hanswers, fun _ => ?_⟩
    obtain ⟨hlt, rfl⟩ := List.getElem?_eq_some_iff.mp hn
    show { crew with holders := crew.holders.set n crew.holders[n] } = crew
    rw [List.set_getElem_self hlt]

/-- A store that gives its lock up for a long operation. -/
theorem Run.refuses_iff_of_release :
    ∃ (crew : Crew) (h : Holder), crew.holders[0]? = some h ∧ h.fate = .live ∧
      h.store.isLocked = false ∧
      crew.step (.call 0 (.get 0 "1")) = some (.error .lockNotHeld, crew) := by
  let first : Crew := { holders := [], disk := .empty ["home"] 1 }
  let deeds : List Deed := [.openStore ⟨"store"⟩ .zero,
    .call 0 (.openCache (cachePath ⟨"store"⟩ "tasks")), .call 0 (.edit 0 "1" (.put [97])),
    .call 0 .release]
  have hseen : ((first.replay deeds).bind fun crew => crew.holders[0]?.map fun h =>
      (h.fate, h.store.isLocked, (crew.step (.call 0 (.get 0 "1"))).isSome)) =
        some (.live, false, true) := by decide +kernel
  obtain ⟨crew, hreplay, hseen⟩ := Option.bind_eq_some_iff.mp hseen
  obtain ⟨h, hn, hseen⟩ := Option.map_eq_some_iff.mp hseen
  simp only [Prod.mk.injEq] at hseen
  obtain ⟨hlive, hunlocked, hsome⟩ := hseen
  obtain ⟨⟨result, crew'⟩, hstep⟩ := Option.isSome_iff_exists.mp hsome
  have hrun : Run (.empty ["home"] 1) crew := Run.start.replay hreplay
  have hanswers : ¬ h.Answers := by
    rw [Holder.Answers, hlive, hunlocked]
    exact nofun
  obtain ⟨hrefuses, hsame⟩ := hrun.refuses_iff hn rfl hstep
  refine ⟨crew, h, hn, hlive, hunlocked, ?_⟩
  rw [hstep, hrefuses.mpr hanswers, hsame hanswers]

/-- Caches do not answer only while their store holds the lock: one that was dropped has left a cache
that answers. -/
theorem Run.answers_after_drop :
    ¬ ∀ (d : Disk) (crew crew' : Crew) (n : Nat) (h : Holder) (action : Action) (response : Response),
      Run d crew → crew.holders[n]? = some h → action.onCache = true →
      crew.step (.call n action) = some (.ok response, crew') →
      h.fate = .live ∧ h.store.isLocked = true := by
  intro hclaim
  let first : Crew := { holders := [], disk := .empty ["home"] 1 }
  let deeds : List Deed := [.openStore ⟨"store"⟩ .zero,
    .call 0 (.openCache (cachePath ⟨"store"⟩ "tasks")), .drop 0]
  have hseen : ((first.replay deeds).bind fun crew => crew.holders[0]?.bind fun h =>
      (crew.step (.call 0 (.get 0 "1"))).map fun x => (h.fate, x.1)) =
        some (.dropped true, .ok (.value none)) := by decide +kernel
  obtain ⟨crew, hreplay, hseen⟩ := Option.bind_eq_some_iff.mp hseen
  obtain ⟨h, hn, hseen⟩ := Option.bind_eq_some_iff.mp hseen
  obtain ⟨⟨result, crew'⟩, hstep, hseen⟩ := Option.map_eq_some_iff.mp hseen
  simp only [Prod.mk.injEq] at hseen
  obtain ⟨hdropped, rfl⟩ := hseen
  have hrun : Run (.empty ["home"] 1) crew := Run.start.replay hreplay
  obtain ⟨hlive, -⟩ := hclaim _ crew crew' 0 h _ _ hrun hn rfl hstep
  rw [hdropped] at hlive
  cases hlive

end Crew

end HistoryKeeper
