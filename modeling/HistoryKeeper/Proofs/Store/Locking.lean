import HistoryKeeper.Proofs.Store.FileStore

/-!
# Stores and the lock of their directory

A store that holds the lock has locked the file that is the lock's (`FileStore.HoldsLock`), and no
call changes that but those that give the lock up. While somebody holds the lock (`Held`), no other
store gets it (`ensureLocked_of_held`), and a store without the lock does nothing on the disk.
-/

namespace HistoryKeeper

open Disk (Extends)

/-- The operating system is to blame. -/
def StoreError.IsFault : StoreError → Prop
  | .io _ | .lock (.io _) => True
  | _ => False

/-- The lock's file is where it was, and nobody has taken or freed the lock. -/
structure DirectoryLock.Kept (dir : Path) (d d' : Disk) : Prop where
  home : d'.home = d.home
  locked : d'.locked = d.locked
  file : ∀ {id content}, d.node? (locationOf d.home dir) = some (.file id content) →
    d'.node? (locationOf d.home dir) = some (.file id content)

namespace DirectoryLock

variable {changed : Location → Prop} {dir : Path} {d d' d'' : Disk}

theorem Kept.of_extends (h : Extends changed d d') (hc : ¬ changed (locationOf d.home dir)) :
    Kept dir d d' :=
  ⟨h.home, h.locked, fun hfile => (h.file hc).mpr hfile⟩

theorem Tried.kept (h : Tried dir d d') : Kept dir d d' :=
  ⟨h.ext.home, h.ext.locked, h.old⟩

theorem Tried.refl (hd : d.WellFormed) (dir : Path) : Tried dir d d :=
  ⟨hd, Extends.refl _ d, id⟩

/-- Somebody holds the lock. -/
def Held (dir : Path) (d : Disk) : Prop :=
  ∃ id content, d.node? (locationOf d.home dir) = some (.file id content) ∧ d.isLocked id = true

theorem Held.kept (h : Held dir d) (hk : Kept dir d d') : Held dir d' := by
  obtain ⟨id, content, hfile, hlocked⟩ := h
  refine ⟨id, content, ?_, ?_⟩
  · rw [hk.home]
    exact hk.file hfile
  · rw [Disk.isLocked, hk.locked]
    exact hlocked

end DirectoryLock

namespace FileStore

open CacheFile (Addressing kept)
open DirectoryLock (Held Kept Tried locationOf)

variable {used : Path → Prop} {p : Path} {d d' : Disk} {s s' : FileStore} {c : CacheId}

/-- The store's lock is the lock of its directory. -/
def HoldsLock (st : FileStore × Disk) : Prop :=
  ∀ lock, st.1.lock = some lock → ∃ content,
    st.2.node? (locationOf st.2.home st.1.baseDir) = some (.file lock.file content) ∧
      st.2.isLocked lock.file = true

theorem HoldsLock.of_unlocked (h : s.isLocked = false) : HoldsLock (s, d) := by
  intro lock hlock
  rw [isLocked, hlock] at h
  cases h

theorem HoldsLock.kept (h : HoldsLock (s, d)) (hk : Kept s.baseDir d d') (hlock : s'.lock = s.lock)
    (hdir : s'.baseDir = s.baseDir) : HoldsLock (s', d') := by
  intro lock hs
  obtain ⟨content, hfile, hlocked⟩ := h lock (hlock ▸ hs)
  refine ⟨content, ?_, ?_⟩
  · show d'.node? (locationOf d'.home s'.baseDir) = _
    rw [hdir, hk.home]
    exact hk.file hfile
  · show d'.isLocked lock.file = true
    rw [Disk.isLocked, hk.locked]
    exact hlocked

theorem HoldsLock.held (h : HoldsLock (s, d)) (hlocked : s.isLocked = true) : Held s.baseDir d := by
  obtain ⟨lock, hlock⟩ := Option.isSome_iff_exists.mp hlocked
  obtain ⟨content, hfile, hd⟩ := h lock hlock
  exact ⟨lock.file, content, hfile, hd⟩

/-- A store that has nothing loaded does not mind what happens on the disk. -/
theorem Sound.of_unlocked (h : Sound used (s, d)) (hunlocked : s.isLocked = false)
    (haddr : Addressing used s.baseDir d') : Sound used (s, d') := by
  refine ⟨haddr, fun f hf => ?_, h.distinct, h.held, h.idle⟩
  obtain ⟨hentries, hdirty⟩ := h.idle hunlocked f hf
  refine ⟨(h.files f hf).used, ?_, ?_, ?_⟩
  · rw [hentries]
    nofun
  · rw [hdirty]
    nofun
  · rw [hentries]
    nofun

theorem content_of_unlocked (h : Sound used (s, d)) (hunlocked : s.isLocked = false) (p : Path) :
    content (s, d) p = kept p d :=
  content_of_clean h (fun f hf => (h.idle hunlocked f hf).2) p

theorem kept_flush (h : Sound used (s, d)) : Kept s.baseDir d (endState (flush (s, d))).2 := by
  have hflushed := flushFiles_spec h.addressing h.files h.distinct
  have hend : (endState (flush (s, d))).2 = (flushFiles s.caches d).2.2 := by
    rw [flush_eq]
    split <;> rfl
  rw [hend]
  refine Kept.of_extends hflushed.ext ?_
  rintro ⟨f, hf, -, hpath | htemporary⟩
  · exact h.addressing.notLock f.path (h.files f hf).used hpath.symm
  · obtain ⟨digit, hdigit, hends⟩ := endsWith_temporary f.path d.processId d.home
    have hlock : Path.EndsWith (locationOf d.home s.baseDir) digit := htemporary ▸ hends
    rw [hlock.unique (endsWith_lock s.baseDir d.home)] at hdigit
    exact absurd hdigit (by decide)

theorem lock_flush (s : FileStore) (d : Disk) : (endState (flush (s, d))).1.lock = s.lock ∧
    (endState (flush (s, d))).1.baseDir = s.baseDir := by
  rw [flush_eq]
  split <;> exact ⟨rfl, rfl⟩

theorem HoldsLock.flush (hst : Sound used (s, d)) (h : HoldsLock (s, d)) :
    HoldsLock (endState (FileStore.flush (s, d))) :=
  h.kept (kept_flush hst) (lock_flush s d).1 (lock_flush s d).2

theorem HoldsLock.leave (hst : Sound used (s, d)) (h : HoldsLock (s, d)) :
    HoldsLock (endState (FileStore.leave (s, d))) := by
  rw [leave_eq]
  split
  · exact h.flush hst
  · exact h

theorem HoldsLock.release (hst : Sound used (s, d)) (h : HoldsLock (s, d)) :
    HoldsLock (endState (FileStore.release (s, d))) := by
  have hflush := h.flush hst
  rw [release_eq]
  cases hr : FileStore.flush (s, d) with
  | error e st =>
    rw [hr] at hflush
    exact hflush
  | ok u st => exact .of_unlocked rfl

theorem HoldsLock.ensureLocked (hst : Sound used (s, d)) (h : HoldsLock (s, d)) :
    HoldsLock (endState (FileStore.ensureLocked (s, d))) := by
  rw [ensureLocked_eq]
  split
  · exact h
  · rename_i hunlocked
    have hspec := DirectoryLock.acquire_spec hst.addressing.wellFormed s.baseDir s.lockTimeout
    cases hr : DirectoryLock.acquire s.baseDir s.lockTimeout d with
    | error e d' => exact .of_unlocked (by simpa using hunlocked)
    | ok lock d' =>
      rw [hr] at hspec
      obtain ⟨d₁, htried, -, rfl, content, hfile⟩ := hspec
      intro lock' hlock
      cases hlock
      refine ⟨content, ?_, ?_⟩
      · show d₁.node? (locationOf d₁.home s.baseDir) = _
        rw [htried.ext.home]
        exact hfile
      · simp [Disk.isLocked, Disk.lock]

/-- Caches are opened and used in memory. -/
structure InMemory (st st' : FileStore × Disk) : Prop where
  disk : st'.2 = st.2
  lock : st'.1.lock = st.1.lock
  baseDir : st'.1.baseDir = st.1.baseDir

theorem InMemory.refl (st : FileStore × Disk) : InMemory st st :=
  ⟨rfl, rfl, rfl⟩

theorem inMemory_openCache (p : Path) : Leads InMemory (openCache p) := by
  rintro ⟨s, d⟩
  rw [openCache_eq]
  split
  · exact InMemory.refl _
  · exact ⟨rfl, rfl, rfl⟩

theorem inMemory_access {α : Type} (c : CacheId) (f : CacheFile → Entries → α × CacheFile) :
    Leads InMemory (access c f) := by
  rintro ⟨s, d⟩
  rw [access_eq]
  split
  · split
    · exact InMemory.refl _
    · split
      · exact InMemory.refl _
      · exact ⟨rfl, rfl, rfl⟩
  · exact InMemory.refl _

theorem HoldsLock.inMemory {st st' : FileStore × Disk} (h : HoldsLock st) (hst : InMemory st st') :
    HoldsLock st' := by
  intro lock hlock
  rw [hst.disk, hst.baseDir]
  exact h lock (hst.lock ▸ hlock)

/-! ### Calls of a store without the lock -/

/-- A store that does not get the lock has tried for it, up to its timeout. -/
theorem tried_of_ensureLocked {e : StoreError} (h : Sound used (s, d))
    (hr : ensureLocked (s, d) = .error e (s', d')) :
    s' = s ∧ Tried s.baseDir d d' ∧ (e.IsFault ∨ e = .lock (.timeout s.lockTimeout)) := by
  rw [ensureLocked_eq] at hr
  split at hr
  · cases hr
  · have hspec := DirectoryLock.acquire_spec h.addressing.wellFormed s.baseDir s.lockTimeout
    cases hl : DirectoryLock.acquire s.baseDir s.lockTimeout d with
    | ok lock d₁ =>
      rw [hl] at hr
      cases hr
    | error e d₁ =>
      rw [hl] at hr hspec
      cases hr
      obtain ⟨htried, ⟨fault, rfl⟩ | rfl⟩ := hspec
      · exact ⟨rfl, htried, Or.inl trivial⟩
      · exact ⟨rfl, htried, Or.inr rfl⟩

theorem ensureLocked_of_held (h : Sound used (s, d)) (hunlocked : s.isLocked = false)
    (hheld : Held s.baseDir d) : ∃ e d', ensureLocked (s, d) = .error e (s, d') := by
  obtain ⟨id, content, hfile, hlocked⟩ := hheld
  obtain ⟨e, d', hacquire, -, -⟩ :=
    DirectoryLock.acquire_of_held h.addressing.wellFormed hfile hlocked s.lockTimeout
  refine ⟨.lock e, d', ?_⟩
  rw [ensureLocked_eq, if_neg (by simp [hunlocked]), hacquire]

theorem leave_of_unlocked (hunlocked : s.isLocked = false) (d : Disk) :
    leave (s, d) = .ok () (s, d) := by
  rw [leave_eq, if_neg (by simp [hunlocked])]

theorem freeLock_of_unlocked (hunlocked : s.isLocked = false) (d : Disk) : s.freeLock d = (s, d) := by
  unfold freeLock
  split
  · rename_i lock hlock
    rw [isLocked, hlock] at hunlocked
    cases hunlocked
  · rfl

theorem release_of_unlocked (h : Sound used (s, d)) (hunlocked : s.isLocked = false) :
    release (s, d) = .ok () (s.unloaded, d) := by
  have hclean := fun f hf => (h.idle hunlocked f hf).2
  rw [release_eq, flush_eq, flushFiles_of_clean hclean]
  show EStateM.Result.ok () (s.unloaded, (s.freeLock d).2) = _
  rw [freeLock_of_unlocked hunlocked]

theorem tried_createDirs (hd : d.WellFormed) (dir : Path) :
    Tried dir d (endState (Disk.createDirs dir d)) := by
  obtain ⟨hwf, hext⟩ := Disk.leads_createDirs dir d hd
  exact ⟨hwf, hext.weaken, fun h => (hext.file id).mpr h⟩

theorem openStore_ok {dir : Path} {timeout : Duration}
    (h : openStore dir timeout d = .ok s d') (hd : d.WellFormed) :
    ∃ d₁, Tried dir d d₁ ∧ ensureLocked (fresh dir timeout, d₁) = .ok () (s, d') := by
  have hdirs := tried_createDirs hd dir
  rw [openStore_eq] at h
  cases hr : Disk.createDirs dir d with
  | error fault d₁ =>
    rw [hr] at h
    cases h
  | ok u d₁ =>
    rw [hr, endState_ok] at hdirs
    rw [hr] at h
    refine ⟨d₁, hdirs, ?_⟩
    cases hl : ensureLocked (fresh dir timeout, d₁) with
    | error e st => simp only [hl] at h; cases h
    | ok u st =>
      simp only [hl] at h
      cases h
      rfl

/-- A store that was not opened has tried for the lock, at most. -/
theorem openStore_error {dir : Path} {timeout : Duration} {e : StoreError}
    (h : openStore dir timeout d = .error e d') (haddr : Addressing used dir d) :
    ∃ d₁, Tried dir d d₁ ∧ Tried dir d₁ d' ∧ (e.IsFault ∨ e = .lock (.timeout timeout)) := by
  have hdirs := tried_createDirs haddr.wellFormed dir
  rw [openStore_eq] at h
  cases hr : Disk.createDirs dir d with
  | error fault d₁ =>
    rw [hr, endState_error] at hdirs
    rw [hr] at h
    cases h
    exact ⟨_, hdirs, .refl hdirs.wellFormed dir, Or.inl trivial⟩
  | ok u d₁ =>
    rw [hr, endState_ok] at hdirs
    rw [hr] at h
    cases hl : ensureLocked (fresh dir timeout, d₁) with
    | ok u st => simp only [hl] at h; cases h
    | error e st =>
      simp only [hl] at h
      cases h
      have hfresh := sound_fresh (haddr.mono hdirs.wellFormed hdirs.ext haddr.notLock) timeout
      obtain ⟨-, htried, he⟩ := tried_of_ensureLocked hfresh hl
      exact ⟨d₁, hdirs, htried, he⟩

theorem openStore_of_held {dir : Path} (haddr : Addressing used dir d) (hheld : Held dir d)
    (timeout : Duration) : ∃ e d', openStore dir timeout d = .error e d' := by
  cases h : openStore dir timeout d with
  | error e d' => exact ⟨e, d', rfl⟩
  | ok s d' =>
    obtain ⟨d₁, hdirs, hl⟩ := openStore_ok h haddr.wellFormed
    have hfresh := sound_fresh (haddr.mono hdirs.wellFormed hdirs.ext haddr.notLock) timeout
    obtain ⟨e, d₂, he⟩ := ensureLocked_of_held hfresh rfl (hheld.kept hdirs.kept)
    rw [he] at hl
    cases hl

/-- Only the operating system can keep a store from closing. -/
theorem fault_of_close {e : StoreError} {st : FileStore × Disk}
    (h : close (s, d) = .error e st) : ∃ fault, e = .io fault := by
  change EStateM.bind leave (fun _ => unlock) (s, d) = _ at h
  unfold EStateM.bind at h
  cases hleave : leave (s, d) with
  | ok u st₁ =>
    rw [hleave] at h
    cases h
  | error e₁ st₁ =>
    rw [hleave] at h
    cases h
    rw [leave_eq, flush_eq] at hleave
    split at hleave
    · split at hleave
      · cases hleave
      · cases hleave
        exact ⟨_, rfl⟩
    · cases hleave

/-- A store that was closed has no lock and its caches do not answer; what it had is on the disk. -/
theorem close_spec (h : Sound used (s, d)) (hclose : close (s, d) = .ok () (s', d')) :
    Addressing used s.baseDir d' ∧ s'.baseDir = s.baseDir ∧ s'.lock = none ∧ s'.lockHeld = false ∧
      (s.isLocked = false → d' = d) ∧ ∀ p, used p → kept p d' = content (s, d) p := by
  obtain ⟨u, ⟨s₁, d₁⟩, hleave, hunlock⟩ := bind_eq_ok_of hclose
  have hleft := leads_leave used (s, d) h
  rw [hleave, endState_ok] at hleft
  obtain ⟨hnodes, hhome⟩ := freeLock_nodes s₁ d₁
  have hs' : s' = { (s₁.freeLock d₁).1 with lockHeld := false } ∧ d' = (s₁.freeLock d₁).2 := by
    cases hunlock
    exact ⟨rfl, rfl⟩
  have hfreed : (s₁.freeLock d₁).1.lock = none ∧ (s₁.freeLock d₁).1.baseDir = s₁.baseDir := by
    unfold freeLock
    split
    · exact ⟨rfl, rfl⟩
    · exact ⟨‹_›, rfl⟩
  refine ⟨?_, ?_, ?_, ?_, fun hunlocked => ?_, fun p hp => kept_of_close h hclose hp⟩
  · rw [hs'.2, ← hleft.baseDir]
    exact hleft.sound.addressing.congr hnodes hhome
  · rw [hs'.1]
    exact hfreed.2.trans hleft.baseDir
  · rw [hs'.1]
    exact hfreed.1
  · rw [hs'.1]
  · rw [leave_of_unlocked hunlocked] at hleave
    cases hleave
    rw [hs'.2, freeLock_of_unlocked hunlocked]

end FileStore

end HistoryKeeper
