import HistoryKeeper.Proofs.Store.Action

/-!
# A store that has its directory to itself

`FileStore.Alone`: nobody else locks the directory or writes there, and the caches are on files below it
(`Proper`). Then no call fails but for the operating system (`UnlessFault`), and calls that are not meant
to change what the caches hold do not (`Undisturbed`).

A file may be asked for in several spellings, and the store goes by the first one. So what is said of
contents is said of paths that are `Tracked`: those that the store goes by, and those of files that
nobody has asked for yet.
-/

namespace HistoryKeeper

open HistoryKeeper.Path (Below)

/-- What holds of a result, unless the operating system is to blame. -/
def UnlessFault {σ α : Type} (holds : α → σ → Prop) (result : EStateM.Result StoreError σ α) : Prop :=
  match result with
  | .ok a st => holds a st
  | .error e _ => e.IsFault

theorem UnlessFault.mono {σ α : Type} {holds holds' : α → σ → Prop}
    {result : EStateM.Result StoreError σ α} (h : UnlessFault holds result)
    (himp : ∀ a st, holds a st → holds' a st) : UnlessFault holds' result := by
  cases result with
  | ok a st => exact himp a st h
  | error e st => exact h

theorem CacheFile.fault_of_load {p : Path} {d : Disk} {entries : Entries} {e : StoreError}
    (hkept : kept p d = .ok entries) (h : load p d = .error e) : e.IsFault := by
  cases hs : d.stat p with
  | error fault =>
    unfold load Disk.pathExists at h
    rw [hs] at h
    cases h
  | ok n =>
    cases n with
    | directory =>
      unfold load Disk.pathExists Disk.read at h
      rw [hs] at h
      cases h
      exact trivial
    | file id content =>
      rw [load_of_hasFile hs] at h
      rw [kept, hs] at hkept
      cases hc : decode content with
      | ok entries =>
        rw [hc] at h
        cases h
      | error reason =>
        simp only [hc] at hkept
        cases hkept

namespace FileStore

open Disk (Extends)
open CacheFile (Addressing kept temporary)
open DirectoryLock (Free Kept Tried locationOf)

variable {used files : Path → Prop} {dir p q : Path} {d d' : Disk} {s s' : FileStore}
  {st st' st'' : FileStore × Disk} {c : CacheId} {id : FileId}

/-- These files are below the directory, and none is the lock or temporary. -/
structure Proper (dir : Path) (home : Location) (files : Path → Prop) : Prop where
  below : ∀ p, files p → Below dir p
  notLock : ∀ p, files p → p.location home ≠ locationOf home dir
  notTemporary : ∀ p q, files p → files q → ∀ processId,
    p.location home ≠ (temporary q processId).location home

/-- The paths that the store goes by. -/
def paths (s : FileStore) : List Path :=
  s.caches.map (·.path)

/-- The store goes by this path, or nobody has asked for its file yet. -/
def Tracked (s : FileStore) (p : Path) : Prop :=
  p ∈ s.paths ∨ ∀ q ∈ s.paths, q.same p = false

structure Alone (files : Path → Prop) (id : FileId) (st : FileStore × Disk) : Prop where
  sound : Sound (· ∈ st.1.paths) st
  holds : HoldsLock st
  reaches : st.2.Reaches st.1.baseDir
  proper : Proper st.1.baseDir st.2.home files
  within : ∀ p ∈ st.1.paths, files p
  lockFile : ∃ content,
    st.2.node? (locationOf st.2.home st.1.baseDir) = some (.file id content)
  /-- The store's own lock is the only one on that file. -/
  locks : st.2.locked.count id = if st.1.isLocked then 1 else 0

theorem Sound.widen {used' : Path → Prop} (h : Sound used st) (hused : ∀ p, used p → used' p)
    (haddr : Addressing used' st.1.baseDir st.2) : Sound used' st := by
  refine ⟨haddr, fun f hf => ?_, h.distinct, h.held, h.idle⟩
  have hsound := h.files f hf
  exact ⟨hused _ hsound.used, hsound.ordered, hsound.dirty, hsound.clean⟩

namespace Alone

theorem eq_of_location (h : Alone files id st) (hp : files p) (ht : Tracked st.1 p) (hq : q ∈ st.1.paths)
    (hlocation : p.location st.2.home = q.location st.2.home) : p = q := by
  rcases ht with hmem | hnew
  · exact h.sound.addressing.apart p q hmem hq hlocation
  · have hsame := (h.proper.below q (h.within q hq)).same (h.proper.below p hp) hlocation.symm
    rw [hnew q hq] at hsame
    cases hsame

theorem eq_of_same (h : Alone files id st) (hp : files p) (ht : Tracked st.1 p) (hq : q ∈ st.1.paths)
    (hsame : p.same q = true) : p = q :=
  h.eq_of_location hp ht hq (Path.location_of_same hsame _)

/-- The store goes with the disk also on a path that it does not use yet. -/
theorem along (h : Alone files id st) (hp : files p) (ht : Tracked st.1 p) :
    Sound (fun q => q ∈ st.1.paths ∨ q = p) st := by
  have hfiles : ∀ q, q ∈ st.1.paths ∨ q = p → files q := fun q hq =>
    hq.elim (h.within q) fun he => he ▸ hp
  refine h.sound.widen (fun q hq => Or.inl hq) ⟨h.sound.addressing.wellFormed, fun q hq => ?_,
    fun q r hq hr hlocation => ?_, fun q hq => h.proper.notLock q (hfiles q hq),
    fun q r hq hr => h.proper.notTemporary q r (hfiles q hq) (hfiles r hr)⟩
  · exact (h.reaches.settled (h.proper.below q (hfiles q hq))).shows h.sound.addressing.wellFormed
  · rcases hq with hq | rfl
    · rcases hr with hr | rfl
      · exact h.sound.addressing.apart q r hq hr hlocation
      · exact (h.eq_of_location hp ht hq hlocation.symm).symm
    · rcases hr with hr | rfl
      · exact h.eq_of_location hp ht hr hlocation
      · rfl

theorem free (h : Alone files id (s, d)) (hunlocked : s.isLocked = false) : Free s.baseDir d := by
  obtain ⟨content, hfile⟩ := h.lockFile
  refine ⟨fun {id' content'} hfile' => ?_, fun hnone => absurd hfile (hnone id content)⟩
  cases hfile.symm.trans hfile'
  have hcount : d.locked.count id = 0 := h.locks.trans (if_neg (by simp [hunlocked]))
  simpa [Disk.isLocked] using List.count_eq_zero.mp hcount

end Alone

/-! ### Calls that change no contents -/

/-- What the caches hold is as it was. -/
structure Undisturbed (files : Path → Prop) (id : FileId) (st st' : FileStore × Disk) : Prop where
  alone : Alone files id st'
  paths : st'.1.paths = st.1.paths
  content : ∀ p, files p → Tracked st.1 p → content st' p = content st p

/-- What a call leaves of the tree. -/
structure Grown (st st' : FileStore × Disk) : Prop where
  directory : ∀ {l}, st.2.node? l = some .directory → st'.2.node? l = some .directory
  lockFile : ∀ {id content}, st.2.node? (locationOf st.2.home st.1.baseDir) = some (.file id content) →
    st'.2.node? (locationOf st.2.home st.1.baseDir) = some (.file id content)

theorem Alone.undisturbed (h : Alone files id st) (hinvisible : ∀ used, Invisible used st st')
    (hpaths : st'.1.paths = st.1.paths) (hholds : HoldsLock st') (hgrown : Grown st st')
    (hlocks : st'.2.locked.count id = if st'.1.isLocked then 1 else 0) :
    Undisturbed files id st st' := by
  have hsame := hinvisible _ h.sound
  refine ⟨⟨hpaths.symm ▸ hsame.sound, hholds, ?_, ?_, ?_, ?_, hlocks⟩, hpaths, fun p hp ht => ?_⟩
  · rw [hsame.baseDir]
    exact h.reaches.mono hsame.home hgrown.directory
  · rw [hsame.baseDir, hsame.home]
    exact h.proper
  · rw [hpaths]
    exact h.within
  · obtain ⟨content, hfile⟩ := h.lockFile
    refine ⟨content, ?_⟩
    rw [hsame.baseDir, hsame.home]
    exact hgrown.lockFile hfile
  · exact (hinvisible _ (h.along hp ht)).content p (Or.inr rfl)

theorem Undisturbed.refl (h : Alone files id st) : Undisturbed files id st st :=
  ⟨h, rfl, fun _ _ _ => rfl⟩

theorem Undisturbed.trans (h : Undisturbed files id st st') (h' : Undisturbed files id st' st'') :
    Undisturbed files id st st'' := by
  refine ⟨h'.alone, h'.paths.trans h.paths, fun p hp ht => (h'.content p hp ?_).trans (h.content p hp ht)⟩
  unfold Tracked at ht ⊢
  rwa [h.paths]

theorem Alone.flush (h : Alone files id (s, d)) : UnlessFault (fun _ st' =>
    Undisturbed files id (s, d) st' ∧ st'.1.isLocked = s.isLocked) (flush (s, d)) := by
  have hinvisible := fun used => leads_flush used (s, d)
  have hkept := kept_flush h.sound
  have hholds := h.holds.flush h.sound
  have hlock := (lock_flush s d).1
  have hflushed := flushFiles_spec h.sound.addressing h.sound.files h.sound.distinct
  rw [flush_eq] at hinvisible hkept hholds hlock ⊢
  split
  · rename_i hok
    simp only [hok, endState_ok] at hinvisible hkept hholds hlock
    refine ⟨h.undisturbed hinvisible hflushed.paths hholds
      ⟨hflushed.ext.directory, hkept.file⟩ ?_, rfl⟩
    exact (congrArg (List.count id) hkept.locked).trans h.locks
  · exact trivial

theorem Alone.leave (h : Alone files id (s, d)) : UnlessFault (fun _ st' =>
    Undisturbed files id (s, d) st' ∧ st'.1.isLocked = s.isLocked) (leave (s, d)) := by
  rw [leave_eq]
  split
  · exact h.flush
  · exact ⟨.refl h, rfl⟩

theorem acquired_of_ensureLocked (hunlocked : s.isLocked = false)
    (h : ensureLocked (s, d) = .ok () st) : ∃ lock d',
      DirectoryLock.acquire s.baseDir s.lockTimeout d = .ok lock d' ∧
        st = ({ s with lock := some lock, lockHeld := true }, d') := by
  rw [ensureLocked_eq, if_neg (by simp [hunlocked])] at h
  cases hr : DirectoryLock.acquire s.baseDir s.lockTimeout d with
  | error e d' =>
    rw [hr] at h
    cases h
  | ok lock d' =>
    rw [hr] at h
    cases h
    exact ⟨lock, d', rfl, rfl⟩

theorem fault_of_ensureLocked {e : StoreError} (hd : d.WellFormed) (hfree : Free s.baseDir d)
    (h : ensureLocked (s, d) = .error e st) : e.IsFault := by
  rw [ensureLocked_eq] at h
  split at h
  · cases h
  · cases hr : DirectoryLock.acquire s.baseDir s.lockTimeout d with
    | ok lock d' =>
      rw [hr] at h
      cases h
    | error e' d' =>
      rw [hr] at h
      cases h
      obtain ⟨fault, rfl⟩ := DirectoryLock.fault_of_acquire hd hfree hr
      exact trivial

theorem Alone.ensureLocked (h : Alone files id (s, d)) : UnlessFault (fun _ st' =>
    Undisturbed files id (s, d) st' ∧ st'.1.isLocked = true) (ensureLocked (s, d)) := by
  have hinvisible := fun used => leads_ensureLocked used (s, d)
  have hholds := h.holds.ensureLocked h.sound
  have hwf := h.sound.addressing.wellFormed
  by_cases hlocked : s.isLocked = true
  · rw [ensureLocked_eq, if_pos hlocked]
    exact ⟨.refl h, hlocked⟩
  · have hunlocked : s.isLocked = false := by simpa using hlocked
    cases hr : FileStore.ensureLocked (s, d) with
    | error e st => exact fault_of_ensureLocked hwf (h.free hunlocked) hr
    | ok u st =>
      rw [hr, endState_ok] at hholds
      simp only [hr, endState_ok] at hinvisible
      obtain ⟨lock, d', hacquire, rfl⟩ := acquired_of_ensureLocked hunlocked hr
      have hspec := DirectoryLock.acquire_spec hwf s.baseDir s.lockTimeout
      rw [hacquire] at hspec
      obtain ⟨d₁, htried, -, rfl, content, hfile⟩ := hspec
      have hid : lock.file = id := by
        obtain ⟨content', hfile'⟩ := h.lockFile
        cases hfile.symm.trans (htried.old hfile')
        rfl
      refine ⟨h.undisturbed hinvisible rfl hholds ⟨htried.ext.directory, htried.old⟩ ?_, rfl⟩
      show List.count id (lock.file :: d₁.locked) = 1
      rw [hid, htried.ext.locked, List.count_cons_self, h.locks, if_neg hlocked]

theorem Alone.file_of_lock {lock : DirectoryLock} (h : Alone files id st)
    (hlock : st.1.lock = some lock) : lock.file = id := by
  obtain ⟨content, hfile⟩ := h.lockFile
  obtain ⟨content', hfile', -⟩ := h.holds lock hlock
  cases hfile.symm.trans hfile'
  rfl

theorem Alone.count_freeLock (h : Alone files id (s, d)) : (s.freeLock d).2.locked.count id = 0 := by
  have hlocks := h.locks
  unfold freeLock isLocked at *
  cases hlock : s.lock with
  | none =>
    rw [hlock] at hlocks
    exact hlocks
  | some lock =>
    rw [hlock] at hlocks
    show (d.locked.erase lock.file).count id = 0
    rw [h.file_of_lock hlock, List.count_erase_self, hlocks]
    rfl

theorem Alone.release (h : Alone files id (s, d)) : UnlessFault (fun _ st' =>
    Undisturbed files id (s, d) st' ∧ st'.1.isLocked = false) (release (s, d)) := by
  have hflush := h.flush
  rw [release_eq]
  cases hr : FileStore.flush (s, d) with
  | error e st =>
    rw [hr] at hflush
    exact hflush
  | ok u st =>
    obtain ⟨s₁, d₁⟩ := st
    rw [hr] at hflush
    have hclean := clean_of_flush h.sound hr
    obtain ⟨hnodes, hhome⟩ := freeLock_nodes s₁ d₁
    refine ⟨hflush.1.trans (hflush.1.alone.undisturbed
      (fun used hsound => same_unloaded hsound hclean hnodes hhome) ?_ (.of_unlocked rfl)
      ⟨fun hl => ?_, fun hl => ?_⟩ hflush.1.alone.count_freeLock), rfl⟩
    · rw [paths, unloaded, List.map_map]
      rfl
    · rwa [Disk.node?_congr hnodes]
    · rwa [Disk.node?_congr hnodes]

theorem Alone.close (h : Alone files id (s, d)) :
    UnlessFault (fun _ st' => st'.1.lockHeld = false) (close (s, d)) := by
  cases hr : FileStore.close (s, d) with
  | error e st =>
    obtain ⟨fault, rfl⟩ := fault_of_close hr
    exact trivial
  | ok u st =>
    obtain ⟨s', d'⟩ := st
    exact (close_spec h.sound hr).2.2.2.1

/-! ### Caches -/

theorem Alone.inMemory (h : Alone files id st) (hmemory : InMemory st st')
    (hsound : Sound (· ∈ st'.1.paths) st') (hwithin : ∀ p ∈ st'.1.paths, files p) :
    Alone files id st' := by
  refine ⟨hsound, h.holds.inMemory hmemory, ?_, ?_, hwithin, ?_, ?_⟩
  · rw [hmemory.disk, hmemory.baseDir]
    exact h.reaches
  · rw [hmemory.disk, hmemory.baseDir]
    exact h.proper
  · rw [hmemory.disk, hmemory.baseDir]
    exact h.lockFile
  · rw [hmemory.disk, isLocked, hmemory.lock]
    exact h.locks

/-- A file that is asked for is one that the store knows, or a new one. -/
theorem Alone.openCache (h : Alone files id (s, d)) (hp : files p) :
    match s.paths.findIdx? (·.same p) with
    | some c => openCache p (s, d) = .ok c (s, d)
    | none => ∃ s', openCache p (s, d) = .ok s.paths.length (s', d) ∧ Alone files id (s', d) ∧
        s'.paths = s.paths ++ [p] ∧ s'.isLocked = s.isLocked ∧
        ∀ q, content (s', d) q = content (s, d) q := by
  have hopen := openCache_eq s d p
  have hidx : s.paths.findIdx? (·.same p) = s.caches.findIdx? (·.path.same p) := List.findIdx?_map ..
  rw [hidx]
  cases hi : s.caches.findIdx? (·.path.same p) with
  | some c =>
    rw [hi] at hopen
    exact hopen
  | none =>
    rw [hi] at hopen hidx
    have hnew : Tracked s p := Or.inr fun q hq => by
      simpa using List.findIdx?_eq_none_iff.mp hidx q hq
    obtain ⟨c, s', hopen', hsame, -⟩ := openCache_spec (h.along hp hnew) (Or.inr rfl)
    have hmemory := inMemory_openCache p (s, d)
    rw [hopen', endState_ok] at hmemory
    cases hopen.symm.trans hopen'
    have hpaths : paths { s with caches := s.caches ++ [CacheFile.new p] } = s.paths ++ [p] :=
      List.map_append
    refine ⟨_, hopen.trans (by rw [paths, List.length_map]), h.inMemory hmemory ?_ ?_, hpaths, rfl,
      fun q => ?_⟩
    · have hused : (fun q => q ∈ s.paths ∨ q = p) = (· ∈ s.paths ++ [p]) := by
        funext q
        rw [List.mem_append, List.mem_singleton]
      rw [hpaths]
      exact hused ▸ hsame.sound
    · rw [hpaths]
      intro q hq
      rcases List.mem_append.mp hq with hq | hq
      · exact h.within q hq
      · exact List.mem_singleton.mp hq ▸ hp
    · unfold content
      rw [entriesOf_append_new]

theorem paths_access {α : Type} {f : CacheFile → Entries → α × CacheFile}
    (hf : ∀ file entries, (f file entries).2.path = file.path) (c : CacheId) :
    Leads (fun st st' => st'.1.paths = st.1.paths) (access c f) := by
  rintro ⟨s, d⟩
  rw [access_eq]
  split
  · split
    · rfl
    · rename_i file hc
      split
      · rfl
      · rename_i file' entries hl
        have hpath : file'.path = file.path := by
          unfold CacheFile.loaded at hl
          split at hl
          · cases hl
            rfl
          · cases hload : CacheFile.load file.path d with
            | error e =>
              rw [hload] at hl
              cases hl
            | ok entries =>
              rw [hload] at hl
              cases hl
              rfl
        show (s.caches.set c (f file' entries).2).map (·.path) = s.caches.map (·.path)
        refine List.ext_getElem? fun i => ?_
        rw [List.getElem?_map, List.getElem?_map, List.getElem?_set]
        split
        · rename_i he
          rw [← he, hc, if_pos (List.getElem?_eq_some_iff.mp hc).1, Option.map_some, Option.map_some,
            hf, hpath]
        · rfl
  · rfl

/-- Only the operating system can keep a cache from its store's entries. -/
theorem fault_of_access {α : Type} {f : CacheFile → Entries → α × CacheFile} {e : StoreError}
    {entries : Entries} (h : Sound used (s, d)) (hheld : s.lockHeld = true)
    (hc : s.paths[c]? = some p) (hcontent : content (s, d) p = .ok entries)
    (he : access c f (s, d) = .error e st) : e.IsFault := by
  rw [paths, List.getElem?_map] at hc
  obtain ⟨file, hfile, rfl⟩ := Option.map_eq_some_iff.mp hc
  rw [access_eq, if_pos hheld, hfile] at he
  cases hl : file.loaded d with
  | ok r =>
    simp only [hl] at he
    cases he
  | error e' =>
    simp only [hl] at he
    cases he
    unfold CacheFile.loaded at hl
    unfold content at hcontent
    rw [entriesOf_of_mem h.distinct (List.mem_of_getElem? hfile)] at hcontent
    cases hentries : file.entries with
    | some entries =>
      rw [hentries] at hl
      cases hl
    | none =>
      rw [hentries] at hl hcontent
      cases hload : CacheFile.load file.path d with
      | ok entries =>
        rw [hload] at hl
        cases hl
      | error e' =>
        rw [hload] at hl
        cases hl
        exact CacheFile.fault_of_load hcontent hload

/-- A call on a cache that the store has changes nothing but contents. -/
theorem Alone.stays (h : Alone files id (s, d)) (hmemory : InMemory (s, d) st')
    (hpaths : st'.1.paths = s.paths) (hsound : Sound (· ∈ s.paths) st') :
    Alone files id st' ∧ st'.1.isLocked = s.isLocked := by
  refine ⟨h.inMemory hmemory (hpaths.symm ▸ hsound) (hpaths.symm ▸ h.within), ?_⟩
  rw [isLocked, hmemory.lock]
  rfl

theorem Alone.lookup {entries : Entries} (h : Alone files id (s, d)) (hlocked : s.isLocked = true)
    (hc : s.paths[c]? = some p) (hcontent : content (s, d) p = .ok entries) (key : String) :
    UnlessFault (fun v st' => v = entries.get? key ∧ Undisturbed files id (s, d) st' ∧
      st'.1.isLocked = true) (lookup c key (s, d)) := by
  have hmemory : Leads InMemory (FileStore.lookup c key) := inMemory_access c _
  have hpaths : (endState (FileStore.lookup c key (s, d))).1.paths = s.paths :=
    paths_access (fun _ _ => rfl) c (s, d)
  have hspec := fun used (hs : Sound used (s, d)) => lookup_spec hs c key
  cases hr : FileStore.lookup c key (s, d) with
  | error e st => exact fault_of_access h.sound (h.sound.held.trans hlocked) hc hcontent hr
  | ok v st =>
    have hinMemory := hmemory (s, d)
    rw [hr, endState_ok] at hinMemory hpaths
    simp only [hr, reduceCtorEq, exists_false, false_or] at hspec
    have hsame : ∀ used, Invisible used (s, d) st := by
      intro used hs
      obtain ⟨p', entries', s', -, -, he, hsame⟩ := hspec used hs
      cases he
      exact hsame
    obtain ⟨halone, hstill⟩ := h.stays hinMemory hpaths (hsame _ h.sound).sound
    obtain ⟨p', entries', s', hc', hcontent', he, -⟩ := hspec _ h.sound
    refine ⟨?_, ⟨halone, hpaths, fun q hq ht => ?_⟩, hstill.trans hlocked⟩
    · have hp : p' = p := by
        rw [paths, List.getElem?_map] at hc
        exact Option.some.inj (hc'.symm.trans hc)
      cases he
      rw [hp] at hcontent'
      cases hcontent.symm.trans hcontent'
      rfl
    · exact (hsame _ (h.along hq ht)).content q (Or.inr rfl)

theorem call_eq_access (c : CacheId) (key : String) (change : Change) :
    ∃ f : CacheFile → Entries → Unit × CacheFile,
      (∀ file entries, (f file entries).2.path = file.path) ∧ change.call c key = access c f := by
  cases change with
  | put value =>
    refine ⟨_, fun _ _ => ?_, (rfl : put c key value = access c _)⟩
    rfl
  | remove =>
    refine ⟨_, fun file entries => ?_, (rfl : remove c key = access c _)⟩
    show (if entries.contains key then _ else file : CacheFile).path = file.path
    split <;> rfl

theorem Alone.edit {entries : Entries} (h : Alone files id (s, d)) (hlocked : s.isLocked = true)
    (hc : s.paths[c]? = some p) (hcontent : content (s, d) p = .ok entries) (key : String)
    (change : Change) :
    UnlessFault (fun _ st' => Alone files id st' ∧ st'.1.paths = s.paths ∧ st'.1.isLocked = true ∧
      ∀ q, files q → Tracked s q → content st' q =
        if q = p then .ok (change.applyTo key entries) else content (s, d) q)
      (change.call c key (s, d)) := by
  have hmemory := inMemory_call c key change (s, d)
  obtain ⟨f, hf, hcall⟩ := call_eq_access c key change
  have hpaths : (endState (change.call c key (s, d))).1.paths = s.paths := by
    rw [hcall]
    exact paths_access hf c (s, d)
  have hspec := fun used (hs : Sound used (s, d)) => call_spec hs c key change
  cases hr : (change.call c key : Call Unit) (s, d) with
  | error e st =>
    rw [hcall] at hr
    exact fault_of_access h.sound (h.sound.held.trans hlocked) hc hcontent hr
  | ok u st =>
    rw [hr, endState_ok] at hmemory hpaths
    simp only [hr, reduceCtorEq, exists_false, false_or] at hspec
    have hchanged : ∀ used, Sound used (s, d) →
        Changed used p (change.applyTo key) (s, d) st := by
      intro used hs
      obtain ⟨p', s', hc', he, hchanged⟩ := hspec used hs
      rw [paths, List.getElem?_map] at hc
      cases Option.some.inj (hc'.symm.trans hc)
      cases he
      exact hchanged
    obtain ⟨halone, hstill⟩ := h.stays hmemory hpaths (hchanged _ h.sound).sound
    refine ⟨halone, hpaths, hstill.trans hlocked, fun q hq ht => ?_⟩
    rw [(hchanged _ (h.along hq ht)).content q (Or.inr rfl), hcontent]
    rfl

/-! ### Opening -/

/-- Nothing lies below the directory, and locks are only on files that were made. -/
structure Unused (dir : Path) (d : Disk) : Prop where
  wellFormed : d.WellFormed
  empty : d.listing (dir.location d.home) = []
  locks : ∀ id ∈ d.locked, id < d.nextId

theorem Unused.node?_eq_none {l : Location} (h : Unused dir d) (hbelow : dir.location d.home <+: l)
    (hne : l ≠ dir.location d.home) : d.node? l = none := by
  have hpositive : l ≠ [] := by
    rintro rfl
    exact hne (List.prefix_nil.mp hbelow).symm
  rw [Disk.node?_eq_get? d hpositive]
  cases hn : d.nodes.get? l with
  | none => rfl
  | some n =>
    have hlonger : (dir.location d.home).length < l.length :=
      Nat.lt_of_le_of_ne hbelow.length_le fun he => hne (hbelow.eq_of_length he).symm
    have hlisted := List.filterMap_eq_nil_iff.mp h.empty (l, n) (Table.mem_of_get? hn)
    simp [hbelow, hlonger] at hlisted

theorem Unused.free (h : Unused dir d) : Free dir d := by
  have hlock : locationOf d.home dir = dir.location d.home ++ [DirectoryLock.fileName] :=
    Path.location_join dir (by decide) d.home
  refine ⟨fun hfile => ?_, fun _ => ?_⟩
  · rw [h.node?_eq_none (hlock ▸ List.prefix_append ..) (by simp [hlock])] at hfile
    cases hfile
  · by_contra hheld
    have hmem : d.nextId ∈ d.locked := by simpa [Disk.isLocked] using hheld
    exact Nat.lt_irrefl _ (h.locks _ hmem)

theorem kept_eq_nil (h : ∀ id content, d.node? (p.location d.home) ≠ some (.file id content)) :
    kept p d = .ok [] := by
  unfold kept
  split
  · rename_i id content hs
    exact absurd (Disk.stat_eq_file_iff.mp hs).2.2.2 (h id content)
  · rfl

/-- A store that is opened on such a directory has it to itself, and its caches are empty. -/
theorem Unused.alone (h : Unused dir d) (hproper : Proper dir d.home files) (timeout : Duration) :
    UnlessFault (fun s d' => (∃ id, Alone files id (s, d')) ∧ s.paths = [] ∧ s.isLocked = true ∧
      ∀ p, files p → content (s, d') p = .ok []) (openStore dir timeout d) := by
  have hdirs := Disk.leads_createDirs dir d h.wellFormed
  have hfree := h.free.createDirs h.wellFormed dir
  rw [openStore_eq]
  cases hr : Disk.createDirs dir d with
  | error fault d₁ => exact trivial
  | ok u d₁ =>
    rw [hr, endState_ok] at hdirs hfree
    obtain ⟨hwf₁, hext₁⟩ := hdirs
    have haddr : Addressing (· ∈ ([] : List Path)) dir d₁ := ⟨hwf₁, nofun, nofun, nofun, nofun⟩
    have hsame := leads_ensureLocked _ _ (sound_fresh haddr timeout)
    have hholds := HoldsLock.ensureLocked (sound_fresh haddr timeout) (.of_unlocked rfl)
    simp only
    cases hl : ensureLocked (fresh dir timeout, d₁) with
    | error e st => exact fault_of_ensureLocked hwf₁ hfree hl
    | ok u st =>
      rw [hl, endState_ok] at hsame hholds
      obtain ⟨lock, d', hacquire, rfl⟩ := acquired_of_ensureLocked rfl hl
      change DirectoryLock.acquire dir timeout d₁ = _ at hacquire
      have hreaches := DirectoryLock.reaches_of_acquire hwf₁ hacquire
      have hspec := DirectoryLock.acquire_spec hwf₁ dir timeout
      rw [hacquire] at hspec
      obtain ⟨d₂, htried, hunlocked, rfl, content, hfile⟩ := hspec
      have hhome : d₂.home = d.home := htried.ext.home.trans hext₁.home
      have hnone : ∀ p, files p → ∀ id content,
          d₂.node? (p.location d₂.home) ≠ some (.file id content) := by
        intro p hp id content hn
        obtain ⟨names, -, hbelow⟩ := (hproper.below p hp).location d.home
        by_cases hdir : p.location d.home = dir.location d.home
        · have hthere : d₂.node? (dir.location d₂.home) = some .directory :=
            hreaches dir.segments List.prefix_rfl
          rw [hhome, hdir, ← hhome, hthere] at hn
          cases hn
        · rw [hhome, htried.ext.file (hext₁.home ▸ hproper.notLock p hp), hext₁.file not_false,
            h.node?_eq_none (hbelow ▸ List.prefix_append ..) hdir] at hn
          cases hn
      refine ⟨⟨lock.file, hsame.sound, hholds, hreaches, ?_, nofun, ⟨content, ?_⟩, ?_⟩, rfl, rfl,
        fun p hp => kept_eq_nil (hnone p hp)⟩
      · exact hhome ▸ hproper
      · show d₂.node? (locationOf d₂.home dir) = _
        rw [htried.ext.home]
        exact hfile
      · show List.count lock.file (lock.file :: d₂.locked) = 1
        rw [List.count_cons_self, List.count_eq_zero.mpr (by simpa [Disk.isLocked] using hunlocked)]

end FileStore

end HistoryKeeper
