import HistoryKeeper.Proofs.Store.CacheFiles
import HistoryKeeper.Store.File

/-!
# Stores on disk keep what is put into them

`FileStore.content` is what a store has for a path: the loaded entries, or else what the disk has.
No call but `put` and `remove` changes it, whether it succeeds or fails; all of them keep the store
`Sound`, that is, going with the disk (`leads_enter`, `leads_release` and so on).
-/

namespace HistoryKeeper

namespace FileStore

open Disk (Extends)
open CacheFile (Addressing kept)

variable {changed : Location → Prop} {used : Path → Prop} {dir p q : Path} {d d' : Disk}
  {files files' : List CacheFile} {f : CacheFile} {s s' : FileStore}

/-- The entries that are loaded for a path. -/
def entriesOf (files : List CacheFile) (p : Path) : Option Entries :=
  (files.find? (·.path = p)).bind (·.entries)

theorem entriesOf_cons (f : CacheFile) (files : List CacheFile) (p : Path) :
    entriesOf (f :: files) p = if f.path = p then f.entries else entriesOf files p := by
  unfold entriesOf
  by_cases h : f.path = p
  · rw [List.find?_cons_of_pos (by simpa using h), if_pos h]
    rfl
  · rw [List.find?_cons_of_neg (by simpa using h), if_neg h]

theorem entriesOf_congr (hpaths : files'.map (·.path) = files.map (·.path))
    (hentries : files'.map (·.entries) = files.map (·.entries)) (p : Path) :
    entriesOf files' p = entriesOf files p := by
  induction files generalizing files' with
  | nil =>
    rw [List.map_nil, List.map_eq_nil_iff] at hpaths
    rw [hpaths]
  | cons f files ih =>
    cases files' with
    | nil => cases hpaths
    | cons f' files' =>
      rw [List.map_cons, List.map_cons, List.cons.injEq] at hpaths hentries
      rw [entriesOf_cons, entriesOf_cons, hpaths.1, hentries.1, ih hpaths.2 hentries.2]

theorem entriesOf_of_mem (hdistinct : (files.map (·.path)).Nodup) (hf : f ∈ files) :
    entriesOf files f.path = f.entries := by
  induction files with
  | nil => cases hf
  | cons g files ih =>
    rw [List.map_cons, List.nodup_cons] at hdistinct
    rw [entriesOf_cons]
    rcases List.mem_cons.mp hf with rfl | hf
    · rw [if_pos rfl]
    · rw [if_neg, ih hdistinct.2 hf]
      intro he
      exact hdistinct.1 (he ▸ List.mem_map_of_mem hf)

theorem entriesOf_of_not_mem (h : p ∉ files.map (·.path)) : entriesOf files p = none := by
  unfold entriesOf
  rw [List.find?_eq_none.mpr]
  · rfl
  · intro f hf he
    exact h (List.mem_map.mpr ⟨f, hf, by simpa using he⟩)

theorem entriesOf_append_new (files : List CacheFile) (p q : Path) :
    entriesOf (files ++ [CacheFile.new p]) q = entriesOf files q := by
  induction files with
  | nil =>
    rw [List.nil_append, entriesOf_cons]
    split <;> rfl
  | cons f files ih => rw [List.cons_append, entriesOf_cons, entriesOf_cons, ih]

theorem entriesOf_set {c : CacheId} {f' : CacheFile} (hdistinct : (files.map (·.path)).Nodup)
    (hf : files[c]? = some f) (hpath : f'.path = f.path) (p : Path) :
    entriesOf (files.set c f') p = if p = f.path then f'.entries else entriesOf files p := by
  induction files generalizing c with
  | nil => cases hf
  | cons g files ih =>
    rw [List.map_cons, List.nodup_cons] at hdistinct
    cases c with
    | zero =>
      cases hf
      rw [List.set_cons_zero, entriesOf_cons, entriesOf_cons, hpath]
      by_cases h : f.path = p
      · rw [if_pos h, if_pos h.symm]
      · rw [if_neg h, if_neg (Ne.symm h), if_neg h]
    | succ c =>
      rw [List.getElem?_cons_succ] at hf
      have hne : g.path ≠ f.path := by
        intro he
        exact hdistinct.1 (he ▸ List.mem_map_of_mem (List.mem_of_getElem? hf))
      rw [List.set_cons_succ, entriesOf_cons, entriesOf_cons, ih hdistinct.2 hf]
      by_cases h : g.path = p
      · rw [if_pos h, if_neg (fun he => hne (h.trans he)), if_pos h]
      · rw [if_neg h, if_neg h]

/-- What a store has for a path. -/
def content (st : FileStore × Disk) (p : Path) : CacheContent :=
  ((entriesOf st.1.caches p).map .ok).getD (kept p st.2)

/-- The store goes with the disk. -/
structure Sound (used : Path → Prop) (st : FileStore × Disk) : Prop where
  addressing : Addressing used st.1.baseDir st.2
  files : ∀ f ∈ st.1.caches, f.Sound used st.2
  distinct : (st.1.caches.map (·.path)).Nodup
  held : st.1.lockHeld = st.1.isLocked
  /-- Without the lock nothing is loaded and nothing has to be written back. -/
  idle : st.1.isLocked = false → ∀ f ∈ st.1.caches, f.entries = none ∧ f.dirty = false

/-- The number of a cache stands for a path. -/
def HasCache (s : FileStore) (c : CacheId) (p : Path) : Prop :=
  s.caches[c]?.map (·.path) = some p

/-- Nothing can be seen to have changed. -/
structure Same (used : Path → Prop) (st st' : FileStore × Disk) : Prop where
  sound : Sound used st'
  content : ∀ p, used p → content st' p = content st p
  baseDir : st'.1.baseDir = st.1.baseDir
  home : st'.2.home = st.2.home
  caches : ∀ {c p}, HasCache st.1 c p → HasCache st'.1 c p

theorem Same.refl {st : FileStore × Disk} (h : Sound used st) : Same used st st :=
  ⟨h, fun _ _ => rfl, rfl, rfl, id⟩

theorem Same.trans {st st' st'' : FileStore × Disk} (h : Same used st st')
    (h' : Same used st' st'') : Same used st st'' :=
  ⟨h'.sound, fun p hp => (h'.content p hp).trans (h.content p hp), h'.baseDir.trans h.baseDir,
    h'.home.trans h.home, fun hc => h'.caches (h.caches hc)⟩

theorem hasCache_congr (h : s'.caches.map (·.path) = s.caches.map (·.path)) {c : CacheId}
    (hc : HasCache s c p) : HasCache s' c p := by
  unfold HasCache at hc ⊢
  rw [← List.getElem?_map] at hc ⊢
  rw [h, hc]

/-- A sound store in which everything is clean has what the disk has. -/
theorem content_of_clean (h : Sound used (s, d)) (hclean : ∀ f ∈ s.caches, f.dirty = false)
    (p : Path) : content (s, d) p = kept p d := by
  unfold content
  by_cases hp : p ∈ s.caches.map (·.path)
  · obtain ⟨f, hf, rfl⟩ := List.mem_map.mp hp
    rw [entriesOf_of_mem h.distinct hf]
    cases he : f.entries with
    | none => rfl
    | some entries => exact ((h.files f hf).clean (hclean f hf) he).symm
  · rw [entriesOf_of_not_mem hp]
    rfl

/-! ### Writing back -/

/-- The locations that are touched when files are written back. -/
def touched (d : Disk) (files : List CacheFile) (l : Location) : Prop :=
  ∃ f ∈ files, f.dirty = true ∧ CacheFile.touched d f.path l

theorem not_touched (h : Addressing used dir d) (hfiles : ∀ f ∈ files, f.Sound used d)
    (hp : used p) (hnot : ∀ f ∈ files, f.dirty = true → f.path ≠ p) :
    ¬ touched d files (p.location d.home) := by
  rintro ⟨f, hf, hdirty, ht⟩
  exact h.untouched hp (hfiles f hf).used (Ne.symm (hnot f hf hdirty)) ht

/-- The outcome of writing files back in turn. -/
structure Flushed (used : Path → Prop) (dir : Path) (files : List CacheFile) (d : Disk)
    (result : Except IoFault Unit × List CacheFile × Disk) : Prop where
  addressing : Addressing used dir result.2.2
  ext : Extends (touched d files) d result.2.2
  sound : ∀ f ∈ result.2.1, f.Sound used result.2.2
  paths : result.2.1.map (·.path) = files.map (·.path)
  entries : result.2.1.map (·.entries) = files.map (·.entries)
  clean : result.1 = .ok () → ∀ f ∈ result.2.1, f.dirty = false

theorem flushFiles_spec (h : Addressing used dir d) (hfiles : ∀ f ∈ files, f.Sound used d)
    (hdistinct : (files.map (·.path)).Nodup) : Flushed used dir files d (flushFiles files d) := by
  induction files generalizing d with
  | nil => exact ⟨h, Extends.refl _ d, hfiles, rfl, rfl, fun _ f hf => by cases hf⟩
  | cons f files ih =>
    rw [List.map_cons, List.nodup_cons] at hdistinct
    have hf := hfiles f (List.mem_cons_self ..)
    have hothers : ∀ g ∈ files, g.path ≠ f.path := fun g hg he =>
      hdistinct.1 (he ▸ List.mem_map_of_mem hg)
    have hspec := CacheFile.flush_spec h hf
    unfold flushFiles
    cases hr : f.flush d with
    | error fault d₁ =>
      rw [hr] at hspec
      obtain ⟨haddr₁, hext₁, hf₁⟩ := hspec
      refine ⟨haddr₁, hext₁.mono fun l hl => ?_, fun g hg => ?_, rfl, rfl, nofun⟩
      · exact ⟨f, List.mem_cons_self .., hl.1, Or.inr hl.2⟩
      · rcases List.mem_cons.mp hg with rfl | hg
        · exact hf₁
        · have hg' := hfiles g (List.mem_cons_of_mem _ hg)
          exact hg'.frame h hext₁ fun hl => h.untouchedBeside hg'.used hf.used hl.2
    | ok f₁ d₁ =>
      rw [hr] at hspec
      obtain ⟨rfl, haddr₁, hext₁, hf₁⟩ := hspec
      have hfiles₁ : ∀ g ∈ files, g.Sound used d₁ := by
        intro g hg
        have hg' := hfiles g (List.mem_cons_of_mem _ hg)
        exact hg'.frame h hext₁ fun hl => h.untouched hg'.used hf.used (hothers g hg) hl.2
      have htail := ih haddr₁ hfiles₁ hdistinct.2
      obtain ⟨result, files₂, d₂, hrun⟩ : ∃ result files₂ d₂,
          flushFiles files d₁ = (result, files₂, d₂) := ⟨_, _, _, rfl⟩
      rw [hrun] at htail
      simp only [hrun]
      have hf₂ : CacheFile.Sound used d₂ { f with dirty := false } := by
        refine hf₁.frame haddr₁ htail.ext ?_
        exact not_touched haddr₁ hfiles₁ hf₁.used fun g hg _ => hothers g hg
      refine ⟨htail.addressing, ?_, fun g hg => ?_, ?_, ?_, fun hok g hg => ?_⟩
      · refine (hext₁.mono fun l hl => ?_).trans (htail.ext.mono fun l hl => ?_)
        · exact ⟨f, List.mem_cons_self .., hl⟩
        · obtain ⟨g, hg, hdirty, ht⟩ := hl
          refine ⟨g, List.mem_cons_of_mem _ hg, hdirty, ?_⟩
          unfold CacheFile.touched at ht ⊢
          rwa [hext₁.home, hext₁.processId] at ht
      · rcases List.mem_cons.mp hg with rfl | hg
        · exact hf₂
        · exact htail.sound g hg
      · rw [List.map_cons, List.map_cons, htail.paths]
      · rw [List.map_cons, List.map_cons, htail.entries]
      · rcases List.mem_cons.mp hg with rfl | hg
        · rfl
        · exact htail.clean hok g hg

theorem flushFiles_of_clean (h : ∀ f ∈ files, f.dirty = false) (d : Disk) :
    flushFiles files d = (.ok (), files, d) := by
  induction files with
  | nil => rfl
  | cons f files ih =>
    unfold flushFiles
    rw [CacheFile.flush_of_clean (h f (List.mem_cons_self ..))]
    simp only [ih fun g hg => h g (List.mem_cons_of_mem _ hg)]

/-- A state with other files in memory and another disk, which has the same content. -/
theorem content_flushed (h : Sound used (s, d))
    {result : Except IoFault Unit × List CacheFile × Disk}
    (hflushed : Flushed used s.baseDir s.caches d result) (hp : used p) :
    content ({ s with caches := result.2.1 }, result.2.2) p = content (s, d) p := by
  unfold content
  rw [entriesOf_congr hflushed.paths hflushed.entries]
  cases he : entriesOf s.caches p with
  | some entries => rfl
  | none =>
    refine h.addressing.kept_eq hflushed.ext hp (not_touched h.addressing h.files hp ?_)
    -- a dirty file is loaded
    rintro f hf hdirty rfl
    have hloaded := (h.files f hf).dirty hdirty
    rw [← entriesOf_of_mem h.distinct hf, he] at hloaded
    cases hloaded

theorem same_flushFiles (h : Sound used (s, d)) :
    Same used (s, d)
      ({ s with caches := (flushFiles s.caches d).2.1 }, (flushFiles s.caches d).2.2) := by
  have hflushed := flushFiles_spec h.addressing h.files h.distinct
  refine ⟨⟨hflushed.addressing, hflushed.sound, ?_, h.held, fun hunlocked f hf => ?_⟩,
    fun p hp => content_flushed h hflushed hp, rfl, hflushed.ext.home, hasCache_congr hflushed.paths⟩
  · rw [hflushed.paths]
    exact h.distinct
  · rw [flushFiles_of_clean fun f hf => (h.idle hunlocked f hf).2] at hf
    exact h.idle hunlocked f hf

/-- Nothing can be seen to have changed about a sound store. -/
def Invisible (used : Path → Prop) (st st' : FileStore × Disk) : Prop :=
  Sound used st → Same used st st'

theorem Invisible.refl (st : FileStore × Disk) : Invisible used st st :=
  Same.refl

theorem Invisible.trans {st st' st'' : FileStore × Disk} (h : Invisible used st st')
    (h' : Invisible used st' st'') : Invisible used st st'' :=
  fun hst => (h hst).trans (h' (h hst).sound)

theorem flush_eq (s : FileStore) (d : Disk) : flush (s, d) =
    match (flushFiles s.caches d).1 with
    | .ok _ => .ok () ({ s with caches := (flushFiles s.caches d).2.1 },
        (flushFiles s.caches d).2.2)
    | .error fault => .error (.io fault) ({ s with caches := (flushFiles s.caches d).2.1 },
        (flushFiles s.caches d).2.2) :=
  rfl

theorem leads_flush (used : Path → Prop) : Leads (Invisible used) flush := by
  rintro ⟨s, d⟩ h
  rw [flush_eq]
  split <;> exact same_flushFiles h

theorem clean_of_flush (h : Sound used (s, d)) (hflush : flush (s, d) = .ok () (s', d')) :
    ∀ f ∈ s'.caches, f.dirty = false := by
  rw [flush_eq] at hflush
  have hflushed := flushFiles_spec h.addressing h.files h.distinct
  split at hflush
  · rename_i hok
    cases hflush
    exact hflushed.clean hok
  · cases hflush

theorem leave_eq (s : FileStore) (d : Disk) :
    leave (s, d) = if s.isLocked then flush (s, d) else .ok () (s, d) := by
  show (if s.isLocked then flush else pure ()) (s, d) = _
  split <;> rfl

theorem leads_leave (used : Path → Prop) : Leads (Invisible used) leave := by
  rintro ⟨s, d⟩
  rw [leave_eq]
  split
  · exact leads_flush used (s, d)
  · exact Invisible.refl _

/-- A store that is told to write back is clean afterwards, if it can write. -/
theorem leave_ok (h : Sound used (s, d)) (hflush : ∃ st, flush (s, d) = .ok () st) :
    ∃ s' d', leave (s, d) = .ok () (s', d') ∧ ∀ f ∈ s'.caches, f.dirty = false := by
  obtain ⟨⟨s', d'⟩, hflush⟩ := hflush
  rw [leave_eq]
  split
  · exact ⟨s', d', hflush, clean_of_flush h hflush⟩
  · rename_i hunlocked
    exact ⟨s, d, rfl, fun f hf => (h.idle (by simpa using hunlocked) f hf).2⟩

/-- The lock of the directory is taken, or tried for, and nothing else happens. -/
theorem same_tried (h : Sound used (s, d)) (ht : DirectoryLock.Tried s.baseDir d d') :
    Same used (s, d) (s, d') := by
  have hfree : ∀ p, used p → ¬ p.location d.home = DirectoryLock.locationOf d.home s.baseDir :=
    h.addressing.notLock
  refine ⟨⟨h.addressing.mono ht.wellFormed ht.ext hfree, fun f hf => ?_, h.distinct, h.held, h.idle⟩,
    fun p hp => ?_, rfl, ht.ext.home, id⟩
  · exact (h.files f hf).frame h.addressing ht.ext (hfree f.path (h.files f hf).used)
  · unfold content
    rw [h.addressing.kept_eq ht.ext hp (hfree p hp)]

theorem same_locks (h : Sound used (s, d)) (d' : Disk) (hnodes : d'.nodes = d.nodes)
    (hhome : d'.home = d.home) : Same used (s, d) (s, d') := by
  refine ⟨⟨h.addressing.congr hnodes hhome, fun f hf => ?_, h.distinct, h.held, h.idle⟩,
    fun p _ => ?_, rfl, hhome, id⟩
  · have hsound := h.files f hf
    refine ⟨hsound.used, hsound.ordered, hsound.dirty, fun hclean {e} he => ?_⟩
    rw [CacheFile.kept_of_nodes hnodes hhome]
    exact hsound.clean hclean he
  · unfold content
    rw [CacheFile.kept_of_nodes hnodes hhome]

theorem ensureLocked_eq (s : FileStore) (d : Disk) : ensureLocked (s, d) =
    if s.isLocked then .ok () (s, d)
    else match DirectoryLock.acquire s.baseDir s.lockTimeout d with
    | .ok lock d => .ok () ({ s with lock := some lock, lockHeld := true }, d)
    | .error e d => .error (.lock e) (s, d) :=
  rfl

theorem leads_ensureLocked (used : Path → Prop) : Leads (Invisible used) ensureLocked := by
  rintro ⟨s, d⟩ h
  rw [ensureLocked_eq]
  split
  · exact Same.refl h
  · have hspec := DirectoryLock.acquire_spec h.addressing.wellFormed s.baseDir s.lockTimeout
    cases hr : DirectoryLock.acquire s.baseDir s.lockTimeout d with
    | error e d' =>
      rw [hr] at hspec
      exact same_tried h hspec.1
    | ok lock d' =>
      rw [hr] at hspec
      obtain ⟨d₁, htried, -, rfl, -⟩ := hspec
      have hlocked := (same_tried h htried).trans
        (same_locks (same_tried h htried).sound (d₁.lock lock.file) rfl rfl)
      refine ⟨⟨hlocked.sound.addressing, hlocked.sound.files, hlocked.sound.distinct, rfl, nofun⟩,
        hlocked.content, rfl, hlocked.home, id⟩

theorem caches_ensureLocked : Leads (fun st st' => st'.1.caches = st.1.caches) ensureLocked := by
  rintro ⟨s, d⟩
  rw [ensureLocked_eq]
  split
  · rfl
  · split <;> rfl

/-- A store that is not locked yet. -/
def fresh (dir : Path) (timeout : Duration) : FileStore :=
  { baseDir := dir, lockTimeout := timeout, lock := none, lockHeld := false, caches := [] }

theorem sound_fresh (h : Addressing used dir d) (timeout : Duration) :
    Sound used (fresh dir timeout, d) :=
  ⟨h, nofun, List.nodup_nil, rfl, nofun⟩

theorem openStore_eq (dir : Path) (timeout : Duration) (d : Disk) : openStore dir timeout d =
    match Disk.createDirs dir d with
    | .error fault d => .error (.io fault) d
    | .ok _ d =>
      match ensureLocked (fresh dir timeout, d) with
      | .ok _ (s, d) => .ok s d
      | .error e (_, d) => .error e d :=
  rfl

/-- The store without its lock and without what it has loaded. -/
def unloaded (s : FileStore) : FileStore :=
  { s with caches := s.caches.map ({ · with entries := none }), lock := none, lockHeld := false }

theorem same_unloaded (h : Sound used (s, d)) (hclean : ∀ f ∈ s.caches, f.dirty = false)
    (hnodes : d'.nodes = d.nodes) (hhome : d'.home = d.home) :
    Same used (s, d) (s.unloaded, d') := by
  have hpaths : s.unloaded.caches.map (·.path) = s.caches.map (·.path) := by
    rw [unloaded, List.map_map]
    rfl
  have hidle : ∀ f ∈ s.unloaded.caches, f.entries = none ∧ f.dirty = false ∧ used f.path := by
    intro f hf
    obtain ⟨g, hg, rfl⟩ := List.mem_map.mp hf
    exact ⟨rfl, hclean g hg, (h.files g hg).used⟩
  have hsound : Sound used (s.unloaded, d') := by
    refine ⟨h.addressing.congr hnodes hhome, fun f hf => ?_, ?_, rfl, fun _ f hf => ?_⟩
    · obtain ⟨hnone, hnotDirty, hused⟩ := hidle f hf
      exact ⟨hused, by simp [hnone], by simp [hnotDirty], by simp [hnone]⟩
    · show (s.unloaded.caches.map (·.path)).Nodup
      rw [hpaths]
      exact h.distinct
    · exact ⟨(hidle f hf).1, (hidle f hf).2.1⟩
  refine ⟨hsound, fun p _ => ?_, rfl, hhome, hasCache_congr hpaths⟩
  rw [content_of_clean hsound fun f hf => (hidle f hf).2.1, content_of_clean h hclean,
    CacheFile.kept_of_nodes hnodes hhome]

theorem freeLock_of_caches (s : FileStore) (caches : List CacheFile) (d : Disk) :
    ({ s with caches } : FileStore).freeLock d =
      ({ s with caches, lock := none }, (s.freeLock d).2) := by
  obtain ⟨baseDir, lockTimeout, lock, lockHeld, files⟩ := s
  cases lock <;> rfl

theorem unlock_eq (s : FileStore) (d : Disk) :
    unlock (s, d) = .ok () ({ (s.freeLock d).1 with lockHeld := false }, (s.freeLock d).2) :=
  rfl

theorem release_eq (s : FileStore) (d : Disk) : release (s, d) =
    match flush (s, d) with
    | .ok _ (s, d) => .ok () (s.unloaded, (s.freeLock d).2)
    | .error e st => .error e st := by
  show EStateM.bind flush (fun _ => EStateM.bind forget fun _ => unlock) (s, d) = _
  unfold EStateM.bind
  cases flush (s, d) with
  | error e st => rfl
  | ok u st =>
    obtain ⟨s, d⟩ := st
    show unlock ({ s with caches := s.caches.map ({ · with entries := none }) }, d) = _
    rw [unlock_eq, freeLock_of_caches]
    rfl

theorem freeLock_nodes (s : FileStore) (d : Disk) :
    (s.freeLock d).2.nodes = d.nodes ∧ (s.freeLock d).2.home = d.home := by
  unfold freeLock
  split <;> exact ⟨rfl, rfl⟩

theorem leads_release (used : Path → Prop) : Leads (Invisible used) release := by
  rintro ⟨s, d⟩ h
  have hflush := leads_flush used (s, d) h
  rw [release_eq]
  cases hr : flush (s, d) with
  | error e st =>
    rw [hr] at hflush
    exact hflush
  | ok u st =>
    obtain ⟨s₁, d₁⟩ := st
    rw [hr, endState_ok] at hflush
    exact hflush.trans (same_unloaded hflush.sound (clean_of_flush h hr) (freeLock_nodes s₁ d₁).1
      (freeLock_nodes s₁ d₁).2)

theorem kept_of_close (h : Sound used (s, d)) (hclose : close (s, d) = .ok () (s', d')) (hp : used p) :
    kept p d' = content (s, d) p := by
  obtain ⟨u, ⟨s₁, d₁⟩, hleave, hunlock⟩ := bind_eq_ok_of hclose
  have hleft := leads_leave used (s, d) h
  rw [hleave, endState_ok] at hleft
  have hclean : ∀ f ∈ s₁.caches, f.dirty = false := by
    rw [leave_eq] at hleave
    split at hleave
    · exact clean_of_flush h hleave
    · rename_i hunlocked
      cases hleave
      exact fun f hf => (h.idle (by simpa using hunlocked) f hf).2
  obtain ⟨hnodes, hhome⟩ := freeLock_nodes s₁ d₁
  have hd' : d' = (s₁.freeLock d₁).2 := by
    cases hunlock
    rfl
  rw [hd', CacheFile.kept_of_nodes hnodes hhome, ← content_of_clean hleft.sound hclean,
    hleft.content p hp]

theorem leave_of_clean (hclean : ∀ f ∈ s.caches, f.dirty = false) (d : Disk) :
    leave (s, d) = .ok () (s, d) := by
  rw [leave_eq, flush_eq, flushFiles_of_clean hclean]
  split <;> rfl

theorem close_of_clean (hclean : ∀ f ∈ s.caches, f.dirty = false) (d : Disk) :
    ∃ s', close (s, d) = .ok () (s', (s.freeLock d).2) := by
  show ∃ s', EStateM.bind leave (fun _ => unlock) (s, d) = _
  unfold EStateM.bind
  rw [leave_of_clean hclean]
  exact ⟨_, rfl⟩

/-! ### Caches -/

theorem openCache_eq (s : FileStore) (d : Disk) (p : Path) : openCache p (s, d) =
    match s.caches.findIdx? (·.path.same p) with
    | some c => .ok c (s, d)
    | none => .ok s.caches.length ({ s with caches := s.caches ++ [CacheFile.new p] }, d) := by
  show (match s.caches.findIdx? (·.path.same p) with
    | some c => pure c
    | none => _ : Call CacheId) (s, d) = _
  cases s.caches.findIdx? (·.path.same p) <;> rfl

theorem openCache_spec (h : Sound used (s, d)) (hp : used p) :
    ∃ c s', openCache p (s, d) = .ok c (s', d) ∧ Same used (s, d) (s', d) ∧ HasCache s' c p := by
  rw [openCache_eq]
  cases hidx : s.caches.findIdx? (·.path.same p) with
  | some c =>
    refine ⟨c, s, rfl, Same.refl h, ?_⟩
    obtain ⟨hlt, hsame, -⟩ := List.findIdx?_eq_some_iff_getElem.mp hidx
    have hused := (h.files _ (List.getElem_mem hlt)).used
    have hpath := h.addressing.apart _ p hused hp (Path.location_of_same hsame d.home)
    unfold HasCache
    rw [List.getElem?_eq_getElem hlt, Option.map_some, hpath]
  | none =>
    have hnew : p ∉ s.caches.map (·.path) := by
      intro hm
      obtain ⟨f, hf, rfl⟩ := List.mem_map.mp hm
      have hne := List.findIdx?_eq_none_iff.mp hidx f hf
      simp [Path.same] at hne
    have hpaths : (s.caches ++ [CacheFile.new p]).map (·.path) = s.caches.map (·.path) ++ [p] := by
      rw [List.map_append]
      rfl
    have hmem : ∀ f ∈ s.caches ++ [CacheFile.new p], f ∈ s.caches ∨ f = CacheFile.new p := by
      intro f hf
      rcases List.mem_append.mp hf with hf | hf
      · exact Or.inl hf
      · exact Or.inr (List.mem_singleton.mp hf)
    refine ⟨_, _, rfl, ⟨⟨h.addressing, fun f hf => ?_, ?_, h.held, fun hunlocked f hf => ?_⟩,
      fun q hq => ?_, rfl, rfl, fun {c q} hc => ?_⟩, ?_⟩
    · rcases hmem f hf with hf | rfl
      · exact h.files f hf
      · exact CacheFile.sound_new hp
    · show ((s.caches ++ [CacheFile.new p]).map (·.path)).Nodup
      rw [hpaths]
      refine List.nodup_append.mpr ⟨h.distinct, List.pairwise_singleton .., ?_⟩
      rintro a ha b hb rfl
      exact hnew (List.mem_singleton.mp hb ▸ ha)
    · rcases hmem f hf with hf | rfl
      · exact h.idle hunlocked f hf
      · exact ⟨rfl, rfl⟩
    · unfold content
      rw [entriesOf_append_new]
    · unfold HasCache at hc ⊢
      rw [Option.map_eq_some_iff] at hc ⊢
      obtain ⟨f, hf, hpath⟩ := hc
      exact ⟨f, by rw [List.getElem?_append_left (List.getElem?_eq_some_iff.mp hf).1, hf], hpath⟩
    · unfold HasCache
      rw [List.getElem?_append_right (Nat.le_refl _), Nat.sub_self]
      rfl

/-- What happens on a cache that is used: nothing, or `f` on the loaded file. -/
theorem access_eq {α : Type} (c : CacheId) (f : CacheFile → Entries → α × CacheFile) (s : FileStore)
    (d : Disk) : access c f (s, d) =
    if s.lockHeld then
      match s.caches[c]? with
      | none => .error (.backend "no such cache") (s, d)
      | some file =>
        match file.loaded d with
        | .error e => .error e (s, d)
        | .ok (file, entries) =>
          .ok (f file entries).1 ({ s with caches := s.caches.set c (f file entries).2 }, d)
    else .error .lockNotHeld (s, d) := by
  unfold access
  cases hheld : s.lockHeld with
  | false =>
    show (if !s.lockHeld then throw .lockNotHeld >>= fun _ => _ else _ : Call α) (s, d) = _
    rw [hheld]
    rfl
  | true =>
    show (if !s.lockHeld then throw .lockNotHeld >>= fun _ => _ else _ : Call α) (s, d) = _
    rw [hheld]
    show (match s.caches[c]? with
      | none => throw (.backend "no such cache")
      | some file => _ : Call α) (s, d) = _
    cases s.caches[c]? with
    | none => rfl
    | some file =>
      show (match file.loaded d with
        | .error e => throw e
        | .ok (file, entries) => _ : Call α) (s, d) = _
      cases hl : file.loaded d <;>
      · simp only [if_true, hl]
        rfl

theorem access_of_unlocked {α : Type} (h : s.lockHeld = false) (c : CacheId)
    (f : CacheFile → Entries → α × CacheFile) (d : Disk) :
    access c f (s, d) = .error .lockNotHeld (s, d) := by
  rw [access_eq, h]
  rfl

/-- A cache is used on its loaded file, or the call fails and does nothing. -/
theorem access_spec {α : Type} (h : Sound used (s, d)) (c : CacheId)
    (f : CacheFile → Entries → α × CacheFile) :
    (∃ e, access c f (s, d) = .error e (s, d)) ∨
    ∃ file entries, s.lockHeld = true ∧ HasCache s c file.path ∧ file.Sound used d ∧
      file.entries = some entries ∧ content (s, d) file.path = .ok entries ∧
      access c f (s, d) =
        .ok (f file entries).1 ({ s with caches := s.caches.set c (f file entries).2 }, d) := by
  rw [access_eq]
  cases hheld : s.lockHeld with
  | false => exact Or.inl ⟨_, rfl⟩
  | true =>
    cases hc : s.caches[c]? with
    | none => exact Or.inl ⟨_, rfl⟩
    | some file =>
      have hmem := List.mem_of_getElem? hc
      cases hl : file.loaded d with
      | error e => exact Or.inl ⟨e, by simp only [if_true, hl]⟩
      | ok r =>
        obtain ⟨file', entries⟩ := r
        obtain ⟨rfl, hsound, hentries⟩ := CacheFile.loaded_ok hl (h.files file hmem)
        refine Or.inr ⟨_, entries, rfl, ?_, hsound, rfl, ?_, by simp only [if_true, hl]⟩
        · rw [HasCache, hc]
          rfl
        · show ((entriesOf s.caches file.path).map .ok).getD (kept file.path d) = .ok entries
          rw [entriesOf_of_mem h.distinct hmem, hentries]

/-- What a store has for a path has changed, and nothing else. -/
structure Changed (used : Path → Prop) (p : Path) (f : Entries → Entries)
    (st st' : FileStore × Disk) : Prop where
  sound : Sound used st'
  loaded : ∃ entries, content st p = .ok entries
  content : ∀ q, used q →
    content st' q = if q = p then (content st p).map f else content st q
  baseDir : st'.1.baseDir = st.1.baseDir
  home : st'.2.home = st.2.home
  caches : ∀ {c q}, HasCache st.1 c q → HasCache st'.1 c q

theorem changed_of_set {c : CacheId} {file file' : CacheFile} {entries : Entries}
    {g : Entries → Entries} (h : Sound used (s, d)) (hheld : s.lockHeld = true)
    (hc : HasCache s c file.path) (hcontent : content (s, d) file.path = .ok entries)
    (hpath : file'.path = file.path) (hsound : file'.Sound used d)
    (hentries : file'.entries = some (g entries)) :
    Changed used file.path g (s, d) ({ s with caches := s.caches.set c file' }, d) := by
  obtain ⟨old, hold, holdPath⟩ := Option.map_eq_some_iff.mp hc
  have hpaths : (s.caches.set c file').map (·.path) = s.caches.map (·.path) := by
    refine List.ext_getElem? fun i => ?_
    rw [List.map_set, List.getElem?_set, hpath, List.getElem?_map, List.length_map]
    split
    · rename_i he
      rw [← he, hold, if_pos (List.getElem?_eq_some_iff.mp hold).1, Option.map_some, holdPath]
    · rfl
  refine ⟨⟨h.addressing, fun f hf => ?_, ?_, h.held, fun hunlocked => ?_⟩, ?_, fun q _ => ?_, rfl,
    rfl, hasCache_congr hpaths⟩
  · rcases List.mem_or_eq_of_mem_set hf with hf | rfl
    · exact h.files f hf
    · exact hsound
  · show ((s.caches.set c file').map (·.path)).Nodup
    rw [hpaths]
    exact h.distinct
  · have hlocked : s.lockHeld = false := h.held.trans hunlocked
    rw [hheld] at hlocked
    cases hlocked
  · exact ⟨entries, hcontent⟩
  · show ((entriesOf (s.caches.set c file') q).map .ok).getD (kept q d) = _
    rw [entriesOf_set h.distinct hold (hpath.trans holdPath.symm), holdPath, hcontent, hentries]
    split <;> rfl

theorem lookup_spec (h : Sound used (s, d)) (c : CacheId) (key : String) :
    (∃ e, lookup c key (s, d) = .error e (s, d)) ∨
    ∃ p entries s', HasCache s c p ∧ content (s, d) p = .ok entries ∧
      lookup c key (s, d) = .ok (entries.get? key) (s', d) ∧ Same used (s, d) (s', d) := by
  rcases access_spec h c (fun file entries => (entries.get? key, file)) with
    herror | ⟨file, entries, hheld, hc, hsound, hentries, hcontent, hok⟩
  · exact Or.inl herror
  · have hchanged := changed_of_set (g := id) h hheld hc hcontent rfl hsound hentries
    refine Or.inr ⟨file.path, entries, _, hc, hcontent, hok, hchanged.sound, fun q hq => ?_,
      hchanged.baseDir, hchanged.home, hchanged.caches⟩
    rw [hchanged.content q hq]
    split
    · rename_i he
      rw [he, hcontent]
      rfl
    · rfl

theorem put_spec (h : Sound used (s, d)) (c : CacheId) (key : String) (value : Bytes) :
    (∃ e, put c key value (s, d) = .error e (s, d)) ∨
    ∃ p s', HasCache s c p ∧ put c key value (s, d) = .ok () (s', d) ∧
      Changed used p (·.insert key value) (s, d) (s', d) := by
  rcases access_spec h c (fun file entries =>
      ((), { file with entries := some (entries.insert key value), dirty := true })) with
    herror | ⟨file, entries, hheld, hc, hsound, hentries, hcontent, hok⟩
  · exact Or.inl herror
  · refine Or.inr ⟨file.path, _, hc, hok, changed_of_set h hheld hc hcontent rfl ?_ rfl⟩
    refine ⟨hsound.used, fun {e} he => ?_, fun _ => rfl, nofun⟩
    cases he
    exact (hsound.ordered hentries).insert key value

theorem remove_spec (h : Sound used (s, d)) (c : CacheId) (key : String) :
    (∃ e, remove c key (s, d) = .error e (s, d)) ∨
    ∃ p s', HasCache s c p ∧ remove c key (s, d) = .ok () (s', d) ∧
      Changed used p (·.erase key) (s, d) (s', d) := by
  rcases access_spec h c (fun file entries =>
      ((), if entries.contains key then
        { file with entries := some (entries.erase key), dirty := true } else file)) with
    herror | ⟨file, entries, hheld, hc, hsound, hentries, hcontent, hok⟩
  · exact Or.inl herror
  · refine Or.inr ⟨file.path, _, hc, hok, ?_⟩
    by_cases hkey : entries.contains key = true
    · refine changed_of_set h hheld hc hcontent (by rw [if_pos hkey]) ?_ (by rw [if_pos hkey])
      rw [if_pos hkey]
      refine ⟨hsound.used, fun {e} he => ?_, fun _ => rfl, nofun⟩
      cases he
      exact (hsound.ordered hentries).erase key
    · have hsame : entries.erase key = entries :=
        Table.erase_eq_self (by simpa [Table.contains] using hkey)
      refine changed_of_set h hheld hc hcontent (by rw [if_neg hkey]) ?_ ?_
      · rw [if_neg hkey]
        exact hsound
      · rw [if_neg hkey, hentries, hsame]

end FileStore

end HistoryKeeper
