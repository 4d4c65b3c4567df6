import HistoryKeeper.Proofs.Store.FileStore
import HistoryKeeper.Proofs.Store.StoreView

/-!
# Stores on disk as keepers see them

`FileStore.view` looks at a store by the names of its caches. It is faithful
(`FileStore.faithful_view`) if the names have files of their own (`DistinctFiles`). A store that was
opened has for every name what was on the disk (`opened`).

Distinct names are not all that this takes. A store takes a path that leads through a missing directory for
one without a file, and finds the file that lies there once that directory is made (`astray`).
-/

namespace HistoryKeeper.FileStore

open CacheFile (Addressing kept)

variable {names : String → Prop} {used : Path → Prop} {dir p : Path} {timeout : Duration}
  {d d' : Disk} {s s' : FileStore} {c : CacheId} {name : String}

/-- The paths of caches with these names. -/
def usedBy (dir : Path) (names : String → Prop) (p : Path) : Prop :=
  ∃ name, names name ∧ p = cachePath dir name

/-- Each name leads to a file, no two lead to the same one, and files that are there are found. -/
structure DistinctFiles (dir : Path) (names : String → Prop) (d : Disk) : Prop where
  wellFormed : d.WellFormed
  shown : ∀ name, names name → d.Shows (cachePath dir name)
  distinct : ∀ m n, names m → names n →
    (cachePath dir m).location d.home = (cachePath dir n).location d.home → m = n

theorem cachePath_ne_temporary (dir : Path) (name : String) (p : Path) (processId : Nat) (home : Location) :
    (cachePath dir name).location home ≠ (CacheFile.temporary p processId).location home := by
  intro he
  obtain ⟨digit, hdigit, htemporary⟩ := endsWith_temporary p processId home
  rw [← he] at htemporary
  rw [htemporary.unique (endsWith_cacheFile dir ⟨name, "", ""⟩ home)] at hdigit
  exact absurd hdigit (by decide)

theorem cachePath_ne_lock (dir : Path) (name : String) (home : Location) :
    (cachePath dir name).location home ≠ DirectoryLock.locationOf home dir := by
  intro he
  have hcache : Path.EndsWith (DirectoryLock.locationOf home dir) 'n' :=
    he ▸ endsWith_cacheFile dir ⟨name, "", ""⟩ home
  exact absurd (hcache.unique (endsWith_lock dir home)) (by decide)

theorem DistinctFiles.addressing (h : DistinctFiles dir names d) :
    Addressing (usedBy dir names) dir d := by
  refine ⟨h.wellFormed, ?_, ?_, ?_, ?_⟩
  · rintro p ⟨name, hname, rfl⟩
    exact h.shown name hname
  · rintro p q ⟨m, hm, rfl⟩ ⟨n, hn, rfl⟩ he
    rw [h.distinct m n hm hn he]
  · rintro p ⟨name, -, rfl⟩
    exact cachePath_ne_lock dir name d.home
  · rintro p q ⟨name, -, rfl⟩ - processId
    exact cachePath_ne_temporary dir name q processId d.home

/-- A disk with a cache file in a directory. -/
def stocked : Disk :=
  { Disk.empty ["home"] 1 with
    nodes := ((Disk.empty ["home"] 1).nodes.insert ["home", "store"] .directory).insert
      ["home", "store", "a.bin"] (.file 0 (CacheFile.encode [("k", [118])]))
    nextId := 1 }

theorem wellFormed_stocked : stocked.WellFormed := by
  have hstore : Disk.WellFormed { Disk.empty ["home"] 1 with
      nodes := (Disk.empty ["home"] 1).nodes.insert ["home", "store"] .directory } :=
    (Disk.wellFormed_empty ["home"] 1).insert (l := ["home", "store"]) (n := .directory) rfl
      (List.cons_ne_nil _ _) rfl nofun
  exact hstore.insert (l := ["home", "store", "a.bin"]) rfl (List.cons_ne_nil _ _) rfl nofun

/-- One of these names leads to that file through a directory that is missing, and that is made for the
other one. -/
def astray (name : String) : Prop :=
  name = "x/../a" ∨ name = "x/b"

theorem distinct_astray (m n : String) (hm : astray m) (hn : astray n)
    (he : (cachePath ⟨"store"⟩ m).location stocked.home = (cachePath ⟨"store"⟩ n).location stocked.home) :
    m = n := by
  rcases hm with rfl | rfl <;> rcases hn with rfl | rfl <;> revert he <;> decide

/-- A sound store whose caches have these names. -/
structure Keeps (dir : Path) (names : String → Prop) (st : FileStore × Disk) : Prop where
  sound : Sound (usedBy dir names) st
  baseDir : st.1.baseDir = dir
  distinct : ∀ m n, names m → names n →
    (cachePath dir m).location st.2.home = (cachePath dir n).location st.2.home → m = n

def view (dir : Path) (names : String → Prop) : StoreView FileStore Disk where
  Named := names
  Sound := Keeps dir names
  content st name := content st (cachePath dir name)
  Holds s c name := HasCache s c (cachePath dir name)
  others d d' := d'.nodes = d.nodes ∧ d'.home = d.home

variable {st st' : FileStore × Disk}

theorem Keeps.same (h : Keeps dir names st) (hsame : Same (usedBy dir names) st st') :
    (view dir names).Same st st' := by
  refine ⟨⟨hsame.sound, hsame.baseDir.trans h.baseDir, ?_⟩, fun name hname => ?_, hsame.caches⟩
  · rw [hsame.home]
    exact h.distinct
  · exact hsame.content _ ⟨name, hname, rfl⟩

theorem Keeps.changed {f : Entries → Entries} (h : Keeps dir names st) (hname : names name)
    (hchanged : Changed (usedBy dir names) (cachePath dir name) f st st') :
    (view dir names).Changed name f st st' := by
  refine ⟨⟨hchanged.sound, hchanged.baseDir.trans h.baseDir, ?_⟩, fun m hm => ?_, hchanged.caches⟩
  · rw [hchanged.home]
    exact h.distinct
  · refine (hchanged.content _ ⟨m, hm, rfl⟩).trans ?_
    by_cases he : m = name
    · rw [if_pos (congrArg (cachePath dir) he), if_pos he]
      rfl
    · have hne : cachePath dir m ≠ cachePath dir name := fun hp =>
        he (h.distinct m name hm hname (congrArg (Path.location _) hp))
      rw [if_neg hne, if_neg he]
      rfl

theorem Keeps.invisible {α : Type} {call : Call α}
    (h : Leads (Invisible (usedBy dir names)) call) : Leads (view dir names).Invisible call :=
  fun st hst => hst.same (h st hst.sound)

theorem HasCache.unique {q : Path} (h : HasCache s c p) (h' : HasCache s c q) : p = q :=
  Option.some.inj (h.symm.trans h')

theorem Keeps.opensCache (h : Keeps dir names st) (hname : names name) :
    (view dir names).OpensCache name st (openCache (cachePath st.1.baseDir name) st) := by
  obtain ⟨s, d⟩ := st
  rw [show cachePath (s, d).1.baseDir name = cachePath dir name from congrArg (cachePath · name) h.baseDir]
  obtain ⟨c, s', hopen, hsame, hcache⟩ := openCache_spec h.sound ⟨name, hname, rfl⟩
  rw [hopen]
  exact ⟨h.same hsame, hcache⟩

theorem Keeps.finds (h : Keeps dir names st) (hc : HasCache st.1 c (cachePath dir name))
    (key : String) : (view dir names).Finds name key st (lookup c key st) := by
  obtain ⟨s, d⟩ := st
  rcases lookup_spec h.sound c key with ⟨e, he⟩ | ⟨p, entries, s', hp, hcontent, hok, hsame⟩
  · rw [he]
    exact h.same (Same.refl h.sound)
  · rw [hok]
    cases hp.unique hc
    exact ⟨h.same hsame, entries, hcontent, rfl⟩

theorem Keeps.makes (h : Keeps dir names st) (hname : names name)
    (hc : HasCache st.1 c (cachePath dir name)) (key : String) (change : Change) :
    (view dir names).Makes name key change st (change.call c key st) := by
  obtain ⟨s, d⟩ := st
  have hspec : (∃ e, change.call c key (s, d) = .error e (s, d)) ∨
      ∃ p s', HasCache s c p ∧ change.call c key (s, d) = .ok () (s', d) ∧
        Changed (usedBy dir names) p (change.applyTo key) (s, d) (s', d) := by
    cases change with
    | put value => exact put_spec h.sound c key value
    | remove => exact remove_spec h.sound c key
  rcases hspec with ⟨e, he⟩ | ⟨p, s', hp, hok, hchanged⟩
  · rw [he]
    exact h.same (Same.refl h.sound)
  · rw [hok]
    cases hp.unique hc
    exact h.changed hname hchanged

theorem faithful_view (dir : Path) (names : String → Prop) : (view dir names).Faithful where
  enter := Keeps.invisible (leads_ensureLocked _)
  leave := Keeps.invisible (leads_leave _)
  release := Keeps.invisible (leads_release _)
  reacquire := Keeps.invisible (leads_ensureLocked _)
  openCache h hname := h.opensCache hname
  get h _ hc key := h.finds hc key
  change h hname hc key change := h.makes hname hc key change
  others h hothers := h.same (same_locks h.sound _ hothers.1 hothers.2)

/-- A store that was opened has what was on the disk; one that was not has changed nothing there. -/
def OpenedOn (used : Path → Prop) (dir : Path) (d : Disk)
    (result : EStateM.Result StoreError Disk FileStore) : Prop :=
  match result with
  | .ok s d' => Sound used (s, d') ∧ s.baseDir = dir ∧ s.caches = [] ∧ d'.home = d.home ∧
      ∀ p, used p → content (s, d') p = kept p d
  | .error _ d' => Addressing used dir d' ∧ d'.home = d.home ∧ ∀ p, used p → kept p d' = kept p d

theorem openStore_spec (h : Addressing used dir d) (timeout : Duration) :
    OpenedOn used dir d (openStore dir timeout d) := by
  have hdirs := Disk.leads_createDirs dir d h.wellFormed
  rw [openStore_eq]
  cases hr : Disk.createDirs dir d with
  | error fault d₁ =>
    rw [hr, endState_error] at hdirs
    exact ⟨h.mono hdirs.1 hdirs.2 fun _ _ => id, hdirs.2.home, fun p hp => h.kept_eq hdirs.2 hp id⟩
  | ok u d₁ =>
    rw [hr, endState_ok] at hdirs
    have hkept : ∀ p, used p → kept p d₁ = kept p d := fun p hp => h.kept_eq hdirs.2 hp id
    have hfresh := sound_fresh (h.mono hdirs.1 hdirs.2 fun _ _ => id) timeout
    have hsame := leads_ensureLocked used (fresh dir timeout, d₁) hfresh
    have hcaches := caches_ensureLocked (fresh dir timeout, d₁)
    simp only
    cases hl : ensureLocked (fresh dir timeout, d₁) with
    | error e st =>
      rw [hl, endState_error] at hsame hcaches
      have hclean : ∀ f ∈ st.1.caches, f.dirty = false := by
        rw [hcaches]
        nofun
      refine ⟨?_, hsame.home.trans hdirs.2.home, fun p hp => ?_⟩
      · rw [← show st.1.baseDir = dir from hsame.baseDir]
        exact hsame.sound.addressing
      · rw [← content_of_clean hsame.sound hclean, hsame.content p hp]
        exact hkept p hp
    | ok u st =>
      rw [hl, endState_ok] at hsame hcaches
      refine ⟨hsame.sound, hsame.baseDir, hcaches, hsame.home.trans hdirs.2.home, fun p hp => ?_⟩
      exact (hsame.content p hp).trans (hkept p hp)

end HistoryKeeper.FileStore
