import Mathlib.Data.List.Nodup
import HistoryKeeper.Proofs.Store.FailedFlush
import HistoryKeeper.Proofs.Store.Prepared
import HistoryKeeper.Proofs.Store.UntouchedFiles

/-!
# What holds of a store at any time

A `FileStore.Life` is all that can become of a store that was opened: it is called, whatever the outcomes,
and others are at work on the disk. Throughout it the store is `Tidy`: the flag goes with the lock, without
the lock nothing is loaded, what is dirty is loaded, and no path is registered twice.

While nobody else writes the files, what is loaded and clean is what `load` would return
(`Life.represented`). This needs paths that are settled: one that leads through a directory that is missing
finds nothing, and what was loaded so stays in memory when another cache has had the directory made
(`Life.outdated`).
-/

namespace HistoryKeeper

open CacheFile (Addressing load kept temporary)
open Disk (MakesWithin)

variable {used : Path → Prop} {dir p : Path} {d d' : Disk} {entries : Entries}

namespace CacheFile

variable {f f' : CacheFile}

theorem load_eq_ok_iff : load p d = .ok entries ↔ kept p d = .ok entries ∧ d.isDirectory p = false := by
  cases hs : d.stat p with
  | error e => simp [load, kept, Disk.pathExists, Disk.isDirectory, hs]
  | ok node =>
    cases node with
    | directory =>
      have hdir : d.isDirectory p = true := Disk.isDirectory_iff.mpr hs
      have hload : load p d = .error (.io .isDirectory) := by
        unfold load Disk.pathExists Disk.read
        rw [hs]
        rfl
      simp [hload, hdir]
    | file id content =>
      have hdir : d.isDirectory p = false := by rw [Disk.isDirectory, hs]
      rw [load_of_hasFile hs, kept, hs, hdir]
      cases hc : decode content <;> simp [hc, Except.mapError]

theorem loaded_eq (h : f.loaded d = .ok (f', entries)) :
    f' = f ∨ load f.path d = .ok entries ∧ f' = { f with entries := some entries } := by
  unfold loaded at h
  cases he : f.entries with
  | some e =>
    rw [he] at h
    cases h
    exact .inl rfl
  | none =>
    rw [he] at h
    cases hl : load f.path d with
    | error e =>
      rw [hl] at h
      cases h
    | ok e =>
      rw [hl] at h
      cases h
      exact .inr ⟨rfl, rfl⟩

/-- A cache file behind a call on it. -/
inductive Handled (d : Disk) (f : CacheFile) : CacheFile → Prop
  | same : Handled d f f
  | loaded {e : Entries} : load f.path d = .ok e → Handled d f { f with entries := some e }
  | changed {e : Entries} : Handled d f { f with entries := some e, dirty := true }

theorem makes_flush (hd : d.WellFormed) (hs : d.Settled f.path) :
    MakesWithin (fun l => f.dirty = true ∧ l <+: f.path.location d.home) d (endState (f.flush d)) := by
  rw [flush_eq]
  split
  · rename_i hdirty
    split
    · exact .refl d
    · rename_i entries hentries
      have hmakes := makes_save hd hs (encode entries)
      have hend : endState ((save f.path (encode entries) >>= fun _ =>
          pure { f with dirty := false }) d) = endState (save f.path (encode entries) d) := by
        show endState (EStateM.bind (save f.path (encode entries)) _ d) = _
        unfold EStateM.bind
        cases save f.path (encode entries) d <;> rfl
      rw [hend]
      exact hmakes.mono fun l hl => ⟨hdirty, hl⟩
  · exact .refl d

theorem Handled.path (h : f.Handled d f') : f'.path = f.path := by
  cases h <;> rfl

end CacheFile

namespace FileStore

open CacheFile (Handled)

variable {files : List CacheFile} {s s' : FileStore} {action : Action}

structure Tidy (s : FileStore) : Prop where
  held : s.lockHeld = s.isLocked
  idle : s.isLocked = false → ∀ f ∈ s.caches, f.entries = none ∧ f.dirty = false
  loaded : ∀ f ∈ s.caches, f.dirty = true → f.entries.isSome = true
  apart : (s.caches.map (·.path)).Pairwise fun p q => p.same q = false

/-- A tidy store stays tidy, and keeps what is registered. -/
def Tidies (st st' : FileStore × Disk) : Prop :=
  st.1.Tidy → st'.1.Tidy ∧ st.1.caches.map (·.path) ⊆ st'.1.caches.map (·.path)

theorem Tidies.refl (st : FileStore × Disk) : Tidies st st :=
  fun h => ⟨h, List.Subset.refl _⟩

theorem tidies_ensureLocked : Leads Tidies ensureLocked := by
  rintro ⟨s, d⟩ h
  rw [ensureLocked_eq]
  split
  · exact ⟨h, List.Subset.refl _⟩
  · split
    · exact ⟨⟨rfl, nofun, h.loaded, h.apart⟩, List.Subset.refl _⟩
    · exact ⟨h, List.Subset.refl _⟩

/-- What is written back was in memory before, with the same entries, and may have been dirty. -/
theorem mem_flushFiles {f' : CacheFile} (hf' : f' ∈ (flushFiles files d).2.1) : ∃ f ∈ files, f.Noted f' := by
  obtain ⟨c, hc⟩ := List.mem_iff_getElem?.mp hf'
  have hnoted : List.Forall₂ (flip CacheFile.Noted) (flushFiles files d).2.1 files :=
    (noted_flushFiles files d).flip
  obtain ⟨f, hf, hnoted⟩ := exists_of_forall₂ hnoted hc
  exact ⟨f, List.mem_of_getElem? hf, hnoted⟩

theorem paths_flushFiles (files : List CacheFile) (d : Disk) :
    (flushFiles files d).2.1.map (·.path) = files.map (·.path) := by
  have hpaths : ∀ {files' : List CacheFile}, List.Forall₂ CacheFile.Noted files files' →
      files'.map (·.path) = files.map (·.path) := by
    intro files' hnoted
    induction hnoted with
    | nil => rfl
    | cons h _ ih =>
      rw [List.map_cons, List.map_cons, ih]
      rcases h with rfl | ⟨-, -, rfl⟩ <;> rfl
  exact hpaths (noted_flushFiles files d)

/-- Where everything dirty is loaded, everything is clean behind a writing back that went well. -/
theorem clean_flushFiles (hloaded : ∀ f ∈ files, f.dirty = true → f.entries.isSome = true)
    (hok : (flushFiles files d).1 = .ok ()) : ∀ f ∈ (flushFiles files d).2.1, f.dirty = false := by
  induction files generalizing d with
  | nil => exact nofun
  | cons f files ih =>
    rw [flushFiles_cons] at hok ⊢
    cases hr : f.flush d with
    | error fault d₁ =>
      rw [hr] at hok
      cases hok
    | ok f₁ d₁ =>
      rw [hr] at hok
      rintro g (_ | ⟨_, hg⟩)
      · have hf := hloaded f (List.mem_cons_self ..)
        rw [CacheFile.flush_eq] at hr
        split at hr
        · rename_i hdirty
          split at hr
          · rename_i hnone
            rw [hnone] at hf
            cases hf hdirty
          · obtain ⟨-, d₂, -, hpure⟩ := bind_eq_ok_of hr
            cases hpure
            rfl
        · rename_i hclean
          cases hr
          simpa using hclean
      · exact ih (fun g hg => hloaded g (List.mem_cons_of_mem _ hg)) hok g hg

theorem tidy_flushFiles (h : s.Tidy) (d : Disk) :
    Tidy { s with caches := (flushFiles s.caches d).2.1 } := by
  refine ⟨h.held, fun hunlocked f' hf' => ?_, fun f' hf' hdirty => ?_, ?_⟩
  · obtain ⟨f, hf, rfl | ⟨hdirty, -, -⟩⟩ := mem_flushFiles hf'
    · exact h.idle hunlocked f' hf
    · rw [(h.idle hunlocked f hf).2] at hdirty
      cases hdirty
  · obtain ⟨f, hf, rfl | ⟨-, -, rfl⟩⟩ := mem_flushFiles hf'
    · exact h.loaded f' hf hdirty
    · cases hdirty
  · rw [paths_flushFiles]
    exact h.apart

theorem tidies_flush : Leads Tidies flush := by
  rintro ⟨s, d⟩ h
  rw [flush_eq]
  split <;> exact ⟨tidy_flushFiles h d, fun _ hp => (paths_flushFiles s.caches d).symm ▸ hp⟩

theorem tidies_leave : Leads Tidies leave := by
  rintro ⟨s, d⟩
  rw [leave_eq]
  split
  · exact tidies_flush (s, d)
  · exact .refl _

theorem paths_unloaded (s : FileStore) : s.unloaded.caches.map (·.path) = s.caches.map (·.path) := by
  rw [unloaded, List.map_map]
  rfl

theorem tidies_release : Leads Tidies release := by
  rintro ⟨s, d⟩ h
  have hflush := tidies_flush (s, d) h
  rw [release_eq]
  rw [flush_eq] at hflush ⊢
  cases hr : (flushFiles s.caches d).1 with
  | error fault =>
    rw [hr] at hflush
    exact hflush
  | ok u =>
    simp only [hr, endState_ok] at hflush ⊢
    obtain ⟨htidy, hpaths⟩ := hflush
    have hidle : ∀ f ∈ (unloaded { s with caches := (flushFiles s.caches d).2.1 }).caches,
        f.entries = none ∧ f.dirty = false := by
      intro f hf
      obtain ⟨g, hg, rfl⟩ := List.mem_map.mp hf
      exact ⟨rfl, clean_flushFiles h.loaded hr g hg⟩
    refine ⟨⟨rfl, fun _ => hidle, fun f hf hdirty => ?_, ?_⟩, ?_⟩
    · rw [(hidle f hf).2] at hdirty
      cases hdirty
    · rw [paths_unloaded]
      exact htidy.apart
    · rw [paths_unloaded]
      exact hpaths

theorem tidies_openCache (p : Path) : Leads Tidies (openCache p) := by
  rintro ⟨s, d⟩ h
  rw [openCache_eq]
  split
  · exact ⟨h, List.Subset.refl _⟩
  · rename_i hnone
    have hpaths : (s.caches ++ [CacheFile.new p]).map (·.path) = s.caches.map (·.path) ++ [p] := by
      rw [List.map_append]
      rfl
    have hnew : ∀ f ∈ s.caches ++ [CacheFile.new p], f ∈ s.caches ∨ f = CacheFile.new p := by
      simp
    refine ⟨⟨h.held, fun hunlocked f hf => ?_, fun f hf hdirty => ?_, ?_⟩, ?_⟩
    · rcases hnew f hf with hf | rfl
      · exact h.idle hunlocked f hf
      · exact ⟨rfl, rfl⟩
    · rcases hnew f hf with hf | rfl
      · exact h.loaded f hf hdirty
      · cases hdirty
    · rw [endState_ok, hpaths, List.pairwise_append]
      refine ⟨h.apart, List.pairwise_singleton .., fun q hq r hr => ?_⟩
      obtain ⟨f, hf, rfl⟩ := List.mem_map.mp hq
      rw [List.mem_singleton.mp hr]
      simpa using List.findIdx?_eq_none_iff.mp hnone f hf
    · rw [endState_ok, hpaths]
      exact List.subset_append_left ..

/-! ### Calls on caches -/

/-- A call on a cache can load its file, and may leave it dirty with other entries. -/
theorem perform_handled (hcache : action.onCache = true) (s : FileStore) (d : Disk) :
    endState (action.perform (s, d)) = (s, d) ∨ ∃ n f f', s.lockHeld = true ∧ s.caches[n]? = some f ∧
      f.Handled d f' ∧ endState (action.perform (s, d)) = ({ s with caches := s.caches.set n f' }, d) := by
  have haccess : ∀ {α : Type} (c : CacheId) (g : CacheFile → Entries → α × CacheFile),
      (∀ f entries, (g f entries).2 = f ∨
        ∃ entries', (g f entries).2 = { f with entries := some entries', dirty := true }) →
      endState (access c g (s, d)) = (s, d) ∨ ∃ n f f', s.lockHeld = true ∧ s.caches[n]? = some f ∧
        f.Handled d f' ∧ endState (access c g (s, d)) = ({ s with caches := s.caches.set n f' }, d) := by
    intro α c g hg
    rw [access_eq]
    split
    · rename_i hheld
      split
      · exact .inl rfl
      · rename_i f hf
        split
        · exact .inl rfl
        · rename_i f₁ entries hloaded
          refine .inr ⟨c, f, (g f₁ entries).2, hheld, hf, ?_, rfl⟩
          rcases hg f₁ entries with hsame | ⟨entries', hchanged⟩
          · rw [hsame]
            rcases CacheFile.loaded_eq hloaded with rfl | ⟨hload, rfl⟩
            · exact .same
            · exact .loaded hload
          · rw [hchanged]
            rcases CacheFile.loaded_eq hloaded with rfl | ⟨-, rfl⟩ <;> exact .changed
    · exact .inl rfl
  cases action with
  | get c key =>
    rw [Action.perform, endState_map]
    exact haccess c _ fun _ _ => .inl rfl
  | edit c key change =>
    rw [Action.perform, endState_map, call_eq]
    apply haccess
    intro f entries
    dsimp only
    split
    · exact .inr ⟨_, rfl⟩
    · exact .inl rfl
  | _ => cases hcache

theorem paths_set {c : CacheId} {f f' : CacheFile} (hf : s.caches[c]? = some f) (hpath : f'.path = f.path) :
    (s.caches.set c f').map (·.path) = s.caches.map (·.path) := by
  obtain ⟨hlt, rfl⟩ := List.getElem?_eq_some_iff.mp hf
  rw [List.map_set, hpath, ← List.map_set, List.set_getElem_self]

theorem tidies_onCache (hcache : action.onCache = true) : Leads Tidies action.perform := by
  rintro ⟨s, d⟩ h
  rcases perform_handled hcache s d with hsame | ⟨c, f, f', hheld, hf, hhandled, hset⟩
  · rw [hsame]
    exact ⟨h, List.Subset.refl _⟩
  · rw [hset]
    have hpaths := paths_set hf hhandled.path
    refine ⟨⟨h.held, fun hunlocked => ?_, fun g hg hdirty => ?_, ?_⟩, ?_⟩
    · have hflag := h.held
      rw [hheld, show s.isLocked = false from hunlocked] at hflag
      cases hflag
    · rcases List.mem_or_eq_of_mem_set hg with hg | rfl
      · exact h.loaded g hg hdirty
      · cases hhandled with
        | same => exact h.loaded f (List.mem_of_getElem? hf) hdirty
        | loaded _ => rfl
        | changed => rfl
    · rw [hpaths]
      exact h.apart
    · exact fun _ hp => hpaths.symm ▸ hp

theorem tidies_perform (hcloses : action.closes = false) : Leads Tidies action.perform := by
  cases action with
  | get c key => exact tidies_onCache rfl
  | edit c key change => exact tidies_onCache rfl
  | openCache file => exact fun st => by rw [Action.perform, endState_map]; exact tidies_openCache file st
  | enter | reacquire =>
    exact fun st => by rw [Action.perform, endState_map]; exact tidies_ensureLocked st
  | leave => exact fun st => by rw [Action.perform, endState_map]; exact tidies_leave st
  | release => exact fun st => by rw [Action.perform, endState_map]; exact tidies_release st
  | close => cases hcloses

theorem tidy_of_openStore {timeout : Duration} (h : openStore dir timeout d = .ok s d') : s.Tidy := by
  have hfresh : (fresh dir timeout).Tidy := ⟨rfl, nofun, nofun, .nil⟩
  rw [openStore_eq] at h
  split at h
  · cases h
  · rename_i d₁ _
    have htidy := (tidies_ensureLocked (fresh dir timeout, d₁) hfresh).1
    split at h
    · rename_i hlock
      rw [hlock] at htidy
      cases h
      exact htidy
    · cases h

/-- All spellings of a path that is registered share one cache. -/
theorem Tidy.openCache (h : s.Tidy) {c : CacheId} {f : CacheFile} (hf : s.caches[c]? = some f)
    (hsame : f.path.same p = true) (d : Disk) : FileStore.openCache p (s, d) = .ok c (s, d) := by
  have hidx : s.caches.findIdx? (·.path.same p) = some c := by
    obtain ⟨hlt, rfl⟩ := List.getElem?_eq_some_iff.mp hf
    refine List.findIdx?_eq_some_iff_getElem.mpr ⟨hlt, hsame, fun i hi => ?_⟩
    have hilt : i < s.caches.length := Nat.lt_trans hi hlt
    have hapart := List.pairwise_iff_getElem.mp h.apart i c (by rwa [List.length_map])
      (by rwa [List.length_map]) hi
    rw [List.getElem_map, List.getElem_map] at hapart
    have he : s.caches[c].path.components = p.components := of_decide_eq_true hsame
    simpa [Path.same, he] using hapart
  rw [openCache_eq, hidx]

/-- The caches have files of their own: none lies below another one or is made by stores for themselves. -/
structure Detached (used : Path → Prop) (dir : Path) (home : Location) : Prop
    extends Apart used (· = dir) home where
  notBelow : ∀ p q, used p → used q → p.location home <+: q.location home → p = q

theorem Detached.addressing (h : Detached used dir d.home) (hd : d.WellFormed)
    (hs : ∀ p, used p → d.Settled p) : Addressing used dir d :=
  ⟨hd, fun p hp => (hs p hp).shows hd, fun p q hp hq he => h.notBelow p q hp hq (he ▸ List.prefix_rfl),
    fun p hp => h.notLock p hp dir rfl, h.notTemporary⟩

/-- A sound store to which no directory has come up where it has a clean file. -/
structure Current (used : Path → Prop) (st : FileStore × Disk) : Prop where
  sound : Sound used st
  settled : ∀ p, used p → st.2.Settled p
  notBelow : ∀ p q, used p → used q → p.location st.2.home <+: q.location st.2.home → p = q
  files : ∀ f ∈ st.1.caches, f.dirty = false → f.entries.isSome = true → st.2.isDirectory f.path = false

theorem Sound.tame {st : FileStore × Disk} (h : Sound used st) :
    st.1.Tame used (fun _ => True) used (· = st.1.baseDir) := by
  refine ⟨rfl, fun f hf => ?_⟩
  have hfile := h.files f hf
  exact ⟨hfile.used, hfile.ordered, fun _ => trivial, fun _ => hfile.used⟩

theorem Current.settled_of_tends {st st' : FileStore × Disk} (h : Current used st)
    (htends : Tends used (fun _ => True) used (· = st.1.baseDir) st st') :
    ∀ p, used p → st'.2.Settled p := fun p hp =>
  (htends h.sound.addressing.wellFormed h.sound.tame).1.settled (h.settled p hp)

theorem Current.load {st : FileStore × Disk} {f : CacheFile} (h : Current used st)
    (hf : f ∈ st.1.caches) (hclean : f.dirty = false) (hentries : f.entries = some entries) :
    CacheFile.load f.path st.2 = .ok entries :=
  CacheFile.load_eq_ok_iff.mpr ⟨(h.sound.files f hf).clean hclean hentries,
    h.files f hf hclean (by rw [hentries]; rfl)⟩

theorem makes_flushFiles (hd : d.WellFormed) (hs : ∀ f ∈ files, d.Settled f.path) :
    MakesWithin (fun l => ∃ f ∈ files, f.dirty = true ∧ l <+: f.path.location d.home) d
      (flushFiles files d).2.2 := by
  induction files generalizing d with
  | nil => exact .refl d
  | cons f files ih =>
    have hrewritten := (CacheFile.flushing hd f).rewritten hd
    have hmakes := CacheFile.makes_flush hd (hs f (List.mem_cons_self ..))
    have hfirst : MakesWithin (fun l => ∃ g ∈ f :: files, g.dirty = true ∧ l <+: g.path.location d.home) d
        (endState (f.flush d)) := hmakes.mono fun l hl => ⟨f, List.mem_cons_self .., hl⟩
    rw [flushFiles_cons]
    cases hr : f.flush d with
    | error fault d₁ =>
      rw [hr] at hfirst
      exact hfirst
    | ok f₁ d₁ =>
      rw [hr, endState_ok] at hfirst hrewritten
      have hrest := ih hrewritten.wellFormed fun g hg =>
        (hs g (List.mem_cons_of_mem _ hg)).mono hrewritten.ext
      rw [hrewritten.ext.home] at hrest
      exact hfirst.trans (hrest.mono fun l ⟨g, hg, hl⟩ => ⟨g, List.mem_cons_of_mem _ hg, hl⟩)

theorem Current.flushFiles (h : Current used (s, d)) : Current used
    ({ s with caches := (flushFiles s.caches d).2.1 }, (flushFiles s.caches d).2.2) := by
  have hsame := same_flushFiles h.sound
  have hsettled : ∀ f ∈ s.caches, d.Settled f.path := fun f hf =>
    h.settled f.path (h.sound.files f hf).used
  have hmakes := makes_flushFiles h.sound.addressing.wellFormed hsettled
  have hretained := retained_flushFiles h.sound.addressing h.sound.files h.sound.distinct
  have htended := (tends_flushFiles (· = s.baseDir) h.sound.addressing.wellFormed h.sound.tame.files).1
  refine ⟨hsame.sound, fun p hp => htended.settled (h.settled p hp), ?_, fun f' hf' hclean hloaded => ?_⟩
  · rw [hsame.home]
    exact h.notBelow
  obtain ⟨c, hc⟩ := List.mem_iff_getElem?.mp hf'
  have hback : List.Forall₂ (flip (CacheFile.Retained d (FileStore.flushFiles s.caches d).2.2))
      (FileStore.flushFiles s.caches d).2.1 s.caches := hretained.flip
  obtain ⟨f, hf, hfile⟩ := exists_of_forall₂ hback hc
  have hf := List.mem_of_getElem? hf
  cases hfile with
  | written _ _ hfile => rw [Disk.isDirectory, Disk.hasFile_iff.mp hfile]
  | untouched _ =>
    refine Bool.eq_false_iff.mpr fun hdir => ?_
    have hbefore := hmakes.isDirectory h.sound.addressing.wellFormed (hsettled f' hf) hsame.home ?_ hdir
    · rw [h.files f' hf hclean hloaded] at hbefore
      cases hbefore
    -- what is made is made above dirty files
    · rintro ⟨g, hg, hdirty, habove⟩
      have hpath := h.notBelow _ _ (h.sound.files f' hf).used (h.sound.files g hg).used habove
      rw [List.inj_on_of_nodup_map h.sound.distinct hf hg hpath, hdirty] at hclean
      cases hclean

theorem Current.flush (h : Current used (s, d)) : Current used (endState (flush (s, d))) := by
  rw [flush_eq]
  split <;> exact h.flushFiles

theorem Current.of_idle {st : FileStore × Disk} (h : Current used (s, d)) (hsound : Sound used st)
    (hsettled : ∀ p, used p → st.2.Settled p) (hhome : st.2.home = d.home)
    (hidle : ∀ f ∈ st.1.caches, f.entries = none) : Current used st := by
  refine ⟨hsound, hsettled, by rw [hhome]; exact h.notBelow, fun f hf _ hloaded => ?_⟩
  rw [hidle f hf] at hloaded
  cases hloaded

theorem Current.ensureLocked (h : Current used (s, d)) :
    Current used (endState (ensureLocked (s, d))) := by
  have hsame := leads_ensureLocked used (s, d) h.sound
  cases hlocked : s.isLocked with
  | true =>
    rw [ensureLocked_eq, if_pos hlocked]
    exact h
  | false =>
    refine h.of_idle hsame.sound (h.settled_of_tends (tends_ensureLocked (s, d))) hsame.home fun f hf => ?_
    rw [caches_ensureLocked (s, d)] at hf
    exact (h.sound.idle hlocked f hf).1

theorem Current.release (h : Current used (s, d)) : Current used (endState (release (s, d))) := by
  have hflush := h.flush
  have hsame := leads_release used (s, d) h.sound
  have hsettled := h.settled_of_tends (tends_release (s, d))
  rw [release_eq] at hsame hsettled ⊢
  cases hr : FileStore.flush (s, d) with
  | error e st =>
    rw [hr] at hflush
    exact hflush
  | ok u st =>
    rw [hr] at hsame hsettled
    refine h.of_idle hsame.sound hsettled hsame.home fun f hf => ?_
    obtain ⟨g, -, rfl⟩ := List.mem_map.mp hf
    rfl

theorem Current.openCache (h : Current used (s, d))
    (huses : ∀ f ∈ (endState (FileStore.openCache p (s, d))).1.caches, used f.path) :
    Current used (endState (FileStore.openCache p (s, d))) := by
  rw [openCache_eq] at huses ⊢
  cases hidx : s.caches.findIdx? (·.path.same p) with
  | some c => exact h
  | none =>
    rw [hidx] at huses
    have hp : used p := huses (CacheFile.new p) (List.mem_append_right _ (List.mem_singleton_self _))
    obtain ⟨c, s', hopen, hsame, -⟩ := openCache_spec h.sound hp
    rw [openCache_eq, hidx] at hopen
    cases hopen
    refine ⟨hsame.sound, h.settled, h.notBelow, fun f hf hclean hloaded => ?_⟩
    rcases List.mem_append.mp hf with hf | hf
    · exact h.files f hf hclean hloaded
    · rw [List.mem_singleton.mp hf] at hloaded
      cases hloaded

theorem Current.onCache (h : Current used (s, d)) (hcache : action.onCache = true) :
    Current used (endState (action.perform (s, d))) := by
  have hsound : Sound used (endState (action.perform (s, d))) := by
    cases action with
    | get c key =>
      rw [Action.perform, endState_map]
      rcases lookup_spec h.sound c key with ⟨e, he⟩ | ⟨p, entries, s', -, -, hok, hsame⟩
      · rw [he]
        exact h.sound
      · rw [hok]
        exact hsame.sound
    | edit c key change =>
      rw [Action.perform, endState_map]
      rcases call_spec h.sound c key change with ⟨e, he⟩ | ⟨p, s', -, hok, hchanged⟩
      · rw [he]
        exact h.sound
      · rw [hok]
        exact hchanged.sound
    | _ => cases hcache
  rcases perform_handled hcache s d with hsame | ⟨c, f, f', hheld, hf, hhandled, hset⟩
  · rw [hsame]
    exact h
  · rw [hset] at hsound ⊢
    refine ⟨hsound, h.settled, h.notBelow, fun g hg hclean hloaded => ?_⟩
    rcases List.mem_or_eq_of_mem_set hg with hg | rfl
    · exact h.files g hg hclean hloaded
    · cases hhandled with
      | same => exact h.files f (List.mem_of_getElem? hf) hclean hloaded
      | loaded hload => exact (CacheFile.load_eq_ok_iff.mp hload).2
      | changed => cases hclean

theorem Current.perform (h : Current used (s, d))
    (huses : ∀ f ∈ (endState (action.perform (s, d))).1.caches, used f.path)
    (hcloses : action.closes = false) : Current used (endState (action.perform (s, d))) := by
  cases action with
  | get c key | edit c key change => exact h.onCache rfl
  | openCache file =>
    rw [Action.perform, endState_map] at huses ⊢
    exact h.openCache huses
  | enter | reacquire =>
    rw [Action.perform, endState_map]
    exact h.ensureLocked
  | leave =>
    rw [Action.perform, endState_map, leave_eq]
    split
    · exact h.flush
    · exact h
  | release =>
    rw [Action.perform, endState_map]
    exact h.release
  | close => cases hcloses

/-- Others keep the disk in order, and leave the files of the caches alone while the store holds the lock. -/
structure LeavesAlone (used : Path → Prop) (s : FileStore) (d d' : Disk) : Prop where
  wellFormed : d'.WellFormed
  home : d'.home = d.home
  settled : ∀ p, used p → d.Settled p → d'.Settled p
  files : s.isLocked = true → ∀ p, used p → ∀ node, d'.stat p = .ok node ↔ d.stat p = .ok node

theorem Current.spared (h : Current used (s, d)) (hspares : LeavesAlone used s d d') :
    Current used (s, d') := by
  have hsettled : ∀ p, used p → d'.Settled p := fun p hp => hspares.settled p hp (h.settled p hp)
  have haddressing : Addressing used s.baseDir d' :=
    h.sound.addressing.of_shown hspares.wellFormed hspares.home fun p hp =>
      (hsettled p hp).shows hspares.wellFormed
  cases hlocked : s.isLocked with
  | false =>
    exact h.of_idle (h.sound.of_unlocked hlocked haddressing) hsettled hspares.home fun f hf =>
      (h.sound.idle hlocked f hf).1
  | true =>
    have hfiles := hspares.files hlocked
    refine ⟨h.sound.of_sameFile haddressing fun p hp id content => ?_, hsettled, ?_,
      fun f hf hclean hloaded => ?_⟩
    · rw [Disk.hasFile_iff, Disk.hasFile_iff, hfiles p hp]
    · rw [hspares.home]
      exact h.notBelow
    · rw [← h.files f hf hclean hloaded, Bool.eq_iff_iff, Disk.isDirectory_iff, Disk.isDirectory_iff,
        hfiles _ (h.sound.files f hf).used]

/-! ### A store's life -/

/-- The states of a store that was opened. -/
inductive Life (others : FileStore → Disk → Disk → Prop) (dir : Path) (timeout : Duration) (first : Disk) :
    FileStore × Disk → Prop
  | opened {s : FileStore} {d : Disk} : openStore dir timeout first = .ok s d →
      Life others dir timeout first (s, d)
  | call {s : FileStore} {d : Disk} (action : Action) : Life others dir timeout first (s, d) →
      action.closes = false → Life others dir timeout first (endState (action.perform (s, d)))
  | flush {s : FileStore} {d : Disk} : Life others dir timeout first (s, d) →
      Life others dir timeout first (endState (flush (s, d)))
  | others {s : FileStore} {d d' : Disk} : Life others dir timeout first (s, d) → others s d d' →
      Life others dir timeout first (s, d')

namespace Life

variable {others : FileStore → Disk → Disk → Prop} {timeout : Duration} {first : Disk} {st : FileStore × Disk}

theorem tidy (h : Life others dir timeout first st) : st.1.Tidy := by
  induction h with
  | opened hopen => exact tidy_of_openStore hopen
  | call action _ hcloses ih => exact (tidies_perform hcloses _ ih).1
  | flush _ ih => exact (tidies_flush _ ih).1
  | others _ _ ih => exact ih

theorem current (h : Life others dir timeout first st) (hd : first.WellFormed)
    (hdetached : Detached used dir first.home) (hsettled : ∀ p, used p → first.Settled p)
    (hothers : ∀ s d d', others s d d' → LeavesAlone used s d d') (hused : ∀ f ∈ st.1.caches, used f.path) :
    Current used st := by
  -- what is registered stays so, so all of it is used at the end
  have hbefore : ∀ {st st' : FileStore × Disk}, Tidies st st' → st.1.Tidy →
      (∀ f ∈ st'.1.caches, used f.path) → ∀ f ∈ st.1.caches, used f.path := by
    intro st st' htidies htidy hused f hf
    obtain ⟨g, hg, hpath⟩ := List.mem_map.mp ((htidies htidy).2 (List.mem_map_of_mem hf))
    exact hpath ▸ hused g hg
  induction h with
  | opened hopen =>
    obtain ⟨d₁, htried, hlock⟩ := openStore_ok hopen hd
    have haddr := hdetached.addressing hd hsettled
    have haddr₁ := haddr.mono htried.wellFormed htried.ext haddr.notLock
    have hfresh : Current used (fresh dir timeout, d₁) :=
      ⟨sound_fresh haddr₁ timeout, fun p hp => (hsettled p hp).mono htried.ext,
        by rw [htried.ext.home]; exact hdetached.notBelow, nofun⟩
    have hcurrent := hfresh.ensureLocked
    rw [hlock] at hcurrent
    exact hcurrent
  | call action hlife hcloses ih =>
    exact (ih (hbefore (tidies_perform hcloses _) hlife.tidy hused)).perform hused hcloses
  | flush hlife ih => exact (ih (hbefore (tidies_flush _) hlife.tidy hused)).flush
  | others _ hspares ih => exact (ih hused).spared (hothers _ _ _ hspares)

/-- Whatever a store is asked, whatever fails and whatever others do, it is tidy, and all caches of a path are
one. While nobody else writes the files, what it has loaded and not changed is what `load` would return, where
the paths in use are settled and lead to files of their own. -/
theorem represented (h : Life others dir timeout first st) :
    st.1.Tidy ∧
    (∀ c f p, st.1.caches[c]? = some f → f.path.same p = true → openCache p st = .ok c st) ∧
    ∀ used, first.WellFormed → Detached used dir first.home → (∀ p, used p → first.Settled p) →
      (∀ s d d', others s d d' → LeavesAlone used s d d') → (∀ f ∈ st.1.caches, used f.path) →
      ∀ f ∈ st.1.caches, f.dirty = false → ∀ entries, f.entries = some entries →
        load f.path st.2 = .ok entries :=
  ⟨h.tidy, fun _ _ _ hf hsame => h.tidy.openCache hf hsame st.2,
    fun _ hd hdetached hsettled hothers hused _ hf hclean _ hentries =>
      (h.current hd hdetached hsettled hothers hused).load hf hclean hentries⟩

theorem performAll {actions : List Action} (h : Life others dir timeout first st)
    (hactions : ∀ action ∈ actions, action.closes = false) :
    Life others dir timeout first (FileStore.performAll actions st) := by
  induction actions generalizing st with
  | nil => exact h
  | cons action actions ih =>
    exact ih (h.call action (hactions action (List.mem_cons_self ..))) fun a ha =>
      hactions a (List.mem_cons_of_mem _ ha)

/-- Nobody else is at work. -/
def nobody (_ : FileStore) (_ _ : Disk) : Prop :=
  False

theorem exists_of_seen (dir : Path) (timeout : Duration) (first : Disk) (actions : List Action)
    (seen : FileStore × Disk → Bool) (hactions : ∀ action ∈ actions, action.closes = false)
    (h : (outcome (openStore dir timeout first)).toOption.map (fun s =>
      seen (FileStore.performAll actions (s, endState (openStore dir timeout first)))) = some true) :
    ∃ st, Life nobody dir timeout first st ∧ seen st = true := by
  obtain ⟨s, hopened, hseen⟩ := Option.map_eq_some_iff.mp h
  cases hopen : openStore dir timeout first with
  | error e d =>
    rw [hopen] at hopened
    cases hopened
  | ok s₁ d =>
    rw [hopen] at hopened hseen
    cases hopened
    exact ⟨_, (Life.opened hopen).performAll hactions, hseen⟩

/-- A store that has made a directory for one of its files. -/
theorem represented_of_two :
    let a : Path := ⟨"store/a.bin"⟩
    let b : Path := ⟨"store/sub/b.bin"⟩
    ∃ st, Life nobody ⟨"store"⟩ .zero Crew.Shift.furnished st ∧ st.1.Tidy ∧ st.1.isLocked = true ∧
      load a st.2 = .ok [] ∧ load b st.2 = .ok [("1", [97])] := by
  intro a b
  let actions : List Action := [.openCache a, .openCache b, .get 0 "1", .edit 1 "1" (.put [97]), .leave]
  let used : Path → Prop := fun p => p = a ∨ p = b
  obtain ⟨st, hlife, hseen⟩ := exists_of_seen ⟨"store"⟩ .zero Crew.Shift.furnished actions
    (fun st => st.1.isLocked &&
      decide (st.1.caches = [⟨a, some [], false⟩, ⟨b, some [("1", [97])], false⟩]))
    (by decide) (by decide +kernel)
  rw [Bool.and_eq_true] at hseen
  have hcaches := of_decide_eq_true hseen.2
  obtain ⟨htidy, -, hcurrent⟩ := represented hlife
  have hdetached : Detached used ⟨"store"⟩ Crew.Shift.furnished.home := by
    refine ⟨.of_last fun p hp => ?_, fun p q hp hq => ?_⟩
    · rcases hp with rfl | rfl <;> decide
    · rcases hp with rfl | rfl <;> rcases hq with rfl | rfl <;> decide
  have hload := hcurrent used Crew.Shift.wellFormed_furnished hdetached
    (fun p hp => Disk.settled_of_no_up (by rcases hp with rfl | rfl <;> decide))
    (fun _ _ _ => False.elim) (by rw [hcaches]; simp [used])
  rw [hcaches] at hload
  exact ⟨st, hlife, htidy, hseen.1, hload ⟨a, some [], false⟩ (by simp) rfl _ rfl,
    hload ⟨b, some [("1", [97])], false⟩ (by simp) rfl _ rfl⟩

/-- Where a path leads through a directory that is missing, nothing is loaded, and that is no longer right once
the directory is made for another cache. -/
theorem outdated :
    ¬ ∀ (used : Path → Prop) (dir : Path) (timeout : Duration) (first : Disk) (st : FileStore × Disk),
      first.WellFormed → Detached used dir first.home → Life nobody dir timeout first st →
      (∀ f ∈ st.1.caches, used f.path) → ∀ f ∈ st.1.caches, f.dirty = false →
        ∀ entries, f.entries = some entries → load f.path st.2 = .ok entries := by
  intro hclaim
  let a : Path := ⟨"store/x/../a.bin"⟩
  let b : Path := ⟨"store/x/b.bin"⟩
  let actions : List Action := [.openCache a, .get 0 "k", .openCache b, .edit 1 "k" (.put [97]), .leave]
  let used : Path → Prop := fun p => p = a ∨ p = b
  obtain ⟨st, hlife, hseen⟩ := exists_of_seen ⟨"store"⟩ .zero stocked actions
    (fun st => decide (load a st.2 = .ok [("k", [118])]) &&
      decide (st.1.caches = [⟨a, some [], false⟩, ⟨b, some [("k", [97])], false⟩]))
    (by decide) (by decide +kernel)
  rw [Bool.and_eq_true] at hseen
  have hload := of_decide_eq_true hseen.1
  have hcaches := of_decide_eq_true hseen.2
  have hdetached : Detached used ⟨"store"⟩ stocked.home := by
    refine ⟨.of_last fun p hp => ?_, fun p q hp hq => ?_⟩
    · rcases hp with rfl | rfl <;> decide
    · rcases hp with rfl | rfl <;> rcases hq with rfl | rfl <;> decide
  have hempty := hclaim used _ _ _ _ wellFormed_stocked hdetached hlife (by rw [hcaches]; simp [used])
    ⟨a, some [], false⟩ (by rw [hcaches]; simp) rfl _ rfl
  cases hload.symm.trans hempty

end Life

end FileStore

end HistoryKeeper
