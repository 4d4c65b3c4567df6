import Mathlib.Data.List.Forall2
import HistoryKeeper.Proofs.Store.LockDiscipline
import HistoryKeeper.Proofs.Store.Tended
import HistoryKeeper.Store.Session

/-!
# Writing back that fails

A store writes its dirty files back in turn, up to the first that cannot be written. It loses nothing by
that (`FileStore.survives_failed_flush`): it keeps the lock and all that it has in memory, each file is on
the disk with its old bytes or with all of its new ones, and what was not written stays dirty.

Once whatever was in the way is gone, the next attempt that goes well brings every file to what the store
has in memory, if no two of its caches have the same file. Paths are compared by their components only, so
there can be two copies of one file in memory, of which the second is written over the first
(`Crew.Run.copy_lost`).
-/

namespace HistoryKeeper

open Disk (Extends Rewritten)
open CacheFile (Addressing encode kept touchedBeside)

variable {used : Path → Prop} {dir p : Path} {d d' d'' : Disk}

/-- A path leads to the same file, or to none, on both disks. -/
def Disk.SameFile (p : Path) (d d' : Disk) : Prop :=
  ∀ id content, d'.HasFile p id content ↔ d.HasFile p id content

theorem Disk.SameFile.trans (h : SameFile p d d') (h' : SameFile p d' d'') : SameFile p d d'' :=
  fun id content => (h' id content).trans (h id content)

namespace CacheFile

variable {changed : Location → Prop} {f f' : CacheFile}

theorem Addressing.sameFile (h : Addressing used dir d) (hext : Extends changed d d') (hp : used p)
    (hc : ¬ changed (p.location d.home)) : Disk.SameFile p d d' := by
  intro id content
  rw [Disk.hasFile_iff, Disk.hasFile_iff]
  exact hext.stat_eq_file_iff (h.shown p hp) hc

theorem kept_of_sameFile (h : Disk.SameFile p d d') : kept p d' = kept p d :=
  kept_congr fun id content => by rw [← Disk.hasFile_iff, ← Disk.hasFile_iff, h id content]

/-- How a file is written back: nothing is done, or all of it is written, or nothing is left of it. -/
inductive Flushing (f : CacheFile) (d : Disk) : EStateM.Result IoFault Disk CacheFile → Prop
  | idle : Flushing f d (.ok f d)
  | written {entries id d'} : f.dirty = true → f.entries = some entries →
      Rewritten (fun l content => l = f.path.location d.home ∧ content = encode entries)
        (touchedBeside d f.path) d d' →
      d'.HasFile f.path id (encode entries) → Flushing f d (.ok { f with dirty := false } d')
  | failed {fault d'} : f.dirty = true →
      Rewritten (fun _ _ => False) (touchedBeside d f.path) d d' → Flushing f d (.error fault d')

theorem flushing (hd : d.WellFormed) (f : CacheFile) : f.Flushing d (f.flush d) := by
  rw [flush_eq]
  split
  · rename_i hdirty
    split
    · exact .idle
    · rename_i entries hentries
      have hwrote := wrote_save hd f.path (encode entries)
      show Flushing f d (EStateM.bind (save f.path (encode entries)) _ d)
      unfold EStateM.bind
      cases hs : save f.path (encode entries) d with
      | ok u d' =>
        rw [hs] at hwrote
        obtain ⟨hrewritten, id, hfile⟩ := hwrote
        exact .written hdirty hentries hrewritten hfile
      | error fault d' =>
        rw [hs] at hwrote
        exact .failed hdirty hwrote
  · exact .idle

/-- What may come up on the disk when a file is written back. -/
def Writes (f : CacheFile) (home : Location) (l : Location) (content : Bytes) : Prop :=
  f.dirty = true ∧ l = f.path.location home ∧ ∃ entries, f.entries = some entries ∧ content = encode entries

theorem Flushing.rewritten {result : EStateM.Result IoFault Disk CacheFile} (hd : d.WellFormed)
    (h : f.Flushing d result) : Rewritten (f.Writes d.home)
      (fun l => f.dirty = true ∧ touchedBeside d f.path l) d (endState result) := by
  cases h with
  | idle => exact .refl hd
  | written hdirty hentries hrewritten hfile =>
    exact hrewritten.mono (fun l content hl => ⟨hdirty, hl.1, _, hentries, hl.2⟩) fun l hl => ⟨hdirty, hl⟩
  | failed hdirty hrewritten =>
    exact hrewritten.mono (fun _ _ => False.elim) fun l hl => ⟨hdirty, hl⟩

/-- In memory a file stays as it is when it is written back, or it was dirty and is clean now. -/
def Noted (f f' : CacheFile) : Prop :=
  f' = f ∨ f.dirty = true ∧ f.entries.isSome = true ∧ f' = { f with dirty := false }

theorem Noted.entries (h : f.Noted f') : f'.entries = f.entries := by
  rcases h with rfl | ⟨-, -, rfl⟩ <;> rfl

theorem noted_flush (h : f.flush d = .ok f' d') : f.Noted f' := by
  rw [flush_eq] at h
  split at h
  · rename_i hdirty
    split at h
    · cases h
      exact .inl rfl
    · rename_i entries hentries
      obtain ⟨-, d₁, -, hpure⟩ := bind_eq_ok_of h
      cases hpure
      exact .inr ⟨hdirty, by rw [hentries]; rfl, rfl⟩
  · cases h
    exact .inl rfl

/-- A file is as it was, in memory and on the disk, or it was dirty and is written and clean. -/
inductive Retained (d d' : Disk) (f : CacheFile) : CacheFile → Prop
  | untouched : Disk.SameFile f.path d d' → Retained d d' f f
  | written {entries id} : f.dirty = true → f.entries = some entries →
      d'.HasFile f.path id (encode entries) → Retained d d' f { f with dirty := false }

theorem Retained.before (h : Retained d' d'' f f') (hsame : Disk.SameFile f.path d d') :
    Retained d d'' f f' := by
  cases h with
  | untouched h => exact .untouched (hsame.trans h)
  | written hdirty hentries hfile => exact .written hdirty hentries hfile

theorem Retained.after (h : Retained d d' f f') (hsame : Disk.SameFile f.path d' d'') :
    Retained d d'' f f' := by
  cases h with
  | untouched h => exact .untouched (h.trans hsame)
  | written hdirty hentries hfile => exact .written hdirty hentries ((hsame _ _).mpr hfile)

end CacheFile

namespace FileStore

open CacheFile (Noted Retained)

variable {files files' : List CacheFile} {s s' : FileStore} {fault : IoFault} {e : StoreError}

theorem flushFiles_cons (f : CacheFile) (files : List CacheFile) (d : Disk) :
    flushFiles (f :: files) d = match f.flush d with
      | .ok f d => ((flushFiles files d).1, f :: (flushFiles files d).2.1, (flushFiles files d).2.2)
      | .error fault d => (.error fault, f :: files, d) :=
  rfl

/-- What comes up on the disk belongs to the files that are dirty, and is all that they have. -/
theorem rewritten_flushFiles (hd : d.WellFormed) (files : List CacheFile) :
    Rewritten (fun l content => ∃ f ∈ files, f.Writes d.home l content)
      (fun l => ∃ f ∈ files, f.dirty = true ∧ touchedBeside d f.path l) d (flushFiles files d).2.2 := by
  induction files generalizing d with
  | nil => exact .refl hd
  | cons f files ih =>
    have hfirst := (CacheFile.flushing hd f).rewritten hd
    rw [flushFiles_cons]
    have hmono : Rewritten (fun l content => ∃ g ∈ f :: files, g.Writes d.home l content)
        (fun l => ∃ g ∈ f :: files, g.dirty = true ∧ touchedBeside d g.path l) d
        (endState (f.flush d)) :=
      hfirst.mono (fun l content hl => ⟨f, List.mem_cons_self .., hl⟩)
        fun l hl => ⟨f, List.mem_cons_self .., hl⟩
    cases hf : f.flush d with
    | error fault d₁ =>
      rw [hf] at hmono
      exact hmono
    | ok f₁ d₁ =>
      rw [hf, endState_ok] at hmono
      have hrest := ih hmono.wellFormed
      unfold touchedBeside at hrest
      rw [hmono.ext.home, hmono.ext.processId] at hrest
      exact hmono.trans (hrest.mono (fun l content ⟨g, hg, hl⟩ => ⟨g, List.mem_cons_of_mem _ hg, hl⟩)
        fun l ⟨g, hg, hl⟩ => ⟨g, List.mem_cons_of_mem _ hg, hl⟩)

theorem noted_flushFiles (files : List CacheFile) (d : Disk) :
    List.Forall₂ Noted files (flushFiles files d).2.1 := by
  induction files generalizing d with
  | nil => exact .nil
  | cons f files ih =>
    rw [flushFiles_cons]
    cases hf : f.flush d with
    | error fault d₁ => exact List.forall₂_same.mpr fun g _ => .inl rfl
    | ok f₁ d₁ => exact .cons (CacheFile.noted_flush hf) (ih d₁)

/-- Where no two paths lead to one file, every file stays as it was or is all written. -/
theorem retained_flushFiles (h : Addressing used dir d) (hfiles : ∀ f ∈ files, f.Sound used d)
    (hdistinct : (files.map (·.path)).Nodup) :
    List.Forall₂ (Retained d (flushFiles files d).2.2) files (flushFiles files d).2.1 := by
  induction files generalizing d with
  | nil => exact .nil
  | cons f files ih =>
    rw [List.map_cons, List.nodup_cons] at hdistinct
    have hf := hfiles f (List.mem_cons_self ..)
    have hothers : ∀ g ∈ files, used g.path ∧ g.path ≠ f.path := fun g hg =>
      ⟨(hfiles g (List.mem_cons_of_mem _ hg)).used, fun he => hdistinct.1 (he ▸ List.mem_map_of_mem hg)⟩
    have hfirst := CacheFile.flushing h.wellFormed f
    have hspec := CacheFile.flush_spec h hf
    rw [flushFiles_cons]
    cases hr : f.flush d with
    | error fault d₁ =>
      rw [hr] at hspec
      obtain ⟨-, hext₁, -⟩ := hspec
      refine List.forall₂_same.mpr fun g hg => .untouched ?_
      have hused : used g.path := (hfiles g hg).used
      exact h.sameFile hext₁ hused fun hl => h.untouchedBeside hused hf.used hl.2
    | ok f₁ d₁ =>
      rw [hr] at hspec hfirst
      obtain ⟨-, haddr₁, hext₁, hf₁⟩ := hspec
      have hsame₁ : ∀ g ∈ files, Disk.SameFile g.path d d₁ := fun g hg =>
        h.sameFile hext₁ (hothers g hg).1 fun hl =>
          h.untouched (hothers g hg).1 hf.used (hothers g hg).2 hl.2
      have hfiles₁ : ∀ g ∈ files, g.Sound used d₁ := fun g hg =>
        (hfiles g (List.mem_cons_of_mem _ hg)).frame h hext₁ fun hl =>
          h.untouched (hothers g hg).1 hf.used (hothers g hg).2 hl.2
      have hrest := flushFiles_spec haddr₁ hfiles₁ hdistinct.2
      -- the files behind it do not touch the first one
      have hsame : Disk.SameFile f.path d₁ (flushFiles files d₁).2.2 :=
        haddr₁.sameFile hrest.ext hf.used (not_touched haddr₁ hfiles₁ hf.used fun g hg _ => (hothers g hg).2)
      refine .cons ?_ ?_
      · cases hfirst with
        | idle => exact .untouched hsame
        | written hdirty hentries _ hfile => exact (Retained.written hdirty hentries hfile).after hsame
      · refine ((List.forall₂_and_left _ _).mpr ⟨hsame₁, ih haddr₁ hfiles₁ hdistinct.2⟩).imp ?_
        exact fun g g' ⟨hsame, hretained⟩ => hretained.before hsame

theorem dirty_of_flushFiles (hd : d.WellFormed) (h : (flushFiles files d).1 = .error fault) :
    ∃ f ∈ files, f ∈ (flushFiles files d).2.1 ∧ f.dirty = true := by
  induction files generalizing d with
  | nil => cases h
  | cons f files ih =>
    have hfirst := CacheFile.flushing hd f
    have hwf := (hfirst.rewritten hd).wellFormed
    rw [flushFiles_cons] at h ⊢
    cases hf : f.flush d with
    | error fault d₁ =>
      rw [hf] at hfirst
      cases hfirst with
      | failed hdirty _ => exact ⟨f, List.mem_cons_self .., List.mem_cons_self .., hdirty⟩
    | ok f₁ d₁ =>
      rw [hf] at h hwf
      obtain ⟨g, hg, hg', hdirty⟩ := ih hwf h
      exact ⟨g, List.mem_cons_of_mem _ hg, List.mem_cons_of_mem _ hg', hdirty⟩

theorem exists_of_forall₂ {R : CacheFile → CacheFile → Prop} (h : List.Forall₂ R files files') {c : CacheId}
    {f : CacheFile} (hc : files[c]? = some f) : ∃ f', files'[c]? = some f' ∧ R f f' := by
  obtain ⟨hlt, rfl⟩ := List.getElem?_eq_some_iff.mp hc
  have hlt' : c < files'.length := h.length_eq ▸ hlt
  exact ⟨files'[c], List.getElem?_eq_getElem hlt', h.get hlt hlt'⟩

theorem lookup_of_loaded {c : CacheId} {f : CacheFile} {entries : Entries} (hheld : s.lockHeld = true)
    (hc : s.caches[c]? = some f) (hentries : f.entries = some entries) (key : String) (d : Disk) :
    lookup c key (s, d) = .ok (entries.get? key) (s, d) := by
  unfold lookup
  rw [access_eq, if_pos hheld, hc]
  simp only [CacheFile.loaded, hentries]
  obtain ⟨hlt, rfl⟩ := List.getElem?_eq_some_iff.mp hc
  rw [List.set_getElem_self]

/-! ### The store -/

/-- What a store, and whoever called it, has when it could not write back. -/
structure Intact (s : FileStore) (d : Disk) (e : StoreError) (s' : FileStore) (d' : Disk) : Prop where
  fault : ∃ fault, e = .io fault
  leave : leave (s, d) = .error e (s', d')
  release : release (s, d) = .error e (s', d')
  /-- Work that was done under the lock has been done. -/
  underLock : ∀ {session entered worked : Session FileStore Disk} {n answers work},
    session.call n Store.enter = some (.ok (), entered) → work entered = (answers, worked) →
    worked.stores[n]? = some s → worked.world = d →
      session.around n Store.enter Store.leave work =
        (.steps answers (some e), { worked with stores := worked.stores.set n s', world := d' })
  /-- A long operation is not started. -/
  longOperation : ∀ {session : Session FileStore Disk} {n} (work), session.stores[n]? = some s →
    session.world = d → session.around n Store.release Store.reacquire work =
      (.steps [] (some e), { session with stores := session.stores.set n s', world := d' })
  lock : s'.lock = s.lock
  lockHeld : s'.lockHeld = s.lockHeld
  locked : d'.locked = d.locked
  caches : List.Forall₂ Noted s.caches s'.caches
  /-- The file that could not be written at least is as it was. -/
  unfinished : ∃ f ∈ s.caches, f ∈ s'.caches ∧ f.dirty = true
  answers : ∀ {c f entries}, s.caches[c]? = some f → f.entries = some entries → ∀ key,
    lookup c key (s, d) = .ok (entries.get? key) (s, d) ∧
      lookup c key (s', d') = .ok (entries.get? key) (s', d')
  /-- Nothing else comes up on the disk than files with all that the caches have, in their places. -/
  files : ∀ {l id content}, d'.node? l = some (.file id content) →
    d.node? l = some (.file id content) ∨ ∃ f ∈ s.caches, f.Writes d.home l content
  stays : ∀ {l id content}, d.node? l = some (.file id content) →
    (∃ id' content', d'.node? l = some (.file id' content')) ∨
      ∃ f ∈ s.caches, f.dirty = true ∧ touchedBeside d f.path l

theorem flush_error (h : flush (s, d) = .error e (s', d')) : ∃ fault,
    e = .io fault ∧ (flushFiles s.caches d).1 = .error fault ∧
      s' = { s with caches := (flushFiles s.caches d).2.1 } ∧ d' = (flushFiles s.caches d).2.2 := by
  rw [flush_eq] at h
  split at h
  · cases h
  · rename_i fault hr
    cases h
    exact ⟨fault, rfl, hr, rfl, rfl⟩

theorem intact_of_flush (hd : d.WellFormed) (hlocked : s.isLocked = true) (hheld : s.lockHeld = true)
    (h : flush (s, d) = .error e (s', d')) : Intact s d e s' d' := by
  have hleave : leave (s, d) = .error e (s', d') := by rw [leave_eq, if_pos hlocked, h]
  have hrelease : release (s, d) = .error e (s', d') := by rw [release_eq, h]
  obtain ⟨fault, rfl, hr, rfl, rfl⟩ := flush_error h
  have hnoted := noted_flushFiles s.caches d
  have hrewritten := rewritten_flushFiles hd s.caches
  refine ⟨⟨fault, rfl⟩, hleave, hrelease, ?_, ?_, rfl, rfl, hrewritten.ext.locked, hnoted,
    dirty_of_flushFiles hd hr, ?_, hrewritten.origin, hrewritten.stays⟩
  · rintro session entered worked n answers work henter hwork hn rfl
    have hcall : worked.call n Store.leave = some (.error (.io fault), { worked with
        stores := worked.stores.set n { s with caches := (flushFiles s.caches worked.world).2.1 }
        world := (flushFiles s.caches worked.world).2.2 }) := by
      unfold Session.call
      rw [hn]
      simp only [Store.leave, hleave]
    unfold Session.around
    rw [henter]
    simp only [hwork, hcall]
  · rintro session n work hn rfl
    unfold Session.around Session.call
    rw [hn]
    simp only [Store.release, hrelease]
  · intro c f entries hc hentries key
    obtain ⟨f', hc', hf'⟩ := exists_of_forall₂ hnoted hc
    refine ⟨lookup_of_loaded hheld hc hentries key d, ?_⟩
    exact lookup_of_loaded (s := { s with caches := (flushFiles s.caches d).2.1 }) hheld hc'
      (hf'.entries.trans hentries) key _

/-- Others do something on the disk, but leave the files of the caches and the lock alone. -/
structure Spared (used : Path → Prop) (s : FileStore) (d d' : Disk) : Prop where
  addressing : Addressing used s.baseDir d'
  home : d'.home = d.home
  holds : HoldsLock (s, d) → HoldsLock (s, d')
  files : ∀ p, used p → Disk.SameFile p d d'

theorem Sound.of_sameFile (h : Sound used (s, d)) (haddr : Addressing used s.baseDir d')
    (hfiles : ∀ p, used p → Disk.SameFile p d d') : Sound used (s, d') := by
  refine ⟨haddr, fun f hf => ?_, h.distinct, h.held, h.idle⟩
  have hfile := h.files f hf
  refine ⟨hfile.used, hfile.ordered, hfile.dirty, fun hclean entries hentries => ?_⟩
  rw [CacheFile.kept_of_sameFile (hfiles _ hfile.used)]
  exact hfile.clean hclean hentries

theorem Spared.same (h : Spared used s d d') (hst : Sound used (s, d)) : Same used (s, d) (s, d') := by
  refine ⟨hst.of_sameFile h.addressing h.files, fun p hp => ?_, rfl, h.home, id⟩
  unfold content
  rw [CacheFile.kept_of_sameFile (h.files p hp)]

/-- A store is called, whatever the outcomes, and others are at work on the disk; with the changes that were
made to its caches. -/
inductive Meanwhile (used : Path → Prop) (start : FileStore × Disk) :
    List PendingWrite → FileStore × Disk → Prop
  | start : Meanwhile used start [] start
  | call {ws s d} (action : Action) : Meanwhile used start ws (s, d) → action.Uses used → action.closes = false →
      Meanwhile used start (ws ++ action.written s (outcome (action.perform (s, d))))
        (endState (action.perform (s, d)))
  | others {ws s d d'} : Meanwhile used start ws (s, d) → Spared used s d d' →
      Meanwhile used start ws (s, d')

theorem Meanwhile.performed {start st : FileStore × Disk} {ws : List PendingWrite}
    (h : Meanwhile used start ws st) (hsound : Sound used start) (hholds : HoldsLock start) :
    Performed used start st ws := by
  induction h with
  | start => exact (Same.refl hsound).performed hholds
  | call action _ huses hcloses ih =>
    have hcall := FileStore.performed ih.sound ih.holds huses hcloses
    refine ⟨hcall.sound, hcall.holds, hcall.baseDir.trans ih.baseDir, fun p hp => ?_⟩
    rw [hcall.content p hp, PendingWrite.contentAfter_append]
    exact PendingWrite.contentAfter_congr (ih.content p hp) _
  | others _ hspared ih =>
    have hsame := hspared.same ih.sound
    refine ⟨hsame.sound, hspared.holds ih.holds, ih.baseDir, fun p hp => ?_⟩
    exact (hsame.content p hp).trans (ih.content p hp)

theorem spared_of_remove {obstacle : Path} (h : Sound used (s, d)) (hremove : d.remove obstacle = .ok d')
    (hfiles : ∀ p, used p → p.location d.home ≠ obstacle.location d.home)
    (hlock : DirectoryLock.locationOf d.home s.baseDir ≠ obstacle.location d.home) : Spared used s d d' := by
  obtain ⟨hwf, hext⟩ := Disk.remove_ok h.addressing.wellFormed hremove
  exact ⟨h.addressing.mono hwf hext hfiles, hext.home,
    fun hholds => hholds.kept (DirectoryLock.Kept.of_extends hext hlock) rfl rfl,
    fun p hp => h.addressing.sameFile hext hp (hfiles p hp)⟩

/-- Calls in turn, whatever their outcomes. -/
def performAll (actions : List Action) (st : FileStore × Disk) : FileStore × Disk :=
  actions.foldl (fun st action => endState (action.perform st)) st

theorem Meanwhile.performAll {start st : FileStore × Disk} {ws : List PendingWrite} {actions : List Action}
    (h : Meanwhile used start ws st)
    (hactions : ∀ action ∈ actions, action.Uses used ∧ action.closes = false) :
    ∃ ws', Meanwhile used start ws' (performAll actions st) := by
  induction actions generalizing st ws with
  | nil => exact ⟨ws, h⟩
  | cons action actions ih =>
    obtain ⟨huses, hcloses⟩ := hactions action (List.mem_cons_self ..)
    exact ih (h.call action huses hcloses) fun a ha => hactions a (List.mem_cons_of_mem _ ha)

theorem sound_of_openStore {timeout : Duration} (h : Addressing used dir d)
    (hopen : openStore dir timeout d = .ok s d') : Sound used (s, d') ∧ HoldsLock (s, d') := by
  obtain ⟨d₁, htried, hlock⟩ := openStore_ok hopen h.wellFormed
  have hfresh := sound_fresh (h.mono htried.wellFormed htried.ext h.notLock) timeout
  have hsame := leads_ensureLocked used _ hfresh
  have hholds := (HoldsLock.of_unlocked (s := fresh dir timeout) (d := d₁) rfl).ensureLocked hfresh
  rw [hlock, endState_ok] at hsame hholds
  exact ⟨hsame.sound, hholds⟩

/-! ### Once it goes well -/

/-- Every file has what the store has in memory, and is written anew if it was dirty. -/
def UpToDate (s : FileStore) (d : Disk) : Prop :=
  ∀ f ∈ s.caches, ∀ entries, f.entries = some entries →
    kept f.path d = .ok entries ∧ (f.dirty = true → ∃ id, d.HasFile f.path id (encode entries))

theorem upToDate_of_flush (h : Sound used (s, d)) (hflush : flush (s, d) = .ok () (s', d')) :
    UpToDate s d' ∧ ∀ p, used p → kept p d' = content (s, d) p := by
  have hclean := clean_of_flush h hflush
  have hsame := leads_flush used (s, d) h
  rw [hflush, endState_ok] at hsame
  have hkept : ∀ p, used p → kept p d' = content (s, d) p := fun p hp => by
    rw [← content_of_clean hsame.sound hclean, hsame.content p hp]
  have hretained := retained_flushFiles h.addressing h.files h.distinct
  rw [flush_eq] at hflush
  split at hflush
  · cases hflush
    refine ⟨fun f hf entries hentries => ⟨?_, fun hdirty => ?_⟩, hkept⟩
    · rw [hkept f.path (h.files f hf).used, content, entriesOf_of_mem h.distinct hf, hentries]
      rfl
    · obtain ⟨c, hc⟩ := List.mem_iff_getElem?.mp hf
      obtain ⟨f', hc', hf'⟩ := exists_of_forall₂ hretained hc
      cases hf' with
      | untouched _ =>
        rw [hclean f (List.mem_of_getElem? hc')] at hdirty
        cases hdirty
      | written _ hentries' hfile =>
        cases hentries.symm.trans hentries'
        exact ⟨_, hfile⟩
  · cases hflush

theorem UpToDate.congr (h : UpToDate s d) (hnodes : d'.nodes = d.nodes) (hhome : d'.home = d.home) :
    UpToDate s d' := by
  intro f hf entries hentries
  obtain ⟨hkept, hwritten⟩ := h f hf entries hentries
  refine ⟨by rw [CacheFile.kept_of_nodes hnodes hhome, hkept], fun hdirty => ?_⟩
  obtain ⟨id, hfile⟩ := hwritten hdirty
  exact ⟨id, hfile.congr hnodes hhome⟩

/-- A store that leaves work under the lock, or starts a long operation, has brought its files up to date. -/
theorem upToDate_of_ok (h : Sound used (s, d))
    (hok : leave (s, d) = .ok () (s', d') ∨ release (s, d) = .ok () (s', d')) :
    UpToDate s d' ∧ ∀ p, used p → kept p d' = content (s, d) p := by
  rcases hok with hleave | hrelease
  · rw [leave_eq] at hleave
    split at hleave
    · exact upToDate_of_flush h hleave
    · rename_i hunlocked
      cases hleave
      have hidle := h.idle (by simpa using hunlocked)
      refine ⟨fun f hf entries hentries => ?_, fun p _ => ?_⟩
      · rw [(hidle f hf).1] at hentries
        cases hentries
      · exact (content_of_clean h (fun f hf => (hidle f hf).2) p).symm
  · rw [release_eq] at hrelease
    cases hflush : flush (s, d) with
    | error e st => rw [hflush] at hrelease; cases hrelease
    | ok u st =>
      obtain ⟨s₁, d₁⟩ := st
      rw [hflush] at hrelease
      cases hrelease
      obtain ⟨hnodes, hhome⟩ := freeLock_nodes s₁ d₁
      obtain ⟨hfiles, hkept⟩ := upToDate_of_flush h hflush
      exact ⟨hfiles.congr hnodes hhome, fun p hp => by rw [CacheFile.kept_of_nodes hnodes hhome, hkept p hp]⟩

/-- A disk on which there is a file where a store would need a directory. -/
def obstructed : Disk :=
  { Disk.empty ["home"] 1 with
    nodes := ((Disk.empty ["home"] 1).nodes.insert ["home", "store"] .directory).insert
      ["home", "store", "sub"] (.file 0 [])
    nextId := 1 }

theorem wellFormed_obstructed : obstructed.WellFormed := by
  have hstore : Disk.WellFormed { Disk.empty ["home"] 1 with
      nodes := (Disk.empty ["home"] 1).nodes.insert ["home", "store"] .directory } :=
    (Disk.wellFormed_empty ["home"] 1).insert (l := ["home", "store"]) (n := .directory) rfl
      (List.cons_ne_nil _ _) rfl nofun
  exact hstore.insert (l := ["home", "store", "sub"]) rfl (List.cons_ne_nil _ _) rfl nofun

/-- One file has a place there, the other one does not. -/
def twoPaths (p : Path) : Prop :=
  p = cachePath ⟨"store"⟩ "a" ∨ p = cachePath ⟨"store"⟩ "sub/b"

theorem addressing_obstructed : Addressing twoPaths ⟨"store"⟩ obstructed := by
  have hfiles : DistinctFiles ⟨"store"⟩ (fun n => n = "a" ∨ n = "sub/b") obstructed := by
    refine ⟨wellFormed_obstructed, fun n hn => Disk.shows_of_no_up wellFormed_obstructed ?_, fun m n hm hn => ?_⟩
    · rcases hn with rfl | rfl <;> decide
    · rcases hm with rfl | rfl <;> rcases hn with rfl | rfl <;> decide
  have hused : usedBy ⟨"store"⟩ (fun n => n = "a" ∨ n = "sub/b") = twoPaths := by
    funext p
    simp [usedBy, twoPaths]
  exact hused ▸ hfiles.addressing

/-- A store that cannot write back loses nothing. Where each of its caches has a file of its own, each file
is as it was or is all written, and the next time that it can write it brings every file to what it has in
memory: what it had, with the changes that were made since. -/
theorem survives_failed_flush (hd : d.WellFormed) (hlocked : s.isLocked = true) (hheld : s.lockHeld = true)
    (hflush : flush (s, d) = .error e (s', d')) :
    Intact s d e s' d' ∧
    ∀ used, Sound used (s, d) → HoldsLock (s, d) →
      List.Forall₂ (Retained d d') s.caches s'.caches ∧
      ∀ ws t k t' k', Meanwhile used (s', d') ws (t, k) →
        (leave (t, k) = .ok () (t', k') ∨ release (t, k) = .ok () (t', k')) →
          UpToDate t k' ∧ ∀ p, used p → kept p k' =
            PendingWrite.contentAfter (fun text => content (s, d) ⟨text⟩) ws p.text := by
  have hintact := intact_of_flush hd hlocked hheld hflush
  refine ⟨hintact, fun used hsound hholds => ⟨?_, fun ws t k t' k' hmeanwhile hok => ?_⟩⟩
  · obtain ⟨fault, -, -, rfl, rfl⟩ := flush_error hflush
    exact retained_flushFiles hsound.addressing hsound.files hsound.distinct
  · have hsame := leads_flush used (s, d) hsound
    have hholds' := hholds.flush hsound
    rw [hflush, endState_error] at hsame hholds'
    have hperformed := hmeanwhile.performed hsame.sound hholds'
    obtain ⟨hfiles, hkept⟩ := upToDate_of_ok hperformed.sound hok
    refine ⟨hfiles, fun p hp => ?_⟩
    rw [hkept p hp, hperformed.content p hp]
    exact PendingWrite.contentAfter_congr (hsame.content p hp) ws

/-- A store with two files, of which the second cannot be written until a file is out of the way. -/
theorem survives_failed_flush_of_obstacle :
    let a := cachePath ⟨"store"⟩ "a"
    let b := cachePath ⟨"store"⟩ "sub/b"
    ∃ s d e s' d' k t k', flush (s, d) = .error e (s', d') ∧ Intact s d e s' d' ∧
      d'.remove ⟨"store/sub"⟩ = .ok k ∧ leave (s', k) = .ok () (t, k') ∧
      kept a k' = .ok [("1", [97])] ∧ kept b k' = .ok [("2", [98])] := by
  intro a b
  let actions : List Action := [.openCache a, .openCache b, .edit 0 "1" (.put [97]), .edit 1 "2" (.put [98])]
  have hseen : (outcome (openStore ⟨"store"⟩ .zero obstructed)).toOption.bind (fun s₀ =>
      let st := performAll actions (s₀, endState (openStore ⟨"store"⟩ .zero obstructed))
      let st' := endState (flush st)
      (st'.2.remove ⟨"store/sub"⟩).toOption.map fun k =>
        (!(outcome (flush st)).toBool && (outcome (leave (st'.1, k))).toBool,
          st.1.isLocked && st.1.lockHeld, st'.1.baseDir, st'.2.home,
          decide (content st a = .ok [("1", [97])]), decide (content st b = .ok [("2", [98])]))) =
      some (true, true, ⟨"store"⟩, ["home"], true, true) := by decide +kernel
  have hactions : ∀ action ∈ actions, action.Uses twoPaths ∧ action.closes = false := by
    intro action haction
    simp only [actions, List.mem_cons, List.not_mem_nil, or_false] at haction
    rcases haction with rfl | rfl | rfl | rfl
    exacts [⟨.inl rfl, rfl⟩, ⟨.inr rfl, rfl⟩, ⟨trivial, rfl⟩, ⟨trivial, rfl⟩]
  obtain ⟨s₀, hopened, hseen⟩ := Option.bind_eq_some_iff.mp hseen
  cases hopen : openStore ⟨"store"⟩ .zero obstructed with
  | error e d => rw [hopen] at hopened; cases hopened
  | ok s₁ d₀ =>
    rw [hopen] at hopened hseen
    cases hopened
    obtain ⟨hsound₀, hholds₀⟩ := sound_of_openStore addressing_obstructed hopen
    have hstart : Meanwhile twoPaths (s₀, d₀) [] (s₀, d₀) := .start
    obtain ⟨ws, hmeanwhile⟩ := hstart.performAll hactions
    have hperformed := hmeanwhile.performed hsound₀ hholds₀
    obtain ⟨⟨s, d⟩, hst⟩ : ∃ st, st = performAll actions (s₀, d₀) := ⟨_, rfl⟩
    rw [← hst] at hperformed
    simp only [endState_ok, ← hst] at hseen
    obtain ⟨k, hremove, hseen⟩ := Option.map_eq_some_iff.mp hseen
    simp only [Prod.mk.injEq, Bool.and_eq_true, decide_eq_true_eq] at hseen
    obtain ⟨⟨hfailed, hleft⟩, ⟨hlocked, hheld⟩, hdir, hhome, ha, hb⟩ := hseen
    cases hflush : flush (s, d) with
    | ok u st => rw [hflush] at hfailed; cases hfailed
    | error e st =>
      obtain ⟨s', d'⟩ := st
      simp only [hflush, endState_error] at hremove hleft hdir hhome
      cases hremoved : d'.remove ⟨"store/sub"⟩ with
      | error fault => rw [hremoved] at hremove; cases hremove
      | ok k₁ =>
        rw [hremoved] at hremove
        cases hremove
        cases hleave : leave (s', k) with
        | error e st => rw [hleave] at hleft; cases hleft
        | ok u st =>
          obtain ⟨t, k'⟩ := st
          obtain ⟨hintact, hlater⟩ :=
            survives_failed_flush hperformed.sound.addressing.wellFormed hlocked hheld hflush
          obtain ⟨-, hrecovers⟩ := hlater _ hperformed.sound hperformed.holds
          have hsame := leads_flush _ (s, d) hperformed.sound
          rw [hflush, endState_error] at hsame
          have hspared : Spared twoPaths s' d' k := by
            refine spared_of_remove hsame.sound hremoved (fun p hp => ?_) ?_
            · rw [hhome]
              rcases hp with rfl | rfl <;> decide
            · rw [hhome, hdir]
              decide
          obtain ⟨-, hkept⟩ := hrecovers [] s' k t k' (.others .start hspared) (.inl hleave)
          refine ⟨s, d, e, s', d', k, t, k', hflush, hintact, hremoved, hleave, ?_, ?_⟩
          · exact (hkept a (.inl rfl)).trans ha
          · exact (hkept b (.inr rfl)).trans hb

end FileStore

/-- Two caches of one file: what the first has is lost when the files are written after all. -/
theorem Crew.Run.copy_lost :
    ¬ ∀ (d disk : Disk) (crew crew' crew'' : Crew) (n : Nat) (e : StoreError) (obstacle : Path) (h : Holder),
      d.WellFormed → Run d crew → crew.step (.call n .leave) = some (.error e, crew') →
      crew'.disk.remove obstacle = .ok disk →
      { crew' with disk }.step (.call n .leave) = some (.ok .done, crew'') → crew''.holders[n]? = some h →
      ∀ f ∈ h.store.caches, ∀ entries, f.entries = some entries → kept f.path crew''.disk = .ok entries := by
  intro hclaim
  let deeds : List Deed := [.openStore ⟨"store"⟩ .zero, .call 0 (.openCache ⟨"store/a.bin"⟩),
    .call 0 (.openCache ⟨"store/../store/a.bin"⟩), .call 0 (.openCache ⟨"store/sub/b.bin"⟩),
    .call 0 (.edit 0 "1" (.put [97])), .call 0 (.edit 1 "2" (.put [98])), .call 0 (.edit 2 "3" (.put [99]))]
  have hseen : ((Crew.replay { holders := [], disk := FileStore.obstructed } deeds).bind fun crew =>
      (crew.step (.call 0 .leave)).bind fun x =>
        (x.2.disk.remove ⟨"store/sub"⟩).toOption.bind fun disk =>
          ({ x.2 with disk }.step (.call 0 .leave)).bind fun y =>
            y.2.holders[0]?.bind fun h => h.store.caches[0]?.map fun (f : CacheFile) =>
              (x.1.toOption, y.1.toOption, decide (f.entries = some [("1", [97])]),
                decide (kept f.path y.2.disk = Except.ok [("2", [98])]))) =
      some (none, some .done, true, true) := by decide +kernel
  obtain ⟨crew, hreplay, hseen⟩ := Option.bind_eq_some_iff.mp hseen
  obtain ⟨⟨result, crew'⟩, hfails, hseen⟩ := Option.bind_eq_some_iff.mp hseen
  obtain ⟨disk, hremove, hseen⟩ := Option.bind_eq_some_iff.mp hseen
  obtain ⟨⟨result', crew''⟩, hsucceeds, hseen⟩ := Option.bind_eq_some_iff.mp hseen
  obtain ⟨h, hn, hseen⟩ := Option.bind_eq_some_iff.mp hseen
  obtain ⟨f, hf, hseen⟩ := Option.map_eq_some_iff.mp hseen
  simp only [Prod.mk.injEq, decide_eq_true_eq] at hseen
  obtain ⟨hresult, hresult', hentries, hkept⟩ := hseen
  cases result with
  | ok response => cases hresult
  | error e =>
    cases result' with
    | error e' => cases hresult'
    | ok response =>
      cases hresult'
      have hremove' : crew'.disk.remove ⟨"store/sub"⟩ = .ok disk := by
        cases hr : crew'.disk.remove ⟨"store/sub"⟩ with
        | error fault => rw [hr] at hremove; cases hremove
        | ok d => rw [hr] at hremove; cases hremove; rfl
      have hbrought := hclaim _ disk crew crew' crew'' 0 e _ h FileStore.wellFormed_obstructed
        (.replay .start hreplay) hfails hremove' hsucceeds hn f (List.mem_of_getElem? hf) _ hentries
      rw [hkept] at hbrought
      exact absurd hbrought (by decide)

end HistoryKeeper
