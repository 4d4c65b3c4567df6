import HistoryKeeper.Proofs.Store.Action
import HistoryKeeper.Proofs.Store.Rewritten

/-!
# Which files stores rewrite

`Disk.Tended rewritten dirs d d'`: stores of the directories `dirs` have been at work between `d` and `d'`
and wrote back no other files than those of the paths in `rewritten`. Every file of `d'` lay there before
with the same bytes, is one that was written back, or belongs to a lock whose file was missing.

A file is rewritten only if it is dirty. So for a store it is enough to know which of its files may be
dirty, and which may be loaded (`FileStore.Tame`): no call of a tame store rewrites anything else, whether
it succeeds or fails (`FileStore.tends_perform`).
-/

namespace HistoryKeeper

open Disk (Extends HasFile nowhere)
open CacheFile (temporary)

variable {used legible rewritten rewritten' dirs : Path → Prop} {p : Path} {d d' d'' : Disk}
  {content : Bytes} {l : Location}

theorem DirectoryLock.locationOf_ne_temporary (home : Location) (dir p : Path) (processId : Nat) :
    locationOf home dir ≠ (temporary p processId).location home := by
  intro he
  obtain ⟨c, hdigit, htemporary⟩ := endsWith_temporary p processId home
  rw [← he] at htemporary
  rw [htemporary.unique (endsWith_lock dir home)] at hdigit
  exact absurd hdigit (by decide)

/-- The path can lead to a file: it does not go on behind its end. -/
structure Path.ForFile (home : Location) (p : Path) : Prop where
  fits : p.Fits
  slash : p.hasTrailingSlash = false
  ends : ∀ pre s post, p.segments = pre ++ s :: post →
    Path.walk (p.start home) pre ≠ p.location home

theorem Disk.HasFile.forFile {id : FileId} (h : d.HasFile p id content) : p.ForFile d.home := by
  refine ⟨h.fits, h.slash, fun pre s post he hend => ?_⟩
  have hdir := h.passable pre s post he
  rw [hend, h.file] at hdir
  cases hdir

/-- A settled path leads to the file that lies in its place. -/
theorem Disk.Settled.hasFile {id : FileId} (h : d.Settled p) (hd : d.WellFormed)
    (hp : p.ForFile d.home) (hfile : d.node? (p.location d.home) = some (.file id content)) :
    d.HasFile p id content := by
  refine ⟨hp.fits, fun pre s post he => ?_, hp.slash, hfile⟩
  rcases h pre (s :: post) he with habove | hdir
  · exact hd.above hfile habove (hp.ends pre s post he)
  · exact hdir

/-- A file in the place of a path, as caches are written back. -/
structure CacheFile.WrittenBack (home : Location) (p : Path) (l : Location) (content : Bytes) :
    Prop where
  forFile : p.ForFile home
  location : l = p.location home
  legible : ∃ entries, decode content = .ok entries

open CacheFile (WrittenBack)
open Disk (Rewritten)

namespace Disk

structure Tended (rewritten dirs : Path → Prop) (d d' : Disk) : Prop where
  wellFormed : d'.WellFormed
  home : d'.home = d.home
  directory : ∀ {l}, d.node? l = some .directory → d'.node? l = some .directory
  /-- Files do not vanish, unless something was written beside another file under their name. -/
  file : ∀ {l id content}, d.node? l = some (.file id content) →
    (∃ id content, d'.node? l = some (.file id content)) ∨
      ∃ p, rewritten p ∧ ∃ processId, l = (temporary p processId).location d.home
  origin : ∀ {l id content}, d'.node? l = some (.file id content) →
    d.node? l = some (.file id content) ∨ (∃ p, rewritten p ∧ WrittenBack d.home p l content) ∨
      (∃ dir, dirs dir ∧ l = DirectoryLock.locationOf d.home dir) ∧
        ∀ id content, d.node? l ≠ some (.file id content)

namespace Tended

theorem of_extends (hwf : d'.WellFormed) (h : Extends nowhere d d') : Tended rewritten dirs d d' :=
  ⟨hwf, h.home, h.directory, fun hl => .inl ⟨_, _, (h.file not_false).mpr hl⟩,
    fun hl => .inl ((h.file not_false).mp hl)⟩

theorem refl (hd : d.WellFormed) : Tended rewritten dirs d d :=
  of_extends hd (Extends.refl _ d)

theorem mono (h : Tended rewritten dirs d d') (hr : ∀ p, rewritten p → rewritten' p) :
    Tended rewritten' dirs d d' := by
  refine ⟨h.wellFormed, h.home, h.directory, fun hl => ?_, fun hl => ?_⟩
  · exact (h.file hl).imp_right fun ⟨p, hp, ht⟩ => ⟨p, hr p hp, ht⟩
  · rcases h.origin hl with hold | ⟨p, hp, hwritten⟩ | hlock
    · exact .inl hold
    · exact .inr (.inl ⟨p, hr p hp, hwritten⟩)
    · exact .inr (.inr hlock)

theorem trans (h : Tended rewritten dirs d d') (h' : Tended rewritten dirs d' d'') :
    Tended rewritten dirs d d'' := by
  refine ⟨h'.wellFormed, h'.home.trans h.home, fun hl => h'.directory (h.directory hl),
    fun {l id content} hl => ?_, fun {l id content} hl => ?_⟩
  · rcases h.file hl with ⟨id', content', hl'⟩ | htemporary
    · rw [← h.home]
      exact h'.file hl'
    · exact .inr htemporary
  · have hl' := h'.origin hl
    rw [h.home] at hl'
    rcases hl' with hold | hwritten | ⟨⟨dir, hdir, rfl⟩, hnone⟩
    · exact h.origin hold
    · exact .inr (.inl hwritten)
    -- a lock's file that was missing later was missing before: it is not one that vanishes
    · refine .inr (.inr ⟨⟨dir, hdir, rfl⟩, fun id content hfile => ?_⟩)
      rcases h.file hfile with ⟨id', content', hfile'⟩ | ⟨p, -, processId, he⟩
      · exact hnone id' content' hfile'
      · exact DirectoryLock.locationOf_ne_temporary _ _ _ _ he

theorem of_nodes (hd : d.WellFormed) (hnodes : d'.nodes = d.nodes) (hhome : d'.home = d.home) :
    Tended rewritten dirs d d' := by
  refine ⟨hd.congr hnodes, hhome, fun {l} hl => ?_, fun {l id content} hl => ?_,
    fun {l id content} hl => ?_⟩
  · rw [node?_congr hnodes, hl]
  · exact .inl ⟨id, content, by rw [node?_congr hnodes, hl]⟩
  · exact .inl (by rw [← node?_congr hnodes, hl])

theorem of_tried {dir : Path} (hdir : dirs dir) (h : DirectoryLock.Tried dir d d') :
    Tended rewritten dirs d d' := by
  refine ⟨h.wellFormed, h.ext.home, h.ext.directory, fun {l id content} hl => ?_,
    fun {l id content} hl => ?_⟩
  · by_cases he : l = DirectoryLock.locationOf d.home dir
    · subst he
      exact .inl ⟨id, content, h.old hl⟩
    · exact .inl ⟨id, content, (h.ext.file he).mpr hl⟩
  · by_cases he : l = DirectoryLock.locationOf d.home dir
    · subst he
      by_cases hmissing : ∃ id content,
          d.node? (DirectoryLock.locationOf d.home dir) = some (.file id content)
      · obtain ⟨id', content', hfile⟩ := hmissing
        rw [h.old hfile] at hl
        exact .inl (hfile.trans hl)
      · exact .inr (.inr ⟨⟨dir, hdir, rfl⟩, fun id content hfile => hmissing ⟨id, content, hfile⟩⟩)
    · exact .inl ((h.ext.file he).mp hl)

/-- A file in a place where nothing is written back is still there. -/
theorem hasFile {id : FileId} (h : Tended rewritten dirs d d') (hfile : d.HasFile p id content)
    (hplace : ∀ q, rewritten q → p.location d.home ≠ q.location d.home ∧
      ∀ processId, p.location d.home ≠ (temporary q processId).location d.home) :
    d'.HasFile p id content := by
  have hfound : d'.node? (p.location d.home) = some (.file id content) := by
    rcases h.file hfile.file with ⟨id', content', hfound⟩ | ⟨q, hq, processId, htemporary⟩
    · rcases h.origin hfound with hsame | ⟨q, hq, hwritten⟩ | ⟨-, hnone⟩
      · rw [hfound, ← hsame, hfile.file]
      · exact absurd hwritten.location (hplace q hq).1
      · exact absurd hfile.file (hnone id content)
    · exact absurd htemporary ((hplace q hq).2 processId)
  refine ⟨hfile.fits, fun pre s post he => ?_, hfile.slash, by rwa [h.home]⟩
  rw [h.home]
  exact h.directory (hfile.passable pre s post he)

theorem settled (h : Tended rewritten dirs d d') (hs : d.Settled p) : d'.Settled p :=
  hs.of_directories h.home h.directory

/-- Files are written in the place of paths that may be rewritten, and beside them. -/
theorem of_rewritten {written : Location → Bytes → Prop} {beside : Location → Prop}
    (h : Rewritten written beside d d')
    (hwritten : ∀ l content, written l content → ∃ p, rewritten p ∧ WrittenBack d.home p l content)
    (hbeside : ∀ l, beside l → ∃ p, rewritten p ∧ ∃ processId, l = (temporary p processId).location d.home) :
    Tended rewritten dirs d d' :=
  ⟨h.wellFormed, h.ext.home, h.ext.directory, fun hl => (h.stays hl).imp_right (hbeside _),
    fun hl => (h.origin hl).imp_right fun hw => .inl (hwritten _ _ hw)⟩

end Tended

/-- A computation that tends the disk. -/
def Tends (rewritten dirs : Path → Prop) (d d' : Disk) : Prop :=
  d.WellFormed → Tended rewritten dirs d d'

theorem Tends.trans (h : Tends rewritten dirs d d') (h' : Tends rewritten dirs d' d'') :
    Tends rewritten dirs d d'' :=
  fun hd => (h hd).trans (h' (h hd).wellFormed)

theorem tends_createDirs (p : Path) : Leads (Tends rewritten dirs) (createDirs p) := fun d hd =>
  have ⟨hwf, hext⟩ := leads_createDirs p d hd
  .of_extends hwf hext

end Disk

open Disk (Tended Tends)

/-! ### Files -/

namespace CacheFile

theorem tends_save (hp : rewritten p) (hlegible : ∃ entries, decode content = .ok entries) :
    Leads (Tends rewritten dirs) (save p content) := by
  intro d hd
  have hwrote := wrote_save hd p content
  have hbeside : ∀ l, touchedBeside d p l →
      ∃ p, rewritten p ∧ ∃ processId, l = (temporary p processId).location d.home :=
    fun l hl => ⟨p, hp, d.processId, hl⟩
  cases hs : save p content d with
  | error fault d' =>
    rw [hs] at hwrote
    exact .of_rewritten hwrote (fun _ _ => False.elim) hbeside
  | ok u d' =>
    rw [hs] at hwrote
    obtain ⟨hrewritten, id, hfile⟩ := hwrote
    have hforFile := hfile.forFile
    rw [hrewritten.ext.home] at hforFile
    refine .of_rewritten hrewritten ?_ hbeside
    rintro l c ⟨hl, rfl⟩
    exact ⟨p, hp, hforFile, hl, hlegible⟩

/-- What may be loaded and what may be dirty. -/
structure Tame (used legible rewritten : Path → Prop) (f : CacheFile) : Prop where
  used : used f.path
  ordered : ∀ {entries}, f.entries = some entries → entries.Ordered
  legible : f.entries.isSome = true → legible f.path
  dirty : f.dirty = true → rewritten f.path

variable {f f' : CacheFile} {entries : Entries}

theorem Tame.mono (h : f.Tame used legible rewritten) (hr : ∀ p, rewritten p → rewritten' p) :
    f.Tame used legible rewritten' :=
  ⟨h.used, h.ordered, h.legible, fun hdirty => hr _ (h.dirty hdirty)⟩

theorem flush_eq (f : CacheFile) (d : Disk) : f.flush d =
    if f.dirty then
      match f.entries with
      | none => .ok f d
      | some entries => (save f.path (encode entries) >>= fun _ => pure { f with dirty := false }) d
    else .ok f d := by
  unfold flush
  cases f.dirty with
  | false => rfl
  | true => cases f.entries <;> rfl

theorem tends_flush (h : f.Tame used legible rewritten) : Leads (Tends rewritten dirs) f.flush := by
  intro d hd
  rw [flush_eq]
  split
  · rename_i hdirty
    split
    · exact Tended.refl hd
    · rename_i entries hentries
      have hlegible : ∃ entries', decode (encode entries) = .ok entries' :=
        ⟨entries, decode_encode (h.ordered hentries)⟩
      have hsaved : Leads (Tends rewritten dirs) (save f.path (encode entries) >>= fun _ =>
          pure { f with dirty := false }) :=
        Leads.bind Tends.trans (tends_save (h.dirty hdirty) hlegible) fun _ =>
          Leads.pure (fun _ => Tended.refl) _
      exact hsaved d hd
  · exact Tended.refl hd

theorem tame_flush (h : f.Tame used legible rewritten) (hok : f.flush d = .ok f' d') :
    f'.Tame used legible rewritten := by
  rw [flush_eq] at hok
  split at hok
  · split at hok
    · cases hok
      exact h
    · obtain ⟨-, d₁, -, hpure⟩ := bind_eq_ok_of hok
      cases hpure
      exact ⟨h.used, h.ordered, h.legible, nofun⟩
  · cases hok
    exact h

/-- A file can be loaded if what the disk has for it is legible. -/
theorem tame_loaded (h : f.Tame used legible rewritten) (hok : f.loaded d = .ok (f', entries))
    (hload : load f.path d = .ok entries → legible f.path) :
    f'.path = f.path ∧ f'.Tame used legible rewritten ∧ entries.Ordered ∧ legible f.path := by
  unfold loaded at hok
  cases he : f.entries with
  | some e =>
    rw [he] at hok
    cases hok
    exact ⟨rfl, h, h.ordered he, h.legible (by rw [he]; rfl)⟩
  | none =>
    rw [he] at hok
    cases hl : load f.path d with
    | error e =>
      rw [hl] at hok
      cases hok
    | ok e =>
      rw [hl] at hok
      cases hok
      have hordered := ordered_of_kept (kept_of_load hl)
      refine ⟨rfl, ⟨h.used, fun {e} he => ?_, fun _ => hload hl, h.dirty⟩, hordered, hload hl⟩
      cases he
      exact hordered

end CacheFile

/-- Whether a change makes a difference to these entries, or just might. -/
def Change.alters (key : String) (entries : Entries) : Change → Bool
  | .put _ => true
  | .remove => entries.contains key

namespace FileStore

/-- The path that a call makes a store write back: what was put counts, and what was removed if it was
there. -/
def Action.altered (action : Action) (s : FileStore) (d : Disk) : List Path :=
  match action, outcome (action.perform (s, d)) with
  | edit c key change, .ok _ =>
    match s.caches[c]? with
    | none => []
    | some f =>
      match f.loaded d with
      | .error _ => []
      | .ok (_, entries) => if change.alters key entries then [f.path] else []
  | _, _ => []

structure Tame (used legible rewritten dirs : Path → Prop) (s : FileStore) : Prop where
  dir : dirs s.baseDir
  files : ∀ f ∈ s.caches, f.Tame used legible rewritten

variable {files : List CacheFile} {s : FileStore} {action : Action}

theorem Tame.mono (h : s.Tame used legible rewritten dirs) (hr : ∀ p, rewritten p → rewritten' p) :
    s.Tame used legible rewritten' dirs :=
  ⟨h.dir, fun f hf => (h.files f hf).mono hr⟩

theorem tends_flushFiles (dirs : Path → Prop) (hd : d.WellFormed)
    (hfiles : ∀ f ∈ files, f.Tame used legible rewritten) :
    Tended rewritten dirs d (flushFiles files d).2.2 ∧
      ∀ f ∈ (flushFiles files d).2.1, f.Tame used legible rewritten := by
  induction files generalizing d with
  | nil => exact ⟨Tended.refl hd, hfiles⟩
  | cons f files ih =>
    have hf := hfiles f (List.mem_cons_self ..)
    have htended : Tended rewritten dirs d (endState (f.flush d)) := CacheFile.tends_flush hf d hd
    unfold flushFiles
    cases hr : f.flush d with
    | error fault d₁ =>
      rw [hr] at htended
      exact ⟨htended, hfiles⟩
    | ok f₁ d₁ =>
      rw [hr, endState_ok] at htended
      obtain ⟨htail, htame⟩ := ih htended.wellFormed fun g hg => hfiles g (List.mem_cons_of_mem _ hg)
      refine ⟨htended.trans htail, fun g hg => ?_⟩
      rcases List.mem_cons.mp hg with rfl | hg
      · exact CacheFile.tame_flush hf hr
      · exact htame g hg

/-- A call that rewrites nothing that it may not. -/
def Tends (used legible rewritten dirs : Path → Prop) (st st' : FileStore × Disk) : Prop :=
  st.2.WellFormed → st.1.Tame used legible rewritten dirs →
    Tended rewritten dirs st.2 st'.2 ∧ st'.1.Tame used legible rewritten dirs

theorem Tends.trans {st st' st'' : FileStore × Disk} (h : Tends used legible rewritten dirs st st')
    (h' : Tends used legible rewritten dirs st' st'') : Tends used legible rewritten dirs st st'' := by
  intro hd hs
  obtain ⟨htended, hs'⟩ := h hd hs
  obtain ⟨htended', hs''⟩ := h' htended.wellFormed hs'
  exact ⟨htended.trans htended', hs''⟩

theorem tends_flush : Leads (Tends used legible rewritten dirs) flush := by
  rintro ⟨s, d⟩ hd hs
  have hflushed := tends_flushFiles dirs hd hs.files
  rw [flush_eq]
  split <;> exact ⟨hflushed.1, hs.dir, hflushed.2⟩

theorem tends_leave : Leads (Tends used legible rewritten dirs) leave := by
  rintro ⟨s, d⟩ hd hs
  rw [leave_eq]
  split
  · exact tends_flush (s, d) hd hs
  · exact ⟨Tended.refl hd, hs⟩

theorem tends_ensureLocked : Leads (Tends used legible rewritten dirs) ensureLocked := by
  rintro ⟨s, d⟩ hd hs
  have hspec := DirectoryLock.acquire_spec hd s.baseDir s.lockTimeout
  rw [ensureLocked_eq]
  split
  · exact ⟨Tended.refl hd, hs⟩
  · cases hr : DirectoryLock.acquire s.baseDir s.lockTimeout d with
    | error e d' =>
      rw [hr] at hspec
      exact ⟨.of_tried hs.dir hspec.1, hs⟩
    | ok lock d' =>
      rw [hr] at hspec
      obtain ⟨d₁, htried, -, rfl, -⟩ := hspec
      have htended : Tended rewritten dirs d d₁ := .of_tried hs.dir htried
      exact ⟨htended.trans (.of_nodes htried.wellFormed rfl rfl), hs.dir, hs.files⟩

theorem tame_freeLock (h : s.Tame used legible rewritten dirs) (d : Disk) :
    (s.freeLock d).1.Tame used legible rewritten dirs := by
  unfold freeLock
  split
  · exact ⟨h.dir, h.files⟩
  · exact h

theorem tends_freeLock (s : FileStore) (d : Disk) :
    Tends used legible rewritten dirs (s, d) (s.freeLock d) := fun hd hs =>
  ⟨.of_nodes hd (freeLock_nodes s d).1 (freeLock_nodes s d).2, tame_freeLock hs d⟩

theorem tends_unlock : Leads (Tends used legible rewritten dirs) unlock := by
  rintro ⟨s, d⟩ hd hs
  obtain ⟨htended, htame⟩ := tends_freeLock s d hd hs
  exact ⟨htended, htame.dir, htame.files⟩

theorem tends_forget : Leads (Tends used legible rewritten dirs) forget := by
  rintro ⟨s, d⟩ hd hs
  refine ⟨Tended.refl hd, hs.dir, fun f hf => ?_⟩
  obtain ⟨g, hg, rfl⟩ := List.mem_map.mp hf
  have htame := hs.files g hg
  exact ⟨htame.used, nofun, nofun, htame.dirty⟩

theorem tends_release : Leads (Tends used legible rewritten dirs) release :=
  Leads.bind Tends.trans tends_flush fun _ => Leads.bind Tends.trans tends_forget fun _ => tends_unlock

theorem tends_close : Leads (Tends used legible rewritten dirs) close :=
  Leads.bind Tends.trans tends_leave fun _ => tends_unlock

theorem tends_openCache (hp : used p) : Leads (Tends used legible rewritten dirs) (openCache p) := by
  rintro ⟨s, d⟩ hd hs
  rw [openCache_eq]
  split
  · exact ⟨Tended.refl hd, hs⟩
  · refine ⟨Tended.refl hd, hs.dir, fun f hf => ?_⟩
    rcases List.mem_append.mp hf with hf | hf
    · exact hs.files f hf
    · rw [List.mem_singleton.mp hf]
      exact ⟨hp, nofun, nofun, nofun⟩

/-- An access goes by the file that it finds, once that is loaded. -/
theorem tends_access {α : Type} {c : CacheId} {g : CacheFile → Entries → α × CacheFile}
    (hload : ∀ p entries, used p → CacheFile.load p d = .ok entries → legible p)
    (hg : ∀ f f' entries, s.caches[c]? = some f → s.lockHeld = true → f.loaded d = .ok (f', entries) →
      f'.path = f.path → legible f.path → entries.Ordered → f'.Tame used legible rewritten →
      (g f' entries).2.Tame used legible rewritten) :
    Tends used legible rewritten dirs (s, d) (endState (access c g (s, d))) := by
  intro hd hs
  rw [access_eq]
  split
  · rename_i hheld
    split
    · exact ⟨Tended.refl hd, hs⟩
    · rename_i f hf
      split
      · exact ⟨Tended.refl hd, hs⟩
      · rename_i f' entries hloaded
        have hfile := hs.files f (List.mem_of_getElem? hf)
        obtain ⟨hpath, htame, hordered, hlegible⟩ :=
          CacheFile.tame_loaded hfile hloaded (hload f.path entries hfile.used)
        refine ⟨Tended.refl hd, hs.dir, fun x hx => ?_⟩
        rcases List.mem_or_eq_of_mem_set hx with hold | rfl
        · exact hs.files x hold
        · exact hg f f' entries hf hheld hloaded hpath hlegible hordered htame
  · exact ⟨Tended.refl hd, hs⟩

theorem call_eq (c : CacheId) (key : String) (change : Change) :
    (change.call c key : Call Unit) = access c fun file entries =>
      ((), if change.alters key entries then
        { file with entries := some (change.applyTo key entries), dirty := true } else file) := by
  cases change <;> rfl

theorem outcome_edit_of_loaded {c : CacheId} {key : String} {change : Change} {f f' : CacheFile}
    {entries : Entries} (hheld : s.lockHeld = true) (hf : s.caches[c]? = some f)
    (hloaded : f.loaded d = .ok (f', entries)) :
    outcome ((Action.edit c key change).perform (s, d)) = .ok .done := by
  show outcome (((fun _ => Response.done) <$> change.call c key : Call Response) (s, d)) = _
  rw [outcome_map, call_eq, access_eq, if_pos hheld, hf]
  simp only [hloaded]
  rfl

theorem altered_edit {c : CacheId} {key : String} {change : Change} {f f' : CacheFile}
    {entries : Entries} (hheld : s.lockHeld = true) (hf : s.caches[c]? = some f)
    (hloaded : f.loaded d = .ok (f', entries)) (halters : change.alters key entries = true) :
    (Action.edit c key change).altered s d = [f.path] := by
  unfold Action.altered
  rw [outcome_edit_of_loaded hheld hf hloaded]
  simp only [hf, hloaded, halters, if_true]

theorem tends_perform (action : Action) (huses : action.Uses used)
    (hload : ∀ p entries, used p → CacheFile.load p d = .ok entries → legible p)
    (haltered : ∀ p ∈ action.altered s d, rewritten p) :
    Tends used legible rewritten dirs (s, d) (endState (action.perform (s, d))) := by
  cases action with
  | openCache file =>
    rw [Action.perform, endState_map]
    exact tends_openCache huses (s, d)
  | get c key =>
    rw [Action.perform, endState_map]
    exact tends_access hload fun _ _ _ _ _ _ _ _ _ htame => htame
  | edit c key change =>
    rw [Action.perform, endState_map, call_eq]
    refine tends_access hload fun f f' entries hf hheld hloaded hpath hlegible hordered htame => ?_
    dsimp only
    split
    · rename_i halters
      have hrewritten : rewritten f.path :=
        haltered f.path (by rw [altered_edit hheld hf hloaded halters]; exact List.mem_singleton_self _)
      refine ⟨htame.used, fun {e} he => ?_, fun _ => hpath ▸ hlegible, fun _ => hpath ▸ hrewritten⟩
      cases he
      cases change with
      | put value => exact hordered.insert key value
      | remove => exact hordered.erase key
    · exact htame
  | enter | reacquire =>
    rw [Action.perform, endState_map]
    exact tends_ensureLocked (s, d)
  | leave =>
    rw [Action.perform, endState_map]
    exact tends_leave (s, d)
  | release =>
    rw [Action.perform, endState_map]
    exact tends_release (s, d)
  | close =>
    rw [Action.perform, endState_map]
    exact tends_close (s, d)

theorem legible_of_altered (hs : s.Tame used legible rewritten dirs)
    (hload : ∀ p entries, used p → CacheFile.load p d = .ok entries → legible p)
    (hp : p ∈ action.altered s d) : legible p := by
  unfold Action.altered at hp
  split at hp
  · split at hp
    · cases hp
    · rename_i f hf
      split at hp
      · cases hp
      · rename_i f' entries hloaded
        have hfile := hs.files f (List.mem_of_getElem? hf)
        obtain ⟨-, -, -, hlegible⟩ :=
          CacheFile.tame_loaded hfile hloaded (hload f.path entries hfile.used)
        split at hp
        · rwa [List.mem_singleton.mp hp]
        · cases hp
  · cases hp

theorem tends_openStore (used legible rewritten : Path → Prop) {dir : Path} (hdir : dirs dir)
    (timeout : Duration) (hd : d.WellFormed) :
    Tended rewritten dirs d (endState (openStore dir timeout d)) ∧
      ∀ s' d', openStore dir timeout d = .ok s' d' → s'.Tame used legible rewritten dirs := by
  have hdirs : Tended rewritten dirs d (endState (Disk.createDirs dir d)) :=
    Disk.tends_createDirs dir d hd
  rw [openStore_eq]
  cases hc : Disk.createDirs dir d with
  | error fault d₁ =>
    rw [hc] at hdirs
    exact ⟨hdirs, nofun⟩
  | ok u d₁ =>
    rw [hc, endState_ok] at hdirs
    have hfresh : (fresh dir timeout).Tame used legible rewritten dirs := ⟨hdir, nofun⟩
    have hlock := tends_ensureLocked (fresh dir timeout, d₁) hdirs.wellFormed hfresh
    dsimp only
    cases hl : ensureLocked (fresh dir timeout, d₁) with
    | error e st =>
      rw [hl] at hlock
      exact ⟨hdirs.trans hlock.1, nofun⟩
    | ok u st =>
      rw [hl] at hlock
      refine ⟨hdirs.trans hlock.1, fun s' d' h => ?_⟩
      cases h
      exact hlock.2

end FileStore

end HistoryKeeper
