import HistoryKeeper.Keeper.Request
import HistoryKeeper.Proofs.Store.Prepared
import HistoryKeeper.Proofs.Store.Tended

/-!
# Stores with one cache

`FileStore.Occupies` describes a store that has a directory to itself and uses one cache: what the disk
has for the cache (`had`), what the store has (`has`), and how the two come together in its only file.
There is one lemma for each call on a store. Loading, locking and going away never fail here; what can
fail is a file that cannot be loaded, and one that cannot be written back.

For this the whole disk counts and not only the files: what is no file can be in the way. So directories are
followed as well (`Disk.Frame`).
-/

namespace HistoryKeeper

open Disk (HasFile Frame)
open CacheFile (load save replace temporary touched touchedBeside)

variable {dir p : Path} {timeout : Duration} {d d' d₁ : Disk} {name rest key : String} {content : Bytes}
  {id : FileId}

namespace CacheFile

/-- A file whose entries are in memory. -/
def holding (path : Path) (entries : Entries) (dirty : Bool) : CacheFile :=
  { path, entries := some entries, dirty }

end CacheFile

theorem Path.components_join (dir : Path) (habsolute : isAbsolute ⟨rest⟩ = false)
    (hsegments : segments ⟨rest⟩ = [rest]) (hdot : rest ≠ ".") (hup : rest ≠ "..") :
    (dir.join rest).components = dir.components ++ [.name rest] := by
  have hfront : (dir.join rest).front = dir.front := by
    unfold front
    rw [isAbsolute_join dir habsolute, segments_join dir habsolute, hsegments]
    cases dir.isAbsolute with
    | true => rfl
    | false =>
      cases dir.segments with
      | nil => simp [hdot]
      | cons s segments => rfl
  rw [components_eq, components_eq, hfront, body, body, segments_join dir habsolute, hsegments,
    List.filterMap_append, List.append_assoc]
  congr 2
  rw [List.filterMap_cons_some (by rw [componentOf, if_neg hdot, if_neg hup]), List.filterMap_nil]

theorem Path.parent?_of_components {cs : List Component} (h : p.components = cs ++ [.name rest]) :
    p.parent? = some (ofComponents cs) := by
  unfold parent?
  rw [h, List.reverse_append]
  show some (ofComponents cs.reverse.reverse) = _
  rw [List.reverse_reverse]

theorem parent?_cachePath (hname : PlainName name) (dir : Path) :
    (cachePath dir name).parent? = some (Path.ofComponents dir.components) :=
  Path.parent?_of_components (Path.components_join dir hname.isAbsolute hname.segments
    (PlainName.fileName_ne name).1 (PlainName.fileName_ne name).2)

theorem parent?_lock (dir : Path) :
    (dir.join DirectoryLock.fileName).parent? = some (Path.ofComponents dir.components) :=
  Path.parent?_of_components (Path.components_join dir (by decide) (by decide) (by decide) (by decide))

/-- Where the lock's file is, there is nothing to be made above the caches. -/
theorem unchanged_createDirs (hd : d.WellFormed)
    (hfile : d.HasFile (dir.join DirectoryLock.fileName) id content) :
    endState (Disk.createDirs (Path.ofComponents dir.components) d) = d := by
  have hparent := parent?_lock dir
  by_cases hdirectory : (Path.ofComponents dir.components).text.isEmpty = true ∨
      d.isDirectory (Path.ofComponents dir.components) = true
  · rw [Disk.createDirs_of_isDirectory hdirectory, endState_ok]
  · rw [not_or] at hdirectory
    obtain ⟨hempty, hmissing⟩ := hdirectory
    have hreaches := (Disk.reaches_parent hfile.passable hparent).resolve_left hempty
    cases hmake : Disk.createDirs (Path.ofComponents dir.components) d with
    | ok u d' =>
      have hmade := (Disk.isDirectory_createDirs hd hmake).resolve_left hempty
      obtain ⟨hfits, -, -⟩ := Disk.stat_eq_directory_iff.mp (Disk.isDirectory_iff.mp hmade)
      exact absurd (Disk.isDirectory_of_reaches hreaches hfits) hmissing
    | error e d' =>
      rcases Disk.unchanged_or_readable hmake with hsame | hreadable
      · exact hsame
      · have hfits := Path.fits_parent hfile.fits hparent hreadable (Bool.eq_false_iff.mpr hempty)
        exact absurd (Disk.isDirectory_of_reaches hreaches hfits) hmissing

theorem CacheFile.save_eq {parent : Path} (hparent : p.parent? = some parent) (content : Bytes) (d : Disk) :
    save p content d = match Disk.createDirs parent d with
      | .ok _ d => replace p content d
      | .error fault d => .error fault d := by
  unfold save
  rw [hparent]
  show EStateM.bind (Disk.createDirs parent) (fun _ => replace p content) d = _
  unfold EStateM.bind
  cases Disk.createDirs parent d <;> rfl

theorem CacheFile.saved_save (hd : d.WellFormed) {old : Bytes}
    (hfile : d.HasFile (dir.join DirectoryLock.fileName) id old) (hname : PlainName name) (content : Bytes) :
    Saved (cachePath dir name) content d (save (cachePath dir name) content d) := by
  have hsame := unchanged_createDirs hd hfile
  rw [save_eq (parent?_cachePath hname dir)]
  cases hmake : Disk.createDirs (Path.ofComponents dir.components) d with
  | ok u d' =>
    rw [hmake, endState_ok] at hsame
    rw [hsame]
    exact saved_replace hd _ content
  | error e d' =>
    rw [hmake, endState_error] at hsame
    rw [hsame]
    exact Frame.refl hd

namespace FileStore

variable {st : FileStore × Disk} {had has : Except StoreError Entries} {inUse held dirty : Bool}
  {files : List CacheFile} {other : String} {write : PendingWrite}

theorem load_lock (p : Path) (d : Disk) (id : FileId) : load p (d.lock id) = load p d :=
  load_congr fun node => by rw [Disk.stat_congr (show (d.lock id).nodes = d.nodes from rfl) rfl]

theorem frame_unlock {changed : Location → Prop} (h : Frame changed (d.lock id) d') :
    Frame changed d (d'.unlock id) ∧ d' = (d'.unlock id).lock id := by
  have hlocked : d'.locked = id :: d.locked := h.ext.locked
  have hunlocked : (d'.unlock id).locked = d.locked := by
    show d'.locked.erase id = d.locked
    rw [hlocked]
    exact List.erase_cons_head ..
  refine ⟨⟨h.wellFormed.congr rfl, ⟨h.ext.home, h.ext.processId, hunlocked, h.ext.directory, h.ext.file⟩,
    h.sameDirectories⟩, ?_⟩
  obtain ⟨_, _, _, _, _⟩ := d'
  unfold Disk.lock
  rw [hunlocked, ← hlocked]
  rfl

/-- What is tried under the lock either saves the content or does no harm. -/
theorem saved_lock (h : Prepared dir id d) (hname : PlainName name) (content : Bytes) :
    CacheFile.Saved (cachePath dir name) content (d.lock id)
      (save (cachePath dir name) content (d.lock id)) := by
  obtain ⟨old, hfile⟩ := h.file
  have hlocked : (d.lock id).WellFormed := h.wellFormed.congr rfl
  have hkept : (d.lock id).HasFile (dir.join DirectoryLock.fileName) id old := hfile.congr rfl rfl
  exact CacheFile.saved_save hlocked hkept hname content

theorem lock_untouched (dir : Path) (name : String) (d : Disk) :
    ¬ CacheFile.touched d (cachePath dir name) (DirectoryLock.locationOf d.home dir) :=
  not_or.mpr ⟨(cachePath_ne_lock dir _ _).symm, DirectoryLock.locationOf_ne_temporary _ _ _ _⟩

/-! ### How the store and the disk come together -/

/-- Whether the cache is in use, whether the lock is held, and whether there is something to write back. -/
structure Standing where
  inUse : Bool
  held : Bool
  dirty : Bool

/-- The cache files of the store. -/
inductive Files (p : Path) : Standing → (had has : Except StoreError Entries) → List CacheFile → Prop
  | unused (held : Bool) (had : Except StoreError Entries) : Files p ⟨false, held, false⟩ had had []
  | unloaded (held : Bool) (had : Except StoreError Entries) : Files p ⟨true, held, false⟩ had had [.new p]
  | clean {entries : Entries} : entries.Ordered →
      Files p ⟨true, true, false⟩ (.ok entries) (.ok entries) [.holding p entries false]
  | dirty (had : Except StoreError Entries) {entries : Entries} : entries.Ordered →
      Files p ⟨true, true, true⟩ had (.ok entries) [.holding p entries true]

/-- The store of a directory, with the lock or without. -/
def tenant (dir : Path) (timeout : Duration) (id : FileId) (held : Bool) (files : List CacheFile) : FileStore :=
  { baseDir := dir
    lockTimeout := timeout
    lock := if held then some ⟨dir.join DirectoryLock.fileName, id⟩ else none
    lockHeld := held
    caches := files }

/-- The disk has `had` for the cache, and has otherwise not changed since the store was opened. -/
structure Premises (dir : Path) (name : String) (d₁ : Disk) (had : Except StoreError Entries) (id : FileId)
    (d : Disk) : Prop where
  prepared : Prepared dir id d
  frame : Frame (CacheFile.touched d₁ (cachePath dir name)) d₁ d
  load : load (cachePath dir name) d = had

inductive Occupies (dir : Path) (timeout : Duration) (name : String) (d₁ : Disk) (standing : Standing)
    (had has : Except StoreError Entries) : FileStore × Disk → Prop
  | intro {id : FileId} {d : Disk} {files : List CacheFile} : Premises dir name d₁ had id d →
      Files (cachePath dir name) standing had has files →
      Occupies dir timeout name d₁ standing had has
        (tenant dir timeout id standing.held files, if standing.held then d.lock id else d)

theorem occupies_opened (h : Prepared dir id d) : Occupies dir timeout name d ⟨false, true, false⟩
    (load (cachePath dir name) d) (load (cachePath dir name) d) (FileStore.opened dir timeout id, d.lock id) :=
  .intro ⟨h, .refl h.wellFormed, rfl⟩ (.unused true _)

namespace Premises

theorem saved (h : Premises dir name d₁ had id d) (hname : PlainName name) {entries : Entries}
    (hordered : entries.Ordered)
    (hsave : save (cachePath dir name) (CacheFile.encode entries) (d.lock id) = .ok () d') :
    Premises dir name d₁ (.ok entries) id (d'.unlock id) ∧ d' = (d'.unlock id).lock id := by
  have hsaved := saved_lock h.prepared hname (CacheFile.encode entries)
  rw [hsave] at hsaved
  obtain ⟨hframe, number, hfile⟩ := hsaved
  obtain ⟨hframe, hlock⟩ := frame_unlock hframe
  refine ⟨⟨h.prepared.frame hframe (lock_untouched dir name d), ?_, ?_⟩, hlock⟩
  · refine h.frame.trans (hframe.mono fun l hl => ?_)
    unfold CacheFile.touched at hl ⊢
    rwa [← h.frame.ext.home, ← h.frame.ext.processId]
  · have hfreed : (d'.unlock id).HasFile (cachePath dir name) number (CacheFile.encode entries) :=
      hfile.congr rfl rfl
    rw [CacheFile.load_of_hasFile (Disk.hasFile_iff.mp hfreed), CacheFile.decode_encode hordered]

theorem unsaved (h : Premises dir name d₁ had id d) (hname : PlainName name) {fault : IoFault}
    (hsave : save (cachePath dir name) content (d.lock id) = .error fault d') :
    Premises dir name d₁ had id (d'.unlock id) ∧ d' = (d'.unlock id).lock id := by
  have hsaved := saved_lock h.prepared hname content
  rw [hsave] at hsaved
  obtain ⟨hframe, hlock⟩ := frame_unlock hsaved
  refine ⟨⟨?_, ?_, ?_⟩, hlock⟩
  · exact h.prepared.frame hframe (DirectoryLock.locationOf_ne_temporary _ _ _ _)
  · refine h.frame.trans (hframe.mono fun l hl => .inr ?_)
    rwa [← h.frame.ext.home, ← h.frame.ext.processId]
  · rw [← h.load]
    exact load_congr fun node => hframe.stat_eq_ok_iff (cachePath_ne_temporary dir name _ _ _)

end Premises

theorem acquire_of_prepared (h : Prepared dir id d) (timeout : Duration) :
    DirectoryLock.acquire dir timeout d = .ok ⟨dir.join DirectoryLock.fileName, id⟩ (d.lock id) := by
  obtain ⟨content, hfile⟩ := h.file
  rw [DirectoryLock.acquire_eq, Disk.createDirs_of_isDirectory h.directory]
  simp only [hfile.openFile, h.free]
  rfl

theorem ensureLocked_of_prepared (h : Prepared dir id d) (timeout : Duration) (files : List CacheFile) :
    ensureLocked (tenant dir timeout id false files, d) = .ok () (tenant dir timeout id true files, d.lock id) := by
  have hacquire : DirectoryLock.acquire (tenant dir timeout id false files).baseDir
      (tenant dir timeout id false files).lockTimeout d = _ := acquire_of_prepared h timeout
  rw [ensureLocked_eq, hacquire]
  rfl

theorem flush_of_clean (hclean : ∀ f ∈ files, f.dirty = false) (d : Disk) :
    flush (tenant dir timeout id held files, d) = .ok () (tenant dir timeout id held files, d) := by
  have hcaches : (tenant dir timeout id held files).caches = files := rfl
  rw [flush_eq, hcaches, flushFiles_of_clean hclean]
  rfl

theorem flush_of_dirty (dir : Path) (timeout : Duration) (id : FileId) (p : Path) (entries : Entries)
    (d : Disk) : flush (tenant dir timeout id true [.holding p entries true], d) =
      match save p (CacheFile.encode entries) d with
      | .ok _ d => .ok () (tenant dir timeout id true [.holding p entries false], d)
      | .error fault d => .error (.io fault) (tenant dir timeout id true [.holding p entries true], d) := by
  have hcaches : (tenant dir timeout id true [.holding p entries true]).caches = [.holding p entries true] := rfl
  have hfile : (CacheFile.holding p entries true).flush d = match save p (CacheFile.encode entries) d with
      | .ok _ d => .ok (.holding p entries false) d
      | .error fault d => .error fault d := by
    rw [CacheFile.flush_eq]
    show EStateM.bind (save p (CacheFile.encode entries)) _ d = _
    unfold EStateM.bind
    cases save p (CacheFile.encode entries) d <;> rfl
  rw [flush_eq, hcaches, flushFiles, hfile]
  cases save p (CacheFile.encode entries) d <;> rfl

theorem openCache_of_path {f : CacheFile} (hf : f.path = cachePath dir name) :
    FileStore.openCache (cachePath dir name) (tenant dir timeout id held [f], d) =
      .ok 0 (tenant dir timeout id held [f], d) := by
  have hfind : (tenant dir timeout id held [f]).caches.findIdx? (·.path.same (cachePath dir name)) = some 0 := by
    simp [tenant, hf, Path.same]
  rw [openCache_eq, hfind]

theorem access_of_one {α : Type} (f : CacheFile → Entries → α × CacheFile) (file : CacheFile) (d : Disk) :
    FileStore.access 0 f (tenant dir timeout id true [file], d) = match file.loaded d with
      | .error e => .error e (tenant dir timeout id true [file], d)
      | .ok (file, entries) => .ok (f file entries).1 (tenant dir timeout id true [(f file entries).2], d) := by
  rw [access_eq]
  rfl

namespace Files

theorem held_of_dirty (h : Files p ⟨inUse, held, true⟩ had has files) : held = true := by
  cases h
  rfl

theorem has_of_clean (h : Files p ⟨inUse, held, false⟩ had has files) :
    had = has ∧ ∀ f ∈ files, f.dirty = false := by
  cases h with
  | unused => exact ⟨rfl, nofun⟩
  | unloaded | clean => exact ⟨rfl, fun f hf => List.mem_singleton.mp hf ▸ rfl⟩

theorem of_loaded {entries : Entries} (hordered : entries.Ordered)
    (hclean : dirty = false → had = .ok entries) :
    Files p ⟨true, true, dirty⟩ had (.ok entries) [.holding p entries dirty] := by
  cases dirty with
  | false =>
    rw [hclean rfl]
    exact .clean hordered
  | true => exact .dirty had hordered

end Files

namespace Occupies

theorem baseDir {standing : Standing} (h : Occupies dir timeout name d₁ standing had has st) :
    st.1.baseDir = dir := by
  cases h
  rfl

theorem ensureLocked (h : Occupies dir timeout name d₁ ⟨inUse, held, dirty⟩ had has st) :
    ∃ st', FileStore.ensureLocked st = .ok () st' ∧
      Occupies dir timeout name d₁ ⟨inUse, true, dirty⟩ had has st' := by
  obtain ⟨hsite, hfiles⟩ := h
  cases held with
  | true => exact ⟨_, rfl, .intro hsite hfiles⟩
  | false =>
    rename_i id d files
    refine ⟨_, ensureLocked_of_prepared hsite.prepared timeout files, .intro hsite ?_⟩
    cases hfiles with
    | unused => exact .unused true had
    | unloaded => exact .unloaded true had

theorem flush (hname : PlainName name)
    (h : Occupies dir timeout name d₁ ⟨inUse, true, dirty⟩ had has st) :
    (∃ st', FileStore.flush st = .ok () st' ∧
      Occupies dir timeout name d₁ ⟨inUse, true, false⟩ has has st') ∨
    dirty = true ∧ ∃ e st', FileStore.flush st = .error e st' ∧
      Occupies dir timeout name d₁ ⟨inUse, true, true⟩ had has st' := by
  obtain ⟨hsite, hfiles⟩ := h
  rename_i id d files
  cases dirty with
  | false =>
    obtain ⟨rfl, hclean⟩ := hfiles.has_of_clean
    exact .inl ⟨_, flush_of_clean hclean _, .intro hsite hfiles⟩
  | true =>
    cases hfiles with
    | @dirty _ entries hordered =>
      have hflush := flush_of_dirty dir timeout id (cachePath dir name) entries (d.lock id)
      cases hsave : save (cachePath dir name) (CacheFile.encode entries) (d.lock id) with
      | ok u d' =>
        obtain ⟨hsite', hlock⟩ := hsite.saved hname hordered hsave
        rw [hsave] at hflush
        have hnext := (.intro hsite' (.clean hordered) : Occupies dir timeout name d₁ ⟨true, true, false⟩ _ _ _)
        rw [if_pos rfl, ← hlock] at hnext
        exact .inl ⟨_, hflush, hnext⟩
      | error fault d' =>
        obtain ⟨hsite', hlock⟩ := hsite.unsaved hname hsave
        rw [hsave] at hflush
        have hnext := (.intro hsite' (.dirty had hordered) : Occupies dir timeout name d₁ ⟨true, true, true⟩ _ _ _)
        rw [if_pos rfl, ← hlock] at hnext
        exact .inr ⟨rfl, _, _, hflush, hnext⟩

theorem leave (hname : PlainName name)
    (h : Occupies dir timeout name d₁ ⟨inUse, held, dirty⟩ had has st) :
    (∃ st', FileStore.leave st = .ok () st' ∧
      Occupies dir timeout name d₁ ⟨inUse, held, false⟩ has has st') ∨
    dirty = true ∧ ∃ e st', FileStore.leave st = .error e st' ∧
      Occupies dir timeout name d₁ ⟨inUse, held, true⟩ had has st' := by
  cases held with
  | true =>
    have hleave : FileStore.leave st = FileStore.flush st := by
      cases h
      rfl
    rw [hleave]
    exact h.flush hname
  | false =>
    cases dirty with
    | true =>
      cases h with
      | intro hsite hfiles => cases hfiles.held_of_dirty
    | false =>
      have hleave : FileStore.leave st = .ok () st := by
        cases h
        rfl
      cases h with
      | intro hsite hfiles =>
        obtain ⟨rfl, -⟩ := hfiles.has_of_clean
        exact .inl ⟨_, hleave, .intro hsite hfiles⟩

theorem release (hname : PlainName name)
    (h : Occupies dir timeout name d₁ ⟨inUse, true, dirty⟩ had has st) :
    (∃ st', FileStore.release st = .ok () st' ∧
      Occupies dir timeout name d₁ ⟨inUse, false, false⟩ has has st') ∨
    dirty = true ∧ ∃ e st', FileStore.release st = .error e st' ∧
      Occupies dir timeout name d₁ ⟨inUse, true, true⟩ had has st' := by
  obtain ⟨s, d⟩ := st
  rw [release_eq]
  rcases h.flush hname with ⟨⟨s', d'⟩, hflush, h'⟩ | ⟨hdirty, e, st', hflush, h'⟩
  · rw [hflush]
    refine .inl ⟨_, rfl, ?_⟩
    cases h' with
    | @intro id d files hsite hfiles =>
      have hunlock : (d.lock id).unlock id = d := by
        unfold Disk.lock Disk.unlock
        simp
      have hnext : Files (cachePath dir name) ⟨inUse, false, false⟩ has has
          (files.map ({ · with entries := none })) := by
        cases hfiles with
        | unused => exact .unused false _
        | unloaded | clean => exact .unloaded false _
      have hleft := (.intro hsite hnext : Occupies dir timeout name d₁ _ _ _ _)
      rw [if_neg nofun, ← hunlock] at hleft
      exact hleft
  · rw [hflush]
    exact .inr ⟨hdirty, e, st', rfl, h'⟩

theorem openCache (h : Occupies dir timeout name d₁ ⟨inUse, held, dirty⟩ had has st) :
    ∃ st', FileStore.openCache (cachePath dir name) st = .ok 0 st' ∧
      Occupies dir timeout name d₁ ⟨true, held, dirty⟩ had has st' := by
  obtain ⟨hsite, hfiles⟩ := h
  cases hfiles with
  | unused =>
    refine ⟨_, ?_, .intro hsite (.unloaded held had)⟩
    rw [openCache_eq]
    rfl
  | unloaded => exact ⟨_, openCache_of_path rfl, .intro hsite (.unloaded held had)⟩
  | clean hordered => exact ⟨_, openCache_of_path rfl, .intro hsite (.clean hordered)⟩
  | dirty _ hordered => exact ⟨_, openCache_of_path rfl, .intro hsite (.dirty had hordered)⟩

/-- A cache is used on its entries, which are loaded if they can be. -/
theorem access {α : Type} (f : CacheFile → Entries → α × CacheFile)
    (h : Occupies dir timeout name d₁ ⟨true, true, dirty⟩ had has st) :
    (∃ e, has = .error e ∧ FileStore.access 0 f st = .error e st) ∨
    ∃ entries id d, has = .ok entries ∧ Premises dir name d₁ had id d ∧ entries.Ordered ∧
      (dirty = false → had = .ok entries) ∧
      FileStore.access 0 f st = .ok (f (.holding (cachePath dir name) entries dirty) entries).1
        (tenant dir timeout id true [(f (.holding (cachePath dir name) entries dirty) entries).2], d.lock id) := by
  obtain ⟨hsite, hfiles⟩ := h
  rename_i id d files
  cases hfiles with
  | unloaded =>
    have hloaded : (CacheFile.new (cachePath dir name)).loaded (d.lock id) = had.map fun entries =>
        (.holding (cachePath dir name) entries false, entries) := by
      unfold CacheFile.loaded CacheFile.new
      dsimp only
      rw [load_lock, hsite.load]
      cases had <;> rfl
    cases had with
    | error e =>
      refine .inl ⟨e, rfl, (access_of_one f _ (d.lock id)).trans ?_⟩
      rw [hloaded]
      rfl
    | ok entries =>
      have hordered : entries.Ordered := CacheFile.ordered_of_kept (CacheFile.kept_of_load hsite.load)
      refine .inr ⟨entries, id, d, rfl, hsite, hordered, fun _ => rfl, (access_of_one f _ (d.lock id)).trans ?_⟩
      rw [hloaded]
      rfl
  | clean hordered => exact .inr ⟨_, id, d, rfl, hsite, hordered, fun _ => rfl, access_of_one f _ (d.lock id)⟩
  | dirty _ hordered => exact .inr ⟨_, id, d, rfl, hsite, hordered, nofun, access_of_one f _ (d.lock id)⟩

theorem lookup (h : Occupies dir timeout name d₁ ⟨true, true, dirty⟩ had has st) (key : String) :
    (∃ e, has = .error e ∧ FileStore.lookup 0 key st = .error e st) ∨
    ∃ entries st', has = .ok entries ∧ FileStore.lookup 0 key st = .ok (entries.get? key) st' ∧
      Occupies dir timeout name d₁ ⟨true, true, dirty⟩ had has st' := by
  rcases h.access fun file entries => (entries.get? key, file) with
    herror | ⟨entries, id, d, rfl, hsite, hordered, hclean, hok⟩
  · exact .inl herror
  · exact .inr ⟨entries, _, rfl, hok, .intro hsite (.of_loaded hordered hclean)⟩

theorem change (h : Occupies dir timeout name d₁ ⟨true, true, dirty⟩ had has st) (change : Change)
    (key : String) :
    (∃ e, has = .error e ∧ (change.call 0 key : Call Unit) st = .error e st) ∨
    ∃ dirty' entries st', has = .ok entries ∧ (change.call 0 key : Call Unit) st = .ok () st' ∧
      Occupies dir timeout name d₁ ⟨true, true, dirty'⟩ had (.ok (change.applyTo key entries)) st' := by
  rw [call_eq]
  rcases h.access fun file entries => ((), if change.alters key entries then
      { file with entries := some (change.applyTo key entries), dirty := true } else file) with
    herror | ⟨entries, id, d, rfl, hsite, hordered, hclean, hok⟩
  · exact .inl herror
  · cases halters : change.alters key entries with
    | true =>
      refine .inr ⟨true, entries, _, rfl, hok, ?_⟩
      rw [halters]
      exact .intro hsite (.dirty had (change.ordered_applyTo key hordered))
    | false =>
      -- only a removal can leave everything as it is, that of a key that is not there
      have hsame : change.applyTo key entries = entries := by
        cases change with
        | put value => cases halters
        | remove =>
          refine Table.erase_eq_self ?_
          simpa [Change.alters, Table.contains] using halters
      refine .inr ⟨dirty, entries, _, rfl, hok, ?_⟩
      rw [halters, hsame]
      exact .intro hsite (.of_loaded hordered hclean)

theorem freeLock (h : Occupies dir timeout name d₁ ⟨inUse, held, dirty⟩ had has st) :
    ∃ id, Premises dir name d₁ had id (st.1.freeLock st.2).2 := by
  obtain ⟨hsite, -⟩ := h
  rename_i id d files
  cases held with
  | false => exact ⟨id, hsite⟩
  | true =>
    have hunlock : (d.lock id).unlock id = d := by
      unfold Disk.lock Disk.unlock
      simp
    refine ⟨id, ?_⟩
    rw [← hunlock] at hsite
    exact hsite

theorem close (h : Occupies dir timeout name d₁ ⟨inUse, held, false⟩ had has st) :
    ∃ s d', FileStore.close st = .ok () (s, d') ∧ had = has ∧ ∃ id, Premises dir name d₁ had id d' := by
  obtain ⟨s, d⟩ := st
  have hleft := h.freeLock
  have hclean : had = has ∧ ∀ f ∈ s.caches, f.dirty = false := by
    cases h with
    | intro hsite hfiles => exact hfiles.has_of_clean
  obtain ⟨s', hclose⟩ := close_of_clean hclean.2 d
  exact ⟨s', _, hclose, hclean.1, hleft⟩

end Occupies

theorem found_of_prepared (h : Prepared dir id d) (timeout : Duration) (name key : String) :
    found dir timeout name key d = (load (cachePath dir name) d).toOption.map (·.get? key) := by
  unfold found
  rw [openStore_of_prepared h]
  dsimp only
  rw [load_lock]

/-- In the changed cache what the disk has is found, and in every other what was found before. -/
theorem Premises.found {id₁ : FileId} (h : Premises dir name d₁ had id d) (hprepared : Prepared dir id₁ d₁)
    (hname : PlainName name) (hother : PlainName other) (timeout : Duration) (key : String) :
    found dir timeout other key d =
      if other = name then had.toOption.map (·.get? key) else found dir timeout other key d₁ := by
  rw [found_of_prepared h.prepared]
  split
  · rename_i hsame
    rw [hsame, h.load]
  · rename_i hne
    rw [found_of_prepared hprepared]
    refine congrArg (·.toOption.map (·.get? key)) (load_congr fun node => h.frame.stat_eq_ok_iff ?_)
    refine not_or.mpr ⟨fun he => hne (hother.eq_of_location hname he), ?_⟩
    exact cachePath_ne_temporary dir other _ _ _

/-- What is found in the entries of the changed cache after the change. -/
theorem get?_applyTo (write : PendingWrite) {entries : Entries} (hordered : entries.Ordered) (key : String) :
    (write.change.applyTo write.key entries).get? key =
      if key = write.key then write.visibleValue else entries.get? key := by
  split
  · rename_i hkey
    rw [hkey]
    exact PendingWrite.get?_applyTo_self write hordered
  · rename_i hkey
    exact Change.get?_applyTo_ne write.change hkey entries

end FileStore

end HistoryKeeper
