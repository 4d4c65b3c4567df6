import HistoryKeeper.Proofs.Disk.Frame
import HistoryKeeper.Proofs.Disk.Stuck
import HistoryKeeper.Proofs.Store.PlainNames

/-!
# Opening a store again

Where a store was opened, everything is prepared for the next one (`FileStore.Prepared`), and it stays so
while only caches are written (`Prepared.frame`). Where a store could not be opened, it cannot be opened
from what is there then (`FileStore.openStore_error_again`). So what is found in a store of one directory
(`FileStore.found`) need not be asked twice.
-/

namespace HistoryKeeper.FileStore

open Disk (Extends HasFile Frame)
open CacheFile (load)

variable {changed : Location → Prop} {dir p : Path} {timeout : Duration} {d d' : Disk} {id : FileId}
  {s : FileStore} {e : StoreError} {name key : String} {n : Nat}

/-- A store that has just been opened. -/
def opened (dir : Path) (timeout : Duration) (id : FileId) : FileStore :=
  { fresh dir timeout with lock := some ⟨dir.join DirectoryLock.fileName, id⟩, lockHeld := true }

/-- The directory and the file of its lock are there, and nobody holds the lock. -/
structure Prepared (dir : Path) (id : FileId) (d : Disk) : Prop where
  wellFormed : d.WellFormed
  directory : dir.text.isEmpty = true ∨ d.isDirectory dir = true
  file : ∃ content, d.HasFile (dir.join DirectoryLock.fileName) id content
  free : d.isLocked id = false

theorem ensureLocked_fresh (dir : Path) (timeout : Duration) (d : Disk) :
    ensureLocked (fresh dir timeout, d) = match DirectoryLock.acquire dir timeout d with
      | .ok lock d => .ok () ({ fresh dir timeout with lock := some lock, lockHeld := true }, d)
      | .error e d => .error (.lock e) (fresh dir timeout, d) :=
  rfl

theorem openStore_of_directory (hd : d.WellFormed) (hdirs : Disk.createDirs dir d = .ok () d') :
    openStore dir timeout d = match d'.openFile (dir.join DirectoryLock.fileName) with
      | .error e => .error (.lock (.io e)) d'
      | .ok (_, id, d) =>
        if !d.isLocked id then .ok (opened dir timeout id) (d.lock id)
        else .error (.lock (.timeout timeout)) d := by
  rw [openStore_eq, hdirs]
  simp only
  rw [ensureLocked_fresh, DirectoryLock.acquire_eq,
    Disk.createDirs_of_isDirectory (Disk.isDirectory_createDirs hd hdirs)]
  simp only
  cases d'.openFile (dir.join DirectoryLock.fileName) with
  | error e => rfl
  | ok r =>
    obtain ⟨l, id, d⟩ := r
    dsimp only
    cases d.isLocked id <;> rfl

theorem openStore_of_prepared (h : Prepared dir id d) (timeout : Duration) :
    openStore dir timeout d = .ok (opened dir timeout id) (d.lock id) := by
  obtain ⟨content, hfile⟩ := h.file
  rw [openStore_of_directory h.wellFormed (Disk.createDirs_of_isDirectory h.directory), hfile.openFile]
  simp only [h.free]
  rfl

theorem prepared_of_openStore (hd : d.WellFormed) (h : openStore dir timeout d = .ok s d') :
    ∃ id d₁, s = opened dir timeout id ∧ d' = d₁.lock id ∧ Prepared dir id d₁ := by
  have hmade := Disk.leads_createDirs dir d hd
  cases hdirs : Disk.createDirs dir d with
  | error fault d₁ =>
    rw [openStore_eq, hdirs] at h
    cases h
  | ok u d₁ =>
    rw [hdirs, endState_ok] at hmade
    rw [openStore_of_directory hd hdirs] at h
    cases hopen : d₁.openFile (dir.join DirectoryLock.fileName) with
    | error fault =>
      rw [hopen] at h
      cases h
    | ok r =>
      obtain ⟨l, id, d₂⟩ := r
      rw [hopen] at h
      obtain ⟨rfl, hopened⟩ := Disk.openFile_ok hmade.1 hopen
      simp only at h
      split at h
      · rename_i hfree
        cases h
        refine ⟨id, d₂, rfl, rfl, hopened.wellFormed, ?_, hopened.hasFile, by simpa using hfree⟩
        exact (Disk.isDirectory_createDirs hd hdirs).imp_right hopened.ext.isDirectory
      · cases h

theorem openStore_error_again (hd : d.WellFormed) (h : openStore dir timeout d = .error e d') :
    ∃ e' d'', openStore dir timeout d' = .error e' d'' := by
  have hmade := Disk.leads_createDirs dir d hd
  cases hdirs : Disk.createDirs dir d with
  | error fault d₁ =>
    rw [openStore_eq, hdirs] at h
    cases h
    obtain ⟨fault', d'', hagain⟩ := Disk.createDirsWithin_error_again hd hdirs
    rw [openStore_eq, Disk.createDirs, hagain]
    exact ⟨_, _, rfl⟩
  | ok u d₁ =>
    rw [hdirs, endState_ok] at hmade
    have hdirectory := Disk.isDirectory_createDirs hd hdirs
    rw [openStore_of_directory hd hdirs] at h
    cases hopen : d₁.openFile (dir.join DirectoryLock.fileName) with
    | error fault =>
      rw [hopen] at h
      cases h
      rw [openStore_of_directory hmade.1 (Disk.createDirs_of_isDirectory hdirectory), hopen]
      exact ⟨_, _, rfl⟩
    | ok r =>
      obtain ⟨l, id, d₂⟩ := r
      rw [hopen] at h
      obtain ⟨rfl, hopened⟩ := Disk.openFile_ok hmade.1 hopen
      obtain ⟨content, hfile⟩ := hopened.hasFile
      simp only at h
      split at h
      · cases h
      · rename_i hlocked
        cases h
        have hdirs₂ := Disk.createDirs_of_isDirectory (hdirectory.imp_right hopened.ext.isDirectory)
        rw [openStore_of_directory hopened.wellFormed hdirs₂, hfile.openFile]
        simp only
        rw [if_neg hlocked]
        exact ⟨_, _, rfl⟩

theorem acquire_asProcess (dir : Path) (timeout : Duration) (d : Disk) (n : Nat) :
    DirectoryLock.acquire dir timeout (d.asProcess n) =
      mapState (·.asProcess n) (DirectoryLock.acquire dir timeout d) := by
  rw [DirectoryLock.acquire_eq, DirectoryLock.acquire_eq, Disk.createDirs, Disk.createDirsWithin_asProcess]
  cases Disk.createDirsWithin (dir.components.length + 1) dir d with
  | error e d' => rfl
  | ok u d' =>
    simp only [mapState, Disk.openFile_asProcess]
    cases d'.openFile (dir.join DirectoryLock.fileName) with
    | error e => rfl
    | ok r =>
      obtain ⟨l, id, d₁⟩ := r
      show (if !d₁.isLocked id then _ else _) = mapState _ (if !d₁.isLocked id then _ else _)
      split <;> rfl

theorem openStore_asProcess (dir : Path) (timeout : Duration) (d : Disk) (n : Nat) :
    openStore dir timeout (d.asProcess n) = mapState (·.asProcess n) (openStore dir timeout d) := by
  rw [openStore_eq, openStore_eq, Disk.createDirs, Disk.createDirsWithin_asProcess]
  cases Disk.createDirsWithin (dir.components.length + 1) dir d with
  | error e d' => rfl
  | ok u d' =>
    simp only [mapState]
    rw [ensureLocked_fresh, ensureLocked_fresh, acquire_asProcess]
    cases DirectoryLock.acquire dir timeout d' <;> rfl

namespace Prepared

theorem reaches (h : Prepared dir id d) : d.Reaches dir := by
  obtain ⟨content, hfile⟩ := h.file
  exact Disk.reaches_of_passable (by decide) (by decide) hfile.passable

theorem frame (h : Prepared dir id d) (hframe : Frame changed d d')
    (hlock : ¬ changed (DirectoryLock.locationOf d.home dir)) : Prepared dir id d' := by
  obtain ⟨content, hfile⟩ := h.file
  have hfree : d'.isLocked id = false := by
    rw [Disk.isLocked, hframe.ext.locked]
    exact h.free
  exact ⟨hframe.wellFormed, h.directory.imp_right hframe.isDirectory,
    ⟨content, hframe.hasFile hlock hfile⟩, hfree⟩

end Prepared

/-- What a read of a key brings if the store of a directory is opened for it. -/
def found (dir : Path) (timeout : Duration) (name key : String) (d : Disk) : Option (Option Bytes) :=
  match openStore dir timeout d with
  | .error _ _ => none
  | .ok _ d => (load (cachePath dir name) d).toOption.map (·.get? key)

theorem load_congr (h : ∀ node, d'.stat p = .ok node ↔ d.stat p = .ok node) : load p d' = load p d := by
  unfold load Disk.pathExists Disk.read
  cases hs : d.stat p with
  | ok node => rw [(h node).mpr hs]
  | error e =>
    cases hs' : d'.stat p with
    | ok node => cases hs.symm.trans ((h node).mp hs')
    | error e' => rfl

theorem found_asProcess (dir : Path) (timeout : Duration) (name key : String) (d : Disk) (n : Nat) :
    found dir timeout name key (d.asProcess n) = found dir timeout name key d := by
  unfold found
  rw [openStore_asProcess]
  cases openStore dir timeout d with
  | error e d' => rfl
  | ok s d' =>
    have hload : load (cachePath dir name) (d'.asProcess n) = load (cachePath dir name) d' :=
      load_congr fun node => by rw [Disk.stat_asProcess]
    exact congrArg (·.toOption.map (·.get? key)) hload

end HistoryKeeper.FileStore
