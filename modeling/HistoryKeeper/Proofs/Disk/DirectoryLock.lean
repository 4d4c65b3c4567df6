import HistoryKeeper.Disk.DirectoryLock
import HistoryKeeper.Proofs.Disk.Below

/-!
# Taking the lock of a directory

`DirectoryLock.acquire_spec`: whether it is had or not, taking the lock changes no file, except that
the lock's own file is made if it was missing. A lock that somebody holds is not had
(`acquire_of_held`), and one that nobody holds is, unless the operating system is to blame
(`fault_of_acquire`).
-/

namespace HistoryKeeper.DirectoryLock

open Disk (Extends)

variable {dir : Path} {timeout : Duration} {d d' : Disk} {id : FileId} {content : Bytes}

/-- Where the lock's file lies. -/
def locationOf (home : Location) (dir : Path) : Location :=
  (dir.join fileName).location home

/-- The disk behind an attempt to take the lock. -/
structure Tried (dir : Path) (d d' : Disk) : Prop where
  wellFormed : d'.WellFormed
  ext : Extends (· = locationOf d.home dir) d d'
  old : ∀ {id content}, d.node? (locationOf d.home dir) = some (.file id content) →
    d'.node? (locationOf d.home dir) = some (.file id content)

/-- The outcome of taking the lock. -/
def Acquired (dir : Path) (timeout : Duration) (d : Disk)
    (result : EStateM.Result LockError Disk DirectoryLock) : Prop :=
  match result with
  | .ok lock d' => ∃ d₁, Tried dir d d₁ ∧ d₁.isLocked lock.file = false ∧ d' = d₁.lock lock.file ∧
      ∃ content, d₁.node? (locationOf d.home dir) = some (.file lock.file content)
  | .error e d' => Tried dir d d' ∧ ((∃ fault, e = .io fault) ∨ e = .timeout timeout)

theorem acquire_spec (hd : d.WellFormed) (dir : Path) (timeout : Duration) :
    Acquired dir timeout d (acquire dir timeout d) := by
  have hdirs := Disk.leads_createDirs dir d hd
  unfold acquire acquireAmid
  cases hc : Disk.createDirs dir d with
  | error e d₁ =>
    rw [hc, endState_error] at hdirs
    obtain ⟨hwf₁, hext₁⟩ := hdirs
    exact ⟨⟨hwf₁, hext₁.weaken, fun h => (hext₁.file id).mpr h⟩, Or.inl ⟨e, rfl⟩⟩
  | ok u d₁ =>
    rw [hc, endState_ok] at hdirs
    obtain ⟨hwf₁, hext₁⟩ := hdirs
    have htried₁ : Tried dir d d₁ := ⟨hwf₁, hext₁.weaken, fun h => (hext₁.file id).mpr h⟩
    simp only
    cases ho : d₁.openFile (dir.join fileName) with
    | error e => exact ⟨htried₁, Or.inl ⟨e, rfl⟩⟩
    | ok r =>
      obtain ⟨l, file, d₂⟩ := r
      obtain ⟨rfl, hopened⟩ := Disk.openFile_ok hwf₁ ho
      have hloc : (dir.join fileName).location d₁.home = locationOf d.home dir := by
        rw [hext₁.home]
        rfl
      obtain ⟨content, hfile⟩ := hopened.file
      have htried₂ : Tried dir d d₂ := by
        refine ⟨hopened.wellFormed, hext₁.weaken.trans (hloc ▸ hopened.ext), fun h => ?_⟩
        have h₁ := htried₁.old h
        rw [hopened.old (hloc ▸ h₁)]
        exact h₁
      simp only
      split
      · rename_i hfree
        exact ⟨d₂, htried₂, by simpa using hfree, rfl, content, hloc ▸ hfile⟩
      · exact ⟨htried₂, Or.inr rfl⟩

theorem acquire_of_held (hd : d.WellFormed)
    (hfile : d.node? (locationOf d.home dir) = some (.file id content))
    (hlocked : d.isLocked id = true) (timeout : Duration) :
    ∃ e d', acquire dir timeout d = .error e d' ∧ Tried dir d d' ∧
      ((∃ fault, e = .io fault) ∨ e = .timeout timeout) := by
  have hspec := acquire_spec hd dir timeout
  cases hr : acquire dir timeout d with
  | error e d' =>
    rw [hr] at hspec
    exact ⟨e, d', rfl, hspec⟩
  | ok lock d' =>
    rw [hr] at hspec
    obtain ⟨d₁, htried, hfree, -, content', hfile'⟩ := hspec
    rw [htried.old hfile] at hfile'
    cases hfile'
    rw [Disk.isLocked, htried.ext.locked] at hfree
    rw [Disk.isLocked, hfree] at hlocked
    cases hlocked

theorem acquire_eq (dir : Path) (timeout : Duration) (d : Disk) : acquire dir timeout d =
    match Disk.createDirs dir d with
    | .error e d => .error (.io e) d
    | .ok _ d =>
      match d.openFile (dir.join fileName) with
      | .error e => .error (.io e) d
      | .ok (_, file, d) =>
        if !d.isLocked file then .ok ⟨dir.join fileName, file⟩ (d.lock file)
        else .error (.timeout timeout) d :=
  rfl

/-- Nobody holds the lock, and if its file is still to be made nobody holds a lock on that. -/
structure Free (dir : Path) (d : Disk) : Prop where
  old : ∀ {id content}, d.node? (locationOf d.home dir) = some (.file id content) →
    d.isLocked id = false
  new : (∀ id content, d.node? (locationOf d.home dir) ≠ some (.file id content)) →
    d.isLocked d.nextId = false

theorem Free.createDirs (h : Free dir d) (hd : d.WellFormed) (p : Path) :
    Free dir (endState (Disk.createDirs p d)) := by
  obtain ⟨-, hext⟩ := Disk.leads_createDirs p d hd
  have hnext := Disk.nextId_createDirs p d
  refine ⟨fun {id content} hfile => ?_, fun hnone => ?_⟩
  · rw [hext.home, hext.file not_false] at hfile
    rw [Disk.isLocked, hext.locked]
    exact h.old hfile
  · rw [Disk.isLocked, hext.locked, hnext]
    refine h.new fun id content hfile => hnone id content ?_
    rwa [hext.home, hext.file not_false]

/-- Only the operating system can keep a lock away that is free. -/
theorem fault_of_acquire {e : LockError} (hd : d.WellFormed) (hfree : Free dir d)
    (h : acquire dir timeout d = .error e d') : ∃ fault, e = .io fault := by
  have hdirs := hfree.createDirs hd dir
  rw [acquire_eq] at h
  cases hc : Disk.createDirs dir d with
  | error e₁ d₁ =>
    rw [hc] at h
    cases h
    exact ⟨e₁, rfl⟩
  | ok u d₁ =>
    rw [hc, endState_ok] at hdirs
    rw [hc] at h
    cases ho : d₁.openFile (dir.join fileName) with
    | error e₁ =>
      simp only [ho] at h
      cases h
      exact ⟨e₁, rfl⟩
    | ok r =>
      obtain ⟨l, file, d₂⟩ := r
      obtain ⟨hlocked, hnumber⟩ := Disk.openFile_number ho
      have hunlocked : d₂.isLocked file = false := by
        rw [Disk.isLocked, hlocked]
        rcases hnumber with ⟨content, hfile⟩ | ⟨hnone, rfl⟩
        · exact hdirs.old hfile
        · exact hdirs.new fun id content hfile => by cases hnone.symm.trans hfile
      simp only [ho, hunlocked] at h
      cases h

theorem reaches_of_acquire {lock : DirectoryLock} (hd : d.WellFormed)
    (h : acquire dir timeout d = .ok lock d') : d'.Reaches dir := by
  have hdirs := Disk.leads_createDirs dir d hd
  rw [acquire_eq] at h
  cases hc : Disk.createDirs dir d with
  | error e₁ d₁ =>
    rw [hc] at h
    cases h
  | ok u d₁ =>
    rw [hc, endState_ok] at hdirs
    rw [hc] at h
    cases ho : d₁.openFile (dir.join fileName) with
    | error e₁ =>
      simp only [ho] at h
      cases h
    | ok r =>
      obtain ⟨l, file, d₂⟩ := r
      obtain ⟨-, hopened⟩ := Disk.openFile_ok hdirs.1 ho
      have hreaches : d₁.Reaches dir :=
        Disk.reaches_of_passable (by decide) (by decide) hopened.passable
      have hd' : d' = d₂.lock file := by
        simp only [ho] at h
        split at h <;> cases h
        rfl
      rw [hd']
      exact (hreaches.mono hopened.ext.home hopened.ext.directory).mono rfl id

end HistoryKeeper.DirectoryLock
