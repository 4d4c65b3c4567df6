import HistoryKeeper.Proofs.Disk.Operations

/-!
# Operations that can be repeated

What `write`, `rename` and `createDirs` need in order to succeed is that paths can be passed and that
nothing but files lies where a file is to go. A disk with more directories has that as well, unless one
of them is in the way; so what has succeeded once succeeds again (`createDirs_of_isDirectory`,
`rename_again`).
-/

namespace HistoryKeeper.Disk

open HistoryKeeper.Path (target)

variable {changed : Location → Prop} {d d' : Disk} {l : Location} {p q : Path} {id : FileId}
  {content content' : Bytes}

theorem stat_eq_directory_iff : d.stat p = .ok .directory ↔
    p.Fits ∧ d.Passable (p.start d.home) p.segments ∧
      d.node? (p.location d.home) = some .directory := by
  unfold stat
  cases hr : d.resolve p with
  | error e =>
    refine ⟨nofun, fun ⟨hfits, hpass, _⟩ => ?_⟩
    rw [resolve_eq_ok_iff.mpr ⟨hfits, hpass, rfl⟩] at hr
    cases hr
  | ok t =>
    obtain ⟨hfits, hpass, rfl⟩ := resolve_eq_ok_iff.mp hr
    dsimp only [bind, Except.bind, target]
    split
    · rename_i hn
      exact ⟨nofun, fun h => by rw [hn] at h; cases h.2.2⟩
    · rename_i hn
      exact ⟨fun _ => ⟨hfits, hpass, hn⟩, fun _ => rfl⟩
    · rename_i hn
      refine ⟨fun h => ?_, fun h => by rw [hn] at h; cases h.2.2⟩
      split at h <;> cases h

theorem isDirectory_iff : d.isDirectory p = true ↔ d.stat p = .ok .directory := by
  unfold isDirectory
  split
  · exact ⟨fun _ => ‹_›, fun _ => rfl⟩
  · rename_i hne
    exact ⟨nofun, fun h => absurd h hne⟩

theorem Extends.isDirectory (h : Extends changed d d') (hp : d.isDirectory p = true) :
    d'.isDirectory p = true := by
  rw [isDirectory_iff, stat_eq_directory_iff] at hp ⊢
  obtain ⟨hfits, hpass, hdir⟩ := hp
  rw [h.home]
  exact ⟨hfits, h.passable hpass, h.directory hdir⟩

theorem isDirectory_makeDir (hd : d.WellFormed) (h : d.makeDir p = .ok d') :
    d'.isDirectory p = true := by
  have hext := (makeDir_ok hd h).2
  unfold makeDir at h
  cases hr : d.resolve p with
  | error e => rw [hr] at h; cases h
  | ok t =>
    rw [hr] at h
    obtain ⟨hfits, hpass, rfl⟩ := resolve_eq_ok_iff.mp hr
    dsimp only [bind, Except.bind, target] at h
    split at h
    · cases h
    · rename_i hnone
      cases h
      obtain ⟨hne, -⟩ := parent_of_passable hd hfits hpass hnone
      rw [isDirectory_iff, stat_eq_directory_iff]
      refine ⟨hfits, hext.passable hpass, ?_⟩
      rw [node?_insert rfl hne]
      exact if_pos rfl

theorem isDirectory_ensureDir (hd : d.WellFormed) (h : ensureDir p d = .ok () d') :
    d'.isDirectory p = true := by
  unfold ensureDir at h
  split at h
  · rename_i hmake
    cases h
    exact isDirectory_makeDir hd hmake
  · split at h
    · cases h
      assumption
    · cases h

theorem isDirectory_createDirsWithin {fuel : Nat} (hd : d.WellFormed)
    (h : createDirsWithin fuel p d = .ok () d') : p.text.isEmpty = true ∨ d'.isDirectory p = true := by
  cases fuel with
  | zero => cases h
  | succ fuel =>
    unfold createDirsWithin at h
    split at h
    · exact Or.inl ‹_›
    · right
      split at h
      · rename_i hmake
        cases h
        exact isDirectory_makeDir hd hmake
      · split at h
        · cases h
        · rename_i parent _
          have habove := leads_createDirsWithin fuel parent d hd
          split at h
          · rename_i hr
            rw [hr, endState_ok] at habove
            exact isDirectory_ensureDir habove.1 h
          · cases h
      · split at h
        · cases h
          assumption
        · cases h

theorem isDirectory_createDirs (hd : d.WellFormed) (h : createDirs p d = .ok () d') :
    p.text.isEmpty = true ∨ d'.isDirectory p = true :=
  isDirectory_createDirsWithin hd h

theorem createDirsWithin_of_isDirectory (fuel : Nat) (h : p.text.isEmpty = true ∨ d.isDirectory p = true) :
    createDirsWithin (fuel + 1) p d = .ok () d := by
  unfold createDirsWithin
  split
  · rfl
  · rename_i hnonempty
    have hdir := h.resolve_left hnonempty
    obtain ⟨hfits, hpass, hnode⟩ := stat_eq_directory_iff.mp (isDirectory_iff.mp hdir)
    have hmake : d.makeDir p = .error .exists := by
      unfold makeDir
      rw [resolve_eq_ok_iff.mpr ⟨hfits, hpass, rfl⟩]
      dsimp only [bind, Except.bind, target]
      rw [hnode]
      rfl
    rw [hmake, hdir]
    rfl

theorem createDirs_of_isDirectory (h : p.text.isEmpty = true ∨ d.isDirectory p = true) :
    createDirs p d = .ok () d :=
  createDirsWithin_of_isDirectory _ h

theorem Writable.mono (h : d.Writable p) (hext : Extends changed d d')
    (hfree : d'.node? (p.location d.home) ≠ some .directory) : d'.Writable p := by
  refine ⟨h.fits, ?_, h.slash, ?_⟩
  · rw [hext.home]
    exact hext.passable h.passable
  · rw [hext.home]
    exact hfree

theorem HasFile.writable (h : d.HasFile p id content) : d.Writable p :=
  ⟨h.fits, h.passable, h.slash, by simp [h.file]⟩

theorem HasFile.location_ne_nil (h : d.HasFile p id content) : p.location d.home ≠ [] := by
  intro he
  have hfile := h.file
  rw [he, node?_nil] at hfile
  cases hfile

theorem write_of_writable (h : d.Writable p) (content : Bytes) :
    ∃ d', d.write p content = .ok d' := by
  have hopen : ∃ r, d.openFile p = .ok r := by
    unfold openFile
    rw [resolve_eq_ok_iff.mpr ⟨h.fits, h.passable, rfl⟩]
    dsimp only [bind, Except.bind, target]
    rw [h.slash]
    cases hn : d.node? (p.location d.home) with
    | none => exact ⟨_, rfl⟩
    | some n =>
      cases n with
      | directory => exact absurd hn h.free
      | file id content => exact ⟨_, rfl⟩
  obtain ⟨r, hr⟩ := hopen
  unfold write
  rw [hr]
  exact ⟨_, rfl⟩

/-- Where a file was renamed onto another name, the same can be done once more. -/
theorem rename_again (hd : d.WellFormed) (hp : d.HasFile p id content)
    (h : d.rename p q = .ok d') (content' : Bytes) :
    ∃ e e', d'.write p content' = .ok e ∧ e.rename p q = .ok e' := by
  obtain ⟨hwf, hext, hfile⟩ := rename_ok hd hp h
  obtain ⟨-, hdots, hd'⟩ := (rename_eq_ok_iff hp).mp h
  have hplace : d'.node? (p.location d.home) ≠ some .directory := by
    obtain ⟨d₁, hd₁⟩ : ∃ d₁ : Disk, d₁ = { d with nodes := d.nodes.erase (p.location d.home) } :=
      ⟨_, rfl⟩
    have hnodes : d'.nodes = d₁.nodes.insert (q.location d.home) (.file id content) := by
      rw [← hd', hd₁]
    have hne : q.location d.home ≠ [] := hext.home ▸ hfile.location_ne_nil
    rw [node?_insert hnodes hne, node?_erase hd (by rw [hd₁]) hp.location_ne_nil]
    split <;> simp
  obtain ⟨e, hwrite⟩ := write_of_writable (hp.writable.mono hext hplace) content'
  obtain ⟨-, hext', id', hfile'⟩ := write_ok hwf hwrite
  have hfree : e.node? (q.location d'.home) ≠ some .directory := by
    by_cases hsame : q.location d'.home = p.location d'.home
    · rw [hsame, ← hext'.home, hfile'.file]
      simp
    · rw [(hext'.file hsame).mpr hfile.file]
      simp
  refine ⟨e, _, hwrite, (rename_eq_ok_iff hfile').mpr ⟨hfile.writable.mono hext' hfree, ?_, rfl⟩⟩
  rw [hext'.home, hext.home]
  exact hdots

end HistoryKeeper.Disk
