import HistoryKeeper.Proofs.Disk.Again

/-!
# What is left alone altogether

`Disk.Extends` follows files, and lets directories come up anywhere. Where nobody makes directories more
can be said: outside of the changed locations everything is as it was (`Frame.node?_eq`), and so whatever a
path leads to (`Frame.stat_eq_ok_iff`).

The number of the process at work is part of the disk as well, but nothing that is looked up depends on it
(`stat_asProcess`, `openFile_asProcess`).
-/

namespace HistoryKeeper.Disk

variable {changed changed' : Location → Prop} {p q : Path} {d d' d'' : Disk} {l : Location}
  {content : Bytes} {id : FileId}

/-- No directory is made. -/
def SameDirectories (d d' : Disk) : Prop :=
  ∀ l, d'.node? l = some .directory → d.node? l = some .directory

/-- Nothing is changed but at these locations, where no directory comes up or goes away. -/
structure Frame (changed : Location → Prop) (d d' : Disk) : Prop where
  wellFormed : d'.WellFormed
  ext : Extends changed d d'
  sameDirectories : SameDirectories d d'

namespace Frame

theorem refl (hd : d.WellFormed) : Frame changed d d :=
  ⟨hd, Extends.refl _ d, fun _ h => h⟩

theorem mono (h : Frame changed d d') (himp : ∀ l, changed l → changed' l) : Frame changed' d d' :=
  ⟨h.wellFormed, h.ext.mono himp, h.sameDirectories⟩

theorem trans (h : Frame changed d d') (h' : Frame changed d' d'') : Frame changed d d'' :=
  ⟨h'.wellFormed, h.ext.trans h'.ext, fun l hl => h.sameDirectories l (h'.sameDirectories l hl)⟩

theorem node?_eq (h : Frame changed d d') (hl : ¬ changed l) : d'.node? l = d.node? l := by
  cases hn : d.node? l with
  | none =>
    cases hn' : d'.node? l with
    | none => rfl
    | some n =>
      cases n with
      | directory => rw [h.sameDirectories l hn'] at hn; cases hn
      | file id content => rw [(h.ext.file hl).mp hn'] at hn; cases hn
  | some n =>
    cases n with
    | directory => exact h.ext.directory hn
    | file id content => exact (h.ext.file hl).mpr hn

theorem passable_iff {segments : List String} (h : Frame changed d d') :
    d'.Passable l segments ↔ d.Passable l segments :=
  ⟨fun hp pre s post he => h.sameDirectories _ (hp pre s post he), h.ext.passable⟩

/-- What lies at a path that was not changed is found as before. -/
theorem stat_eq_ok_iff (h : Frame changed d d') (hp : ¬ changed (p.location d.home)) {n : Node} :
    d'.stat p = .ok n ↔ d.stat p = .ok n := by
  have hnode := h.node?_eq hp
  cases n with
  | directory => rw [stat_eq_directory_iff, stat_eq_directory_iff, h.ext.home, h.passable_iff, hnode]
  | file id content => rw [stat_eq_file_iff, stat_eq_file_iff, h.ext.home, h.passable_iff, hnode]

theorem isDirectory (h : Frame changed d d') (hp : d.isDirectory p = true) : d'.isDirectory p = true :=
  h.ext.isDirectory hp

theorem hasFile (h : Frame changed d d') (hp : ¬ changed (p.location d.home))
    (hfile : d.HasFile p id content) : d'.HasFile p id content :=
  hasFile_iff.mpr ((h.stat_eq_ok_iff hp).mpr (hasFile_iff.mp hfile))

end Frame

theorem sameDirectories_insert (hnodes : d'.nodes = d.nodes.insert l (.file id content)) (hl : l ≠ []) :
    SameDirectories d d' := by
  intro x hx
  rw [node?_insert hnodes hl] at hx
  split at hx
  · cases hx
  · exact hx

theorem sameDirectories_openFile (hd : d.WellFormed) (h : d.openFile p = .ok (l, id, d')) :
    SameDirectories d d' := by
  have hne := (openFile_ok hd h).2.location_ne_nil
  unfold openFile at h
  cases hr : d.resolve p with
  | error e => rw [hr] at h; cases h
  | ok t =>
    rw [hr] at h
    obtain ⟨-, -, rfl⟩ := resolve_eq_ok_iff.mp hr
    dsimp only [bind, Except.bind, Path.target] at h
    split at h
    · cases h
    · split at h
      · cases h
      · cases h
        exact fun _ hl => hl
      · cases h
        exact sameDirectories_insert rfl hne

theorem frame_write (hd : d.WellFormed) (h : d.write p content = .ok d') :
    Frame (· = p.location d.home) d d' := by
  obtain ⟨hwf, hext, -⟩ := write_ok hd h
  refine ⟨hwf, hext, ?_⟩
  unfold write at h
  cases ho : d.openFile p with
  | error e => rw [ho] at h; cases h
  | ok r =>
    obtain ⟨l, id, d₁⟩ := r
    rw [ho] at h
    cases h
    obtain ⟨rfl, hopened⟩ := openFile_ok hd ho
    exact fun x hx => sameDirectories_openFile hd ho x
      (sameDirectories_insert (d := d₁) rfl hopened.location_ne_nil x hx)

theorem frame_remove (hd : d.WellFormed) (h : d.remove p = .ok d') :
    Frame (· = p.location d.home) d d' := by
  obtain ⟨hwf, hext⟩ := remove_ok hd h
  refine ⟨hwf, hext, fun x hx => ?_⟩
  rw [node?_remove hd h] at hx
  split at hx
  · cases hx
  · exact hx

theorem frame_rename (hd : d.WellFormed) (hp : d.HasFile p id content) (h : d.rename p q = .ok d') :
    Frame (fun l => l = p.location d.home ∨ l = q.location d.home) d d' := by
  obtain ⟨hwf, hext, -⟩ := rename_ok hd hp h
  refine ⟨hwf, hext, fun x hx => ?_⟩
  rw [node?_rename hd hp h] at hx
  split at hx
  · cases hx
  · split at hx
    · cases hx
    · exact hx

theorem HasFile.openFile (h : d.HasFile p id content) :
    d.openFile p = .ok (p.location d.home, id, d) := by
  unfold Disk.openFile
  rw [resolve_eq_ok_iff.mpr ⟨h.fits, h.passable, rfl⟩]
  dsimp only [bind, Except.bind, Path.target]
  rw [h.slash, h.file]
  rfl

/-! ### Processes -/

/-- The disk as another process has it. -/
def asProcess (d : Disk) (processId : Nat) : Disk :=
  { d with processId }

variable {n : Nat}

@[simp] theorem nodes_asProcess (d : Disk) (n : Nat) : (d.asProcess n).nodes = d.nodes := rfl

@[simp] theorem home_asProcess (d : Disk) (n : Nat) : (d.asProcess n).home = d.home := rfl

@[simp] theorem node?_asProcess (d : Disk) (n : Nat) (l : Location) :
    (d.asProcess n).node? l = d.node? l := rfl

theorem resolve_asProcess (p : Path) : (d.asProcess n).resolve p = d.resolve p :=
  resolve_congr (nodes_asProcess d n) (home_asProcess d n) p

theorem stat_asProcess (p : Path) : (d.asProcess n).stat p = d.stat p :=
  stat_congr (nodes_asProcess d n) (home_asProcess d n) p

theorem isDirectory_asProcess (p : Path) : (d.asProcess n).isDirectory p = d.isDirectory p := by
  unfold isDirectory
  rw [stat_asProcess]

theorem makeDir_asProcess (p : Path) :
    (d.asProcess n).makeDir p = (d.makeDir p).map (·.asProcess n) := by
  unfold makeDir
  rw [resolve_asProcess]
  cases d.resolve p with
  | error e => rfl
  | ok t =>
    simp only [bind, Except.bind, node?_asProcess]
    cases d.node? t.location <;> rfl

theorem openFile_asProcess (p : Path) : (d.asProcess n).openFile p =
    (d.openFile p).map fun (l, id, d) => (l, id, d.asProcess n) := by
  unfold openFile
  rw [resolve_asProcess]
  cases d.resolve p with
  | error e => rfl
  | ok t =>
    cases hslash : t.slash with
    | true =>
      simp only [bind, Except.bind, hslash]
      rfl
    | false =>
      simp only [bind, Except.bind, hslash, node?_asProcess]
      cases d.node? t.location with
      | none => rfl
      | some node => cases node <;> rfl

theorem createDirsWithin_asProcess (fuel : Nat) (p : Path) : createDirsWithin fuel p (d.asProcess n) =
    mapState (·.asProcess n) (createDirsWithin fuel p d) := by
  have hensure : ∀ (p : Path) (d : Disk), ensureDir p (d.asProcess n) =
      mapState (·.asProcess n) (ensureDir p d) := by
    intro p d
    unfold ensureDir
    rw [makeDir_asProcess, isDirectory_asProcess]
    cases d.makeDir p with
    | ok d' => rfl
    | error e =>
      show (if d.isDirectory p then _ else _) = mapState _ (if d.isDirectory p then _ else _)
      split <;> rfl
  induction fuel generalizing p d with
  | zero => rfl
  | succ fuel ih =>
    unfold createDirsWithin
    rw [makeDir_asProcess, isDirectory_asProcess]
    split
    · rfl
    · cases d.makeDir p with
      | ok d' => rfl
      | error e =>
        cases e with
        | notFound =>
          simp only [Except.map]
          cases p.parent? with
          | none => rfl
          | some q =>
            simp only [ih]
            cases createDirsWithin fuel q d with
            | ok u d' => exact hensure p d'
            | error e d' => rfl
        | _ =>
          simp only [Except.map]
          split <;> rfl

end HistoryKeeper.Disk
