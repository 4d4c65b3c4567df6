import HistoryKeeper.Proofs.Disk.Tree

/-!
# What operations on the disk leave alone

`Disk.Extends changed d d'`: the disk `d'` has all directories of `d` and, apart from the locations
in `changed`, the same files; the locks are the same. Every operation keeps the disk well-formed and
extends it, with few changed locations: `makeDir` and `createDirs` change none, `openFile`, `write` and
`remove` the path's, `rename` those of both paths.

A disk that `Shows` what lies in the place of a path goes on doing so, and the path leads to an unchanged file
after the operation if and only if it did before (`Extends.stat_eq_file_iff`). A path that is `Settled` shows what
lies in its place, and directories too.
-/

namespace HistoryKeeper.Disk

open HistoryKeeper.Path (walk advance target)

variable {changed changed' : Location → Prop} {d d' d'' : Disk} {l x : Location} {n : Node} {p q : Path}
  {id : FileId} {content : Bytes}

structure Extends (changed : Location → Prop) (d d' : Disk) : Prop where
  home : d'.home = d.home
  processId : d'.processId = d.processId
  locked : d'.locked = d.locked
  directory : ∀ {l}, d.node? l = some .directory → d'.node? l = some .directory
  file : ∀ {l}, ¬ changed l → ∀ {id content},
    d'.node? l = some (.file id content) ↔ d.node? l = some (.file id content)

/-- No location. -/
def nowhere : Location → Prop := fun _ => False

namespace Extends

theorem refl (changed : Location → Prop) (d : Disk) : Extends changed d d :=
  ⟨rfl, rfl, rfl, id, fun _ => Iff.rfl⟩

theorem mono (h : Extends changed d d') (hc : ∀ l, changed l → changed' l) :
    Extends changed' d d' :=
  ⟨h.home, h.processId, h.locked, h.directory, fun hl => h.file fun hl' => hl (hc _ hl')⟩

theorem weaken (h : Extends nowhere d d') : Extends changed d d' :=
  h.mono fun _ => False.elim

theorem trans (h : Extends changed d d') (h' : Extends changed d' d'') : Extends changed d d'' :=
  ⟨h'.home.trans h.home, h'.processId.trans h.processId, h'.locked.trans h.locked,
    fun hl => h'.directory (h.directory hl), fun hl => (h'.file hl).trans (h.file hl)⟩

theorem passable {segments : List String} (h : Extends changed d d')
    (hp : d.Passable l segments) : d'.Passable l segments :=
  fun pre s post he => h.directory (hp pre s post he)

end Extends

/-- Every directory that the path leads through lies above its end or is there already. Only a path
that goes back up can fail this: out of a directory that is missing it leads nowhere, until somebody
makes that directory. -/
def Settled (d : Disk) (p : Path) : Prop :=
  ∀ pre post, p.segments = pre ++ post →
    walk (p.start d.home) pre <+: p.location d.home ∨
      d.node? (walk (p.start d.home) pre) = some .directory

/-- Directories that stay are all that it takes to stay settled. -/
theorem Settled.of_directories (hs : d.Settled p) (hhome : d'.home = d.home)
    (hdir : ∀ {l}, d.node? l = some .directory → d'.node? l = some .directory) : d'.Settled p := by
  intro pre post he
  rw [hhome]
  exact (hs pre post he).imp_right hdir

theorem Settled.mono (hs : d.Settled p) (h : Extends changed d d') : d'.Settled p :=
  hs.of_directories h.home h.directory

theorem settled_of_no_up (h : ".." ∉ p.segments) : d.Settled p := by
  have hprefix : ∀ (segments : List String) (l : Location), ".." ∉ segments →
      l <+: walk l segments := by
    intro segments
    induction segments with
    | nil => exact fun l _ => List.prefix_rfl
    | cons s segments ih =>
      intro l hup
      rw [List.mem_cons, not_or] at hup
      refine List.IsPrefix.trans ?_ (ih (advance l s) hup.2)
      unfold advance
      split
      · exact List.prefix_rfl
      · rw [if_neg (Ne.symm hup.1)]
        exact List.prefix_append ..
  intro pre post he
  left
  rw [Path.location, he, Path.walk_append]
  exact hprefix post _ fun hm => h (by rw [he]; exact List.mem_append_right _ hm)

theorem stat_eq_file_iff : d.stat p = .ok (.file id content) ↔
    p.Fits ∧ d.Passable (p.start d.home) p.segments ∧ p.hasTrailingSlash = false ∧
      d.node? (p.location d.home) = some (.file id content) := by
  unfold stat
  cases hr : d.resolve p with
  | error e =>
    refine ⟨fun h => (by cases h), fun h => ?_⟩
    obtain ⟨hfits, hpass, -⟩ := h
    rw [resolve_eq_ok_iff.mpr ⟨hfits, hpass, rfl⟩] at hr
    cases hr
  | ok t =>
    obtain ⟨hfits, hpass, rfl⟩ := resolve_eq_ok_iff.mp hr
    dsimp only [bind, Except.bind, target]
    split
    · rename_i hn
      exact ⟨fun h => (by cases h), fun h => by rw [hn] at h; simp at h⟩
    · rename_i hn
      exact ⟨fun h => (by cases h), fun h => by rw [hn] at h; simp at h⟩
    · rename_i id' content' hn
      split
      · rename_i hslash
        exact ⟨fun h => (by cases h), fun h => by rw [hslash] at h; simp at h⟩
      · rename_i hslash
        rw [hn]
        refine ⟨fun h => ?_, fun h => ?_⟩
        · cases h
          exact ⟨hfits, hpass, by simpa using hslash, rfl⟩
        · obtain ⟨-, -, -, hfile⟩ := h
          cases hfile
          rfl

/-- No directory is missing on the way to a file that lies in the place of the path. If there is no file, the
path may lead through directories that are missing. -/
def Shows (d : Disk) (p : Path) : Prop :=
  ∀ id content, d.node? (p.location d.home) = some (.file id content) →
    ∀ pre s post, p.segments = pre ++ s :: post →
      walk (p.start d.home) pre = p.location d.home ∨
        d.node? (walk (p.start d.home) pre) = some .directory

theorem Settled.shows (hs : d.Settled p) (hd : d.WellFormed) : d.Shows p := by
  intro id content hfile pre s post he
  rcases hs pre (s :: post) he with habove | hdir
  · exact (em _).imp_right fun hne => hd.above hfile habove hne
  · exact .inr hdir

theorem shows_of_no_up (hd : d.WellFormed) (h : ".." ∉ p.segments) : d.Shows p :=
  (settled_of_no_up h).shows hd

theorem Shows.mono (hs : d.Shows p) (h : Extends changed d d') (hp : ¬ changed (p.location d.home)) :
    d'.Shows p := by
  intro id content hfile pre s post he
  rw [h.home] at hfile ⊢
  exact (hs id content ((h.file hp).mp hfile) pre s post he).imp_right h.directory

/-- A file that was not changed is found where it was, and no other has come up in its place. -/
theorem Extends.stat_eq_file_iff (h : Extends changed d d') (hs : d.Shows p)
    (hp : ¬ changed (p.location d.home)) :
    d'.stat p = .ok (.file id content) ↔ d.stat p = .ok (.file id content) := by
  rw [Disk.stat_eq_file_iff, Disk.stat_eq_file_iff, h.home, h.file hp]
  refine ⟨fun ⟨hfits, hpass, hslash, hfile⟩ => ⟨hfits, ?_, hslash, hfile⟩,
    fun ⟨hfits, hpass, hslash, hfile⟩ => ⟨hfits, h.passable hpass, hslash, hfile⟩⟩
  intro pre s post he
  refine (hs id content hfile pre s post he).resolve_left fun hplace => ?_
  have hdir := hpass pre s post he
  rw [hplace, (h.file hp).mpr hfile] at hdir
  cases hdir

/-- Where a path leads depends only on the tree and on where relative paths start. -/
theorem resolve_congr (hnodes : d'.nodes = d.nodes) (hhome : d'.home = d.home) (p : Path) :
    d'.resolve p = d.resolve p := by
  have hsteps : ∀ (segments : List String) (l : Location), d'.steps l segments = d.steps l segments := by
    intro segments
    induction segments with
    | nil => exact fun _ => rfl
    | cons s segments ih =>
      intro l
      unfold steps step
      rw [node?_congr hnodes]
      exact bind_congr ih
  unfold resolve
  simp only [hsteps, hhome]

theorem stat_congr (hnodes : d'.nodes = d.nodes) (hhome : d'.home = d.home) (p : Path) :
    d'.stat p = d.stat p := by
  unfold stat
  simp only [resolve_congr hnodes hhome, node?_congr hnodes]

theorem Shows.congr (hs : d.Shows p) (hnodes : d'.nodes = d.nodes) (hhome : d'.home = d.home) :
    d'.Shows p := by
  unfold Shows
  simp only [hhome, node?_congr hnodes]
  exact hs

end HistoryKeeper.Disk
