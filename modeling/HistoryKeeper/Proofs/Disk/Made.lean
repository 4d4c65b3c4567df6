import HistoryKeeper.Proofs.Disk.Frame
import HistoryKeeper.Proofs.Disk.Stuck

/-!
# Directories that are made

`createDirs` makes a path and its parents into directories. Parents are the fronts of a path
(`Path.fronts_parent`), so for a path that is settled they lie above its end or are there already. Nothing
else comes up (`Disk.makes_createDirs`); what is no directory and not above the path stays none
(`Disk.Settled.isDirectory`).
-/

namespace HistoryKeeper

namespace Path

variable {p q r : Path}

/-- One path is the other one up to some component. -/
structure Fronts (q p : Path) : Prop where
  isAbsolute : q.isAbsolute = p.isAbsolute
  body : q.body <+: p.body

theorem Fronts.refl (p : Path) : p.Fronts p :=
  ⟨rfl, List.prefix_rfl⟩

theorem Fronts.trans (h : r.Fronts q) (h' : q.Fronts p) : r.Fronts p :=
  ⟨h.isAbsolute.trans h'.isAbsolute, h.body.trans h'.body⟩

theorem fronts_parent (h : p.parent? = some q) (hne : q.text.isEmpty = false) : q.Fronts p := by
  obtain ⟨cs, c, hcs, rfl⟩ := exists_of_parent? h
  have hnil : cs ≠ [] := by
    rintro rfl
    cases hne
  have hprefix : cs <+: p.components := ⟨[c], hcs.symm⟩
  obtain ⟨habs, hbody, -⟩ := ofComponents_spec hprefix
  refine ⟨?_, ?_⟩
  · rw [habs, isAbsolute_eq_head? p, hcs, List.head?_append_of_ne_nil cs hnil]
  · rw [hbody, (front_eq_filter p).2, hcs, List.filter_append]
    exact List.prefix_append ..

end Path

namespace Disk

open HistoryKeeper.Path (walk Fronts)

variable {places places' : Location → Prop} {d d' d'' : Disk} {p q : Path} {l : Location}

/-- Directories come up at these places only. -/
def MakesWithin (places : Location → Prop) (d d' : Disk) : Prop :=
  ∀ l, d'.node? l = some .directory → d.node? l = some .directory ∨ places l

namespace MakesWithin

theorem refl (d : Disk) : MakesWithin places d d :=
  fun _ => .inl

theorem mono (h : MakesWithin places d d') (hp : ∀ l, places l → places' l) :
    MakesWithin places' d d' :=
  fun l hl => (h l hl).imp_right (hp l)

theorem trans (h : MakesWithin places d d') (h' : MakesWithin places d' d'') :
    MakesWithin places d d'' :=
  fun l hl => (h' l hl).elim (h l) .inr

theorem of_sameDirectories (h : SameDirectories d d') : MakesWithin places d d' :=
  fun l hl => .inl (h l hl)

end MakesWithin

/-- A front of a settled path leads to a place above its end, or to a directory that is there. -/
theorem Settled.front (hs : d.Settled p) (hq : q.Fronts p) :
    q.location d.home <+: p.location d.home ∨ d.node? (q.location d.home) = some .directory := by
  obtain ⟨pre, ⟨post, hpost⟩, hpre⟩ := List.prefix_filterMap_iff.mp hq.body
  have hstart : q.start d.home = p.start d.home := by rw [Path.start, Path.start, hq.isAbsolute]
  have hlocation : q.location d.home = walk (p.start d.home) pre := by
    rw [Path.location, Path.walk_eq_foldl, Path.walk_eq_foldl, ← hpre, hstart]
    rfl
  rw [hlocation]
  exact hs pre post hpost.symm

theorem makes_makeDir (hs : d.Settled p) (hq : q.Fronts p) (h : d.makeDir q = .ok d') :
    MakesWithin (· <+: p.location d.home) d d' := by
  unfold makeDir at h
  cases hr : d.resolve q with
  | error e =>
    rw [hr] at h
    cases h
  | ok t =>
    rw [hr] at h
    obtain ⟨-, -, rfl⟩ := resolve_eq_ok_iff.mp hr
    dsimp only [bind, Except.bind, Path.target] at h
    split at h
    · cases h
    · rename_i hnone
      cases h
      have hne : q.location d.home ≠ [] := by
        intro he
        rw [he, node?_nil] at hnone
        cases hnone
      intro l hl
      rw [node?_insert rfl hne] at hl
      split at hl
      · rename_i he
        subst he
        exact .inr ((hs.front hq).resolve_right (by simp [hnone]))
      · exact .inl hl

theorem makes_ensureDir (hs : d.Settled p) (hq : q.Fronts p) :
    MakesWithin (· <+: p.location d.home) d (endState (ensureDir q d)) := by
  unfold ensureDir
  split
  · exact makes_makeDir hs hq ‹_›
  · split <;> exact .refl d

theorem makes_createDirsWithin (hd : d.WellFormed) (hs : d.Settled p)
    (hq : q.text.isEmpty = true ∨ q.Fronts p) (fuel : Nat) :
    MakesWithin (· <+: p.location d.home) d (endState (createDirsWithin fuel q d)) := by
  induction fuel generalizing q with
  | zero => exact .refl d
  | succ fuel ih =>
    unfold createDirsWithin
    split
    · exact .refl d
    · rename_i hne
      have hfronts := hq.resolve_left hne
      split
      · exact makes_makeDir hs hfronts ‹_›
      · split
        · exact .refl d
        · rename_i parent hparent
          have hq' : parent.text.isEmpty = true ∨ parent.Fronts p := by
            cases hempty : parent.text.isEmpty with
            | true => exact .inl rfl
            | false => exact .inr ((Path.fronts_parent hparent hempty).trans hfronts)
          have habove := ih hq'
          have hext := (leads_createDirsWithin fuel parent d hd).2
          cases hr : createDirsWithin fuel parent d with
          | error e d₁ =>
            rw [hr] at habove
            exact habove
          | ok u d₁ =>
            rw [hr, endState_ok] at habove hext
            have hend := makes_ensureDir (hs.mono hext) hfronts
            rw [hext.home] at hend
            exact habove.trans hend
      · split <;> exact .refl d

/-- Nothing but what lies above the end of a settled path becomes a directory for it. -/
theorem makes_createDirs (hd : d.WellFormed) (hs : d.Settled p) (hq : p.parent? = some q) :
    MakesWithin (· <+: p.location d.home) d (endState (createDirs q d)) := by
  refine makes_createDirsWithin hd hs ?_ _
  cases hempty : q.text.isEmpty with
  | true => exact .inl rfl
  | false => exact .inr (Path.fronts_parent hq hempty)

/-- A settled path leads to the directory that lies in its place. -/
theorem Settled.isDirectory (hs : d.Settled p) (hd : d.WellFormed) (hfits : p.Fits)
    (hdir : d.node? (p.location d.home) = some .directory) : d.isDirectory p = true := by
  refine isDirectory_iff.mpr (stat_eq_directory_iff.mpr ⟨hfits, fun pre s post he => ?_, hdir⟩)
  rcases hs pre (s :: post) he with habove | hthere
  · by_cases hend : walk (p.start d.home) pre = p.location d.home
    · rw [hend, hdir]
    · exact hd.above hdir habove hend
  · exact hthere

/-- No directory comes up at the end of a path that nothing is made above or at. -/
theorem MakesWithin.isDirectory (h : MakesWithin places d d') (hd : d.WellFormed) (hs : d.Settled p)
    (hhome : d'.home = d.home) (hp : ¬ places (p.location d.home)) (hdir : d'.isDirectory p = true) :
    d.isDirectory p = true := by
  obtain ⟨hfits, -, hnode⟩ := stat_eq_directory_iff.mp (isDirectory_iff.mp hdir)
  rw [hhome] at hnode
  exact hs.isDirectory hd hfits ((h _ hnode).resolve_right hp)

end Disk

end HistoryKeeper
