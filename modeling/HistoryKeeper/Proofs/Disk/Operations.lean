import HistoryKeeper.Proofs.Data.Outcome
import HistoryKeeper.Proofs.Disk.Extends

/-!
# Operations on the disk

Every operation that succeeds keeps the disk well-formed and extends it, and `createDirs` does so
even if it fails. `openFile`, `write` and `rename` tell in addition which file lies at the path then.
-/

namespace HistoryKeeper

theorem Path.segments_ne_nil {p : Path} (hrelative : p.isAbsolute = false)
    (hnonempty : p.text.isEmpty = false) : p.segments ≠ [] := by
  cases htext : p.text.toList with
  | nil =>
    have : p.text = "" := by rw [← String.toList_eq_nil_iff, htext]
    rw [this] at hnonempty
    cases hnonempty
  | cons c cs =>
    have hc : c ≠ '/' := by
      rintro rfl
      rw [isAbsolute, htext] at hrelative
      simp at hrelative
    obtain ⟨piece, rest, hpieces⟩ : ∃ piece rest, Text.pieces '/' (c :: cs) = (c :: piece) :: rest := by
      rw [Text.pieces, if_neg hc]
      split
      · exact ⟨[], [], rfl⟩
      · exact ⟨_, _, rfl⟩
    rw [segments, htext, hpieces, List.filter_cons_of_pos (by simp)]
    exact List.cons_ne_nil _ _

namespace Disk

open HistoryKeeper.Path (walk advance target)

variable {changed : Location → Prop} {d d' : Disk} {l : Location} {n : Node} {p q : Path}
  {id : FileId} {content : Bytes}

theorem Extends.insert (hnodes : d'.nodes = d.nodes.insert l n) (hhome : d'.home = d.home)
    (hprocess : d'.processId = d.processId) (hlocked : d'.locked = d.locked) (hl : l ≠ [])
    (hdir : d.node? l ≠ some .directory) : Extends (· = l) d d' := by
  refine ⟨hhome, hprocess, hlocked, fun {x} hx => ?_, fun {x} hx {id content} => ?_⟩
  · have hne : x ≠ l := by
      rintro rfl
      exact hdir hx
    rw [node?_insert hnodes hl, if_neg hne, hx]
  · rw [node?_insert hnodes hl, if_neg hx]

theorem Extends.insert_directory (hnodes : d'.nodes = d.nodes.insert l .directory)
    (hhome : d'.home = d.home) (hprocess : d'.processId = d.processId)
    (hlocked : d'.locked = d.locked) (hl : l ≠ []) (hnone : d.node? l = none) : Extends nowhere d d' := by
  refine ⟨hhome, hprocess, hlocked, fun {x} hx => ?_, fun {x} _ {id content} => ?_⟩
  · rw [node?_insert hnodes hl]
    split
    · rfl
    · exact hx
  · rw [node?_insert hnodes hl]
    split
    · rename_i he
      rw [he, hnone]
      simp
    · rfl

theorem Extends.erase (hd : d.WellFormed) (hnodes : d'.nodes = d.nodes.erase l)
    (hhome : d'.home = d.home) (hprocess : d'.processId = d.processId)
    (hlocked : d'.locked = d.locked) (hl : l ≠ []) (hdir : d.node? l ≠ some .directory) : Extends (· = l) d d' := by
  refine ⟨hhome, hprocess, hlocked, fun {x} hx => ?_, fun {x} hx {id content} => ?_⟩
  · have hne : x ≠ l := by
      rintro rfl
      exact hdir hx
    rw [node?_erase hd hnodes hl, if_neg hne, hx]
  · rw [node?_erase hd hnodes hl, if_neg hx]

theorem parent_of_passable (hd : d.WellFormed) (hfits : p.Fits)
    (hpass : d.Passable (p.start d.home) p.segments) (hnone : d.node? (p.location d.home) = none) :
    p.location d.home ≠ [] ∧ d.node? (p.location d.home).dropLast = some .directory := by
  have hne : p.location d.home ≠ [] := by
    intro he
    rw [he, node?_nil] at hnone
    cases hnone
  refine ⟨hne, ?_⟩
  rcases List.eq_nil_or_concat' p.segments with hnil | ⟨pre, s, hs⟩
  · have hstart : p.location d.home = p.start d.home := by rw [Path.location, hnil, Path.walk_nil]
    cases habs : p.isAbsolute with
    | true =>
      rw [hstart, Path.start, if_pos habs] at hne
      exact absurd rfl hne
    | false => exact absurd hnil (Path.segments_ne_nil habs hfits.nonempty)
  · have hdir : d.node? (walk (p.start d.home) pre) = some .directory := hpass pre s [] hs
    have hloc : p.location d.home = advance (walk (p.start d.home) pre) s := by
      rw [Path.location, hs, Path.walk_append, Path.walk_cons, Path.walk_nil]
    rw [hloc] at hnone ⊢
    unfold advance at hnone ⊢
    split at hnone
    · rw [hdir] at hnone
      cases hnone
    · split at hnone
      · by_cases hroot : walk (p.start d.home) pre = []
        · rw [hroot, List.dropLast_nil, node?_nil] at hnone
          cases hnone
        · rw [hd.parent hdir hroot] at hnone
          cases hnone
      · rw [if_neg ‹_›, if_neg ‹_›, List.dropLast_concat]
        exact hdir

theorem makeDir_ok (hd : d.WellFormed) (h : d.makeDir p = .ok d') :
    d'.WellFormed ∧ Extends nowhere d d' := by
  unfold makeDir at h
  cases hr : d.resolve p with
  | error e => rw [hr] at h; cases h
  | ok t =>
    rw [hr] at h
    obtain ⟨hfits, hpass, rfl⟩ := resolve_eq_ok_iff.mp hr
    dsimp only [bind, Except.bind, target] at h
    split at h
    · cases h
    · rename_i hnone
      obtain ⟨hne, hparent⟩ := parent_of_passable hd hfits hpass hnone
      cases h
      exact ⟨hd.insert rfl hne hparent (by simp [hnone]),
        Extends.insert_directory rfl rfl rfl rfl hne hnone⟩

/-- The disk stays well-formed and no file is changed. -/
def SameFiles (d d' : Disk) : Prop :=
  d.WellFormed → d'.WellFormed ∧ Extends nowhere d d'

theorem SameFiles.refl (d : Disk) : SameFiles d d :=
  fun hd => ⟨hd, Extends.refl _ d⟩

/-- What each directory that is made keeps, making many keeps as well. -/
theorem leads_createDirsWithin_of {R : Disk → Disk → Prop} (hrefl : ∀ d, R d d)
    (htrans : ∀ {d d' d''}, R d d' → R d' d'' → R d d'')
    (hmake : ∀ {d d' p}, d.makeDir p = .ok d' → R d d') (fuel : Nat) (p : Path) :
    Leads R (createDirsWithin fuel p) := by
  have hensure : ∀ p, Leads R (ensureDir p) := by
    intro p d
    unfold ensureDir
    split
    · exact hmake ‹_›
    · split <;> exact hrefl d
  induction fuel generalizing p with
  | zero => exact hrefl
  | succ fuel ih =>
    intro d
    unfold createDirsWithin
    split
    · exact hrefl d
    · split
      · exact hmake ‹_›
      · split
        · exact hrefl d
        · rename_i parent _
          have habove := ih parent d
          split
          · rename_i hr
            rw [hr, endState_ok] at habove
            exact htrans habove (hensure p _)
          · rename_i hr
            rw [hr, endState_error] at habove
            exact habove
      · split <;> exact hrefl d

theorem leads_createDirsWithin (fuel : Nat) (p : Path) :
    Leads SameFiles (createDirsWithin fuel p) :=
  leads_createDirsWithin_of SameFiles.refl
    (fun h h' hd => ⟨(h' (h hd).1).1, (h hd).2.trans (h' (h hd).1).2⟩)
    (fun h hd => makeDir_ok hd h) fuel p

theorem leads_createDirs (p : Path) : Leads SameFiles (createDirs p) :=
  leads_createDirsWithin _ p

theorem nextId_createDirs (p : Path) : Leads (fun d d' => d'.nextId = d.nextId) (createDirs p) := by
  refine leads_createDirsWithin_of (R := fun d d' => d'.nextId = d.nextId) (fun _ => rfl)
    (fun h h' => h'.trans h) (fun {d d' p} h => ?_) _ p
  unfold makeDir at h
  cases hr : d.resolve p with
  | error e => rw [hr] at h; cases h
  | ok t =>
    rw [hr] at h
    dsimp only [bind, Except.bind] at h
    split at h
    · cases h
    · cases h
      rfl

/-! ### Files -/

/-- A file that was opened: it is the one at the path, or a new one. -/
structure Opened (d d' : Disk) (p : Path) (id : FileId) : Prop where
  wellFormed : d'.WellFormed
  ext : Extends (· = p.location d.home) d d'
  fits : p.Fits
  passable : d.Passable (p.start d.home) p.segments
  slash : p.hasTrailingSlash = false
  file : ∃ content, d'.node? (p.location d.home) = some (.file id content)
  old : ∀ {n}, d.node? (p.location d.home) = some n → d' = d

theorem openFile_ok (hd : d.WellFormed) (h : d.openFile p = .ok (l, id, d')) :
    l = p.location d.home ∧ Opened d d' p id := by
  unfold openFile at h
  cases hr : d.resolve p with
  | error e => rw [hr] at h; cases h
  | ok t =>
    rw [hr] at h
    obtain ⟨hfits, hpass, rfl⟩ := resolve_eq_ok_iff.mp hr
    dsimp only [bind, Except.bind, target] at h
    split at h
    · cases h
    · rename_i hslash
      split at h
      · cases h
      · rename_i id' content hn
        cases h
        exact ⟨rfl, hd, Extends.refl _ d, hfits, hpass, by simpa using hslash, ⟨content, hn⟩,
          fun _ => rfl⟩
      · rename_i hnone
        cases h
        obtain ⟨hne, hparent⟩ := parent_of_passable hd hfits hpass hnone
        have hnodir : d.node? (p.location d.home) ≠ some .directory := by simp [hnone]
        refine ⟨rfl, hd.insert rfl hne hparent hnodir, Extends.insert rfl rfl rfl rfl hne hnodir, hfits,
          hpass, by simpa using hslash, ⟨[], ?_⟩, fun hn => ?_⟩
        · rw [node?_insert rfl hne, if_pos rfl]
        · rw [hnone] at hn
          cases hn

/-- A file that was opened has the number it had, or the next one. -/
theorem openFile_number (h : d.openFile p = .ok (l, id, d')) : d'.locked = d.locked ∧
    ((∃ content, d.node? (p.location d.home) = some (.file id content)) ∨
      d.node? (p.location d.home) = none ∧ id = d.nextId) := by
  unfold openFile at h
  cases hr : d.resolve p with
  | error e => rw [hr] at h; cases h
  | ok t =>
    rw [hr] at h
    obtain ⟨-, -, rfl⟩ := resolve_eq_ok_iff.mp hr
    dsimp only [bind, Except.bind, target] at h
    split at h
    · cases h
    · split at h
      · cases h
      · rename_i content hn
        cases h
        exact ⟨rfl, Or.inl ⟨content, hn⟩⟩
      · rename_i hnone
        cases h
        exact ⟨rfl, Or.inr ⟨hnone, rfl⟩⟩

theorem Opened.location_ne_nil (h : Opened d d' p id) : p.location d.home ≠ [] := by
  obtain ⟨content, hfile⟩ := h.file
  intro he
  rw [he, node?_nil] at hfile
  cases hfile

/-- A path leads to this file. -/
structure HasFile (d : Disk) (p : Path) (id : FileId) (content : Bytes) : Prop where
  fits : p.Fits
  passable : d.Passable (p.start d.home) p.segments
  slash : p.hasTrailingSlash = false
  file : d.node? (p.location d.home) = some (.file id content)

theorem Opened.hasFile (h : Opened d d' p id) : ∃ content, d'.HasFile p id content := by
  obtain ⟨content, hfile⟩ := h.file
  rw [← h.ext.home] at hfile
  refine ⟨content, h.fits, ?_, h.slash, hfile⟩
  rw [h.ext.home]
  exact h.ext.passable h.passable

theorem hasFile_iff : d.HasFile p id content ↔ d.stat p = .ok (.file id content) :=
  ⟨fun h => stat_eq_file_iff.mpr ⟨h.fits, h.passable, h.slash, h.file⟩, fun h =>
    have ⟨hfits, hpass, hslash, hfile⟩ := stat_eq_file_iff.mp h
    ⟨hfits, hpass, hslash, hfile⟩⟩

theorem HasFile.congr (h : d.HasFile p id content) (hnodes : d'.nodes = d.nodes)
    (hhome : d'.home = d.home) : d'.HasFile p id content := by
  rw [hasFile_iff, stat_congr hnodes hhome]
  exact hasFile_iff.mp h

theorem HasFile.shows (h : d.HasFile p id content) : d.Shows p :=
  fun _ _ _ pre s post he => .inr (h.passable pre s post he)

theorem write_ok (hd : d.WellFormed) (h : d.write p content = .ok d') :
    d'.WellFormed ∧ Extends (· = p.location d.home) d d' ∧ ∃ id, d'.HasFile p id content := by
  unfold write at h
  cases ho : d.openFile p with
  | error e => rw [ho] at h; cases h
  | ok r =>
    obtain ⟨l, id, d₁⟩ := r
    rw [ho] at h
    obtain ⟨rfl, hopened⟩ := openFile_ok hd ho
    cases h
    obtain ⟨old, hfile⟩ := hopened.file
    have hne := hopened.location_ne_nil
    have hnodir : d₁.node? (p.location d.home) ≠ some .directory := by simp [hfile]
    have hext : Extends (· = p.location d.home) d₁
        { d₁ with nodes := d₁.nodes.insert (p.location d.home) (.file id content) } :=
      Extends.insert rfl rfl rfl rfl hne hnodir
    refine ⟨hopened.wellFormed.insert rfl hne (hopened.wellFormed.parent hfile hne) hnodir,
      hopened.ext.trans hext, id, hopened.fits, ?_, hopened.slash, ?_⟩
    · exact hext.passable (by rw [hopened.ext.home]; exact hopened.ext.passable hopened.passable)
    · show node? _ (p.location d₁.home) = _
      rw [hopened.ext.home, node?_insert rfl hne, if_pos rfl]

theorem remove_ok (hd : d.WellFormed) (h : d.remove p = .ok d') :
    d'.WellFormed ∧ Extends (· = p.location d.home) d d' := by
  unfold remove at h
  cases hr : d.resolve p with
  | error e => rw [hr] at h; cases h
  | ok t =>
    rw [hr] at h
    obtain ⟨hfits, hpass, rfl⟩ := resolve_eq_ok_iff.mp hr
    dsimp only [bind, Except.bind, target] at h
    split at h
    · cases h
    · cases h
    · rename_i hfile
      split at h
      · cases h
      · cases h
        have hne : p.location d.home ≠ [] := by
          intro he
          rw [he, node?_nil] at hfile
          cases hfile
        have hnodir : d.node? (p.location d.home) ≠ some .directory := by simp [hfile]
        exact ⟨hd.erase rfl hne hnodir, Extends.erase hd rfl rfl rfl rfl hne hnodir⟩

theorem node?_remove (hd : d.WellFormed) (h : d.remove p = .ok d') (x : Location) :
    d'.node? x = if x = p.location d.home then none else d.node? x := by
  unfold remove at h
  cases hr : d.resolve p with
  | error e => rw [hr] at h; cases h
  | ok t =>
    rw [hr] at h
    obtain ⟨-, -, rfl⟩ := resolve_eq_ok_iff.mp hr
    dsimp only [bind, Except.bind, target] at h
    split at h
    · cases h
    · cases h
    · rename_i hfile
      split at h
      · cases h
      · cases h
        have hne : p.location d.home ≠ [] := by
          intro he
          rw [he, node?_nil] at hfile
          cases hfile
        rw [node?_erase hd rfl hne]

theorem gone_of_remove (hd : d.WellFormed) (h : d.remove p = .ok d') :
    d'.node? (p.location d.home) = none := by
  rw [node?_remove hd h, if_pos rfl]

theorem HasFile.remove (h : d.HasFile p id content) : ∃ d', d.remove p = .ok d' := by
  have hfile : d.node? (p.target d.home).location = some (.file id content) := h.file
  have hslash : (p.target d.home).slash = false := h.slash
  refine ⟨{ d with nodes := d.nodes.erase (p.location d.home) }, ?_⟩
  unfold Disk.remove
  rw [resolve_eq_ok_iff.mpr ⟨h.fits, h.passable, rfl⟩]
  simp only [bind, Except.bind, hfile, hslash]
  rfl

theorem move_file (hd : d.WellFormed) {x : Location}
    (hfile : d.node? l = some (.file id content)) (hparent : d.node? x.dropLast = some .directory)
    (hx : d.node? x ≠ some .directory)
    (hnodes : d'.nodes = (d.nodes.erase l).insert x (.file id content)) (hhome : d'.home = d.home)
    (hprocess : d'.processId = d.processId) (hlocked : d'.locked = d.locked) :
    d'.WellFormed ∧ Extends (fun y => y = l ∨ y = x) d d' ∧
      d'.node? x = some (.file id content) := by
  have hlne : l ≠ [] := by
    rintro rfl
    cases hfile
  have hxne : x ≠ [] := by
    rintro rfl
    exact hx rfl
  have hl : d.node? l ≠ some .directory := by simp [hfile]
  -- the disk between taking the file away and putting it down again
  obtain ⟨d₁, hd₁⟩ : ∃ d₁ : Disk, d₁ = { d with nodes := d.nodes.erase l } := ⟨_, rfl⟩
  have hnodes₁ : d₁.nodes = d.nodes.erase l := by rw [hd₁]
  have hwf₁ : d₁.WellFormed := hd.erase hnodes₁ hlne hl
  have hext₁ : Extends (· = l) d d₁ :=
    Extends.erase hd hnodes₁ (by rw [hd₁]) (by rw [hd₁]) (by rw [hd₁]) hlne hl
  have hx₁ : d₁.node? x ≠ some .directory := by
    rw [node?_erase hd hnodes₁ hlne]
    split
    · simp
    · exact hx
  have hnodes' : d'.nodes = d₁.nodes.insert x (.file id content) := by rw [hnodes, hnodes₁]
  have hext₂ : Extends (· = x) d₁ d' := by
    refine Extends.insert hnodes' ?_ ?_ ?_ hxne hx₁
    · rw [hhome, hext₁.home]
    · rw [hprocess, hext₁.processId]
    · rw [hlocked, hext₁.locked]
  refine ⟨hwf₁.insert hnodes' hxne (hext₁.directory hparent) hx₁,
    (hext₁.mono fun _ h => Or.inl h).trans (hext₂.mono fun _ h => Or.inr h), ?_⟩
  rw [node?_insert hnodes' hxne, if_pos rfl]

/-- A file can be put where a path leads, over the one that is there. -/
structure Writable (d : Disk) (p : Path) : Prop where
  fits : p.Fits
  passable : d.Passable (p.start d.home) p.segments
  slash : p.hasTrailingSlash = false
  free : d.node? (p.location d.home) ≠ some .directory

theorem rename_eq_ok_iff (hp : d.HasFile p id content) : d.rename p q = .ok d' ↔
    d.Writable q ∧ (q.target d.home).dots = false ∧
      { d with
        nodes := (d.nodes.erase (p.location d.home)).insert (q.location d.home)
          (.file id content) } = d' := by
  have hfound : d.node? (p.target d.home).location = some (.file id content) := hp.file
  unfold rename
  rw [resolve_eq_ok_iff.mpr ⟨hp.fits, hp.passable, rfl⟩]
  cases hr : d.resolve q with
  | error e =>
    refine ⟨nofun, fun ⟨hq, _⟩ => ?_⟩
    rw [resolve_eq_ok_iff.mpr ⟨hq.fits, hq.passable, rfl⟩] at hr
    cases hr
  | ok t =>
    obtain ⟨hfits, hpass, rfl⟩ := resolve_eq_ok_iff.mp hr
    simp only [bind, Except.bind, hfound]
    split
    · rename_i hdots
      exact ⟨nofun, fun ⟨_, h, _⟩ => by rw [hdots] at h; cases h⟩
    · rename_i hdots
      split
      · rename_i hslash
        refine ⟨nofun, fun ⟨hq, _⟩ => ?_⟩
        have hnone : q.hasTrailingSlash = false := hq.slash
        rw [show q.hasTrailingSlash = true from hslash] at hnone
        cases hnone
      · rename_i hslash
        split
        · rename_i hdir
          exact ⟨nofun, fun ⟨hq, _⟩ => absurd hdir hq.free⟩
        · rename_i hfree
          refine ⟨fun h => ⟨⟨hfits, hpass, Bool.eq_false_iff.mpr hslash, hfree⟩,
            Bool.eq_false_iff.mpr hdots, Except.ok.inj h⟩, fun ⟨_, _, h⟩ => congrArg Except.ok h⟩

theorem node?_rename (hd : d.WellFormed) (hp : d.HasFile p id content) (h : d.rename p q = .ok d')
    (x : Location) : d'.node? x = if x = q.location d.home then some (.file id content)
      else if x = p.location d.home then none else d.node? x := by
  obtain ⟨hq, -, rfl⟩ := (rename_eq_ok_iff hp).mp h
  have hpne : p.location d.home ≠ [] := by
    intro he
    have hfile := hp.file
    rw [he, node?_nil] at hfile
    cases hfile
  have hqne : q.location d.home ≠ [] := by
    intro he
    refine hq.free ?_
    rw [he, node?_nil]
  rw [node?_insert (d := { d with nodes := d.nodes.erase (p.location d.home) }) rfl hqne,
    node?_erase hd rfl hpne]

theorem rename_ok (hd : d.WellFormed) (hp : d.HasFile p id content) (h : d.rename p q = .ok d') :
    d'.WellFormed ∧ Extends (fun l => l = p.location d.home ∨ l = q.location d.home) d d' ∧
      d'.HasFile q id content := by
  obtain ⟨hq, -, hd'⟩ := (rename_eq_ok_iff hp).mp h
  have hparent : d.node? (q.location d.home).dropLast = some .directory := by
    cases hnode : d.node? (q.location d.home) with
    | none => exact (parent_of_passable hd hq.fits hq.passable hnode).2
    | some n =>
      refine hd.parent hnode fun he => hq.free ?_
      rw [he, node?_nil]
  obtain ⟨hwf, hext, hfile⟩ := move_file hd hp.file hparent hq.free (congrArg nodes hd').symm
    (congrArg home hd').symm (congrArg processId hd').symm (congrArg locked hd').symm
  refine ⟨hwf, hext, hq.fits, ?_, hq.slash, ?_⟩
  · rw [hext.home]
    exact hext.passable hq.passable
  · rw [hext.home]
    exact hfile

end Disk

end HistoryKeeper
