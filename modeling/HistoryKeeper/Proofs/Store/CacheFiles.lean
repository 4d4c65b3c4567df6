import HistoryKeeper.Proofs.Disk.DirectoryLock
import HistoryKeeper.Proofs.Store.CacheFormat
import HistoryKeeper.Proofs.Store.Names

/-!
# Cache files and the disk

`CacheFile.kept` is what the disk has for a path: the entries in its file, none if there is no file,
and the bytes of the file if it is corrupt. `CacheFile.Sound` says that a cache file in memory goes
with the disk: while it is clean its entries are those on the disk. Writing it back keeps that
(`flush_ok`), and changes only its own file and a temporary one (`Addressing`: such files are not
those of other caches).
-/

namespace HistoryKeeper

open Disk (Extends HasFile nowhere)

namespace CacheFile

variable {changed : Location → Prop} {used : Path → Prop} {dir p q : Path} {d d' : Disk}
  {entries : Entries} {content : Bytes}

def kept (p : Path) (d : Disk) : CacheContent :=
  match d.stat p with
  | .ok (.file _ content) => (decode content).mapError fun _ => content
  | _ => .ok []

theorem kept_of_hasFile {id : FileId} (h : d.HasFile p id content) :
    kept p d = (decode content).mapError fun _ => content := by
  rw [kept, Disk.hasFile_iff.mp h]

theorem ordered_of_kept (h : kept p d = .ok entries) : entries.Ordered := by
  unfold kept at h
  split at h
  · rename_i content _
    cases hc : decode content with
    | error e => rw [hc] at h; cases h
    | ok t =>
      rw [hc] at h
      cases h
      exact ordered_of_decode hc
  · cases h
    exact List.Pairwise.nil

theorem hasFile_of_kept {bytes : Bytes} (h : kept p d = .error bytes) :
    ∃ id, d.stat p = .ok (.file id bytes) := by
  unfold kept at h
  split at h
  · rename_i id content hs
    cases hc : decode content with
    | error e =>
      rw [hc] at h
      cases h
      exact ⟨id, hs⟩
    | ok t => rw [hc] at h; cases h
  · cases h

theorem kept_congr (h : ∀ id content,
    d'.stat p = .ok (.file id content) ↔ d.stat p = .ok (.file id content)) :
    kept p d' = kept p d := by
  have hnone : ∀ d : Disk, (¬ ∃ id content, d.stat p = .ok (.file id content)) →
      kept p d = .ok [] := by
    intro d hd
    unfold kept
    split
    · rename_i id content hs
      exact absurd ⟨id, content, hs⟩ hd
    · rfl
  by_cases hd : ∃ id content, d.stat p = .ok (.file id content)
  · obtain ⟨id, content, hs⟩ := hd
    rw [kept, kept, hs, (h id content).mpr hs]
  · rw [hnone d hd, hnone d' fun ⟨id, content, hs⟩ => hd ⟨id, content, (h id content).mp hs⟩]

theorem load_of_hasFile {id : FileId} (hs : d.stat p = .ok (.file id content)) :
    load p d = match decode content with
      | .ok entries => .ok entries
      | .error reason => .error (.corrupt p reason) := by
  unfold load Disk.pathExists Disk.read
  rw [hs]
  rfl

theorem kept_of_load (h : load p d = .ok entries) : kept p d = .ok entries := by
  cases hs : d.stat p with
  | error e =>
    unfold load Disk.pathExists at h
    rw [hs] at h
    cases h
    rw [kept, hs]
  | ok n =>
    cases n with
    | directory =>
      unfold load Disk.pathExists Disk.read at h
      rw [hs] at h
      cases h
    | file id content =>
      rw [load_of_hasFile hs] at h
      cases hc : decode content with
      | error e => rw [hc] at h; cases h
      | ok t =>
        rw [hc] at h
        cases h
        rw [kept, hs]
        show (decode content).mapError _ = _
        rw [hc]
        rfl

/-- The paths of the caches in use lead to files of their own, wherever the disk moves on from
here. -/
structure Addressing (used : Path → Prop) (dir : Path) (d : Disk) : Prop where
  wellFormed : d.WellFormed
  shown : ∀ p, used p → d.Shows p
  apart : ∀ p q, used p → used q → p.location d.home = q.location d.home → p = q
  notLock : ∀ p, used p → p.location d.home ≠ DirectoryLock.locationOf d.home dir
  notTemporary : ∀ p q, used p → used q → ∀ processId,
    p.location d.home ≠ (temporary q processId).location d.home

theorem Addressing.of_shown (h : Addressing used dir d) (hwf : d'.WellFormed) (hhome : d'.home = d.home)
    (hshown : ∀ p, used p → d'.Shows p) : Addressing used dir d' := by
  refine ⟨hwf, hshown, ?_, ?_, ?_⟩ <;> rw [hhome]
  exacts [h.apart, h.notLock, h.notTemporary]

theorem Addressing.mono (h : Addressing used dir d) (hwf : d'.WellFormed)
    (hext : Extends changed d d') (hc : ∀ p, used p → ¬ changed (p.location d.home)) :
    Addressing used dir d' :=
  h.of_shown hwf hext.home fun p hp => (h.shown p hp).mono hext (hc p hp)

theorem Addressing.congr (h : Addressing used dir d) (hnodes : d'.nodes = d.nodes)
    (hhome : d'.home = d.home) : Addressing used dir d' :=
  h.of_shown (h.wellFormed.congr hnodes) hhome fun p hp => (h.shown p hp).congr hnodes hhome

theorem kept_of_nodes (hnodes : d'.nodes = d.nodes) (hhome : d'.home = d.home) (p : Path) :
    kept p d' = kept p d :=
  kept_congr fun _ _ => by rw [Disk.stat_congr hnodes hhome]

theorem Addressing.kept_eq (h : Addressing used dir d) (hext : Extends changed d d') (hp : used p)
    (hc : ¬ changed (p.location d.home)) : kept p d' = kept p d :=
  kept_congr fun _ _ => hext.stat_eq_file_iff (h.shown p hp) hc

/-! ### Saving -/

/-- The locations that are touched when the file of a path is written. -/
def touched (d : Disk) (p : Path) (l : Location) : Prop :=
  l = p.location d.home ∨ l = (temporary p d.processId).location d.home

def touchedBeside (d : Disk) (p : Path) (l : Location) : Prop :=
  l = (temporary p d.processId).location d.home

/-- Writing one file back does not touch the file of another cache. -/
theorem Addressing.untouched (h : Addressing used dir d) (hp : used p) (hq : used q) (hne : p ≠ q) :
    ¬ touched d q (p.location d.home) :=
  fun ht => ht.elim (fun he => hne (h.apart p q hp hq he)) (h.notTemporary p q hp hq _)

theorem Addressing.untouchedBeside (h : Addressing used dir d) (hp : used p) (hq : used q) :
    ¬ touchedBeside d q (p.location d.home) :=
  h.notTemporary p q hp hq _

/-- A file that was written was written beside its place first and moved there. -/
theorem replace_ok {u : Unit} (hd : d.WellFormed) (h : replace p content d = .ok u d') :
    ∃ d₁ id, d.write (temporary p d.processId) content = .ok d₁ ∧
      d₁.HasFile (temporary p d.processId) id content ∧
      d₁.rename (temporary p d.processId) p = .ok d' := by
  unfold replace at h
  cases hw : d.write (temporary p d.processId) content with
  | error fault => simp only [hw] at h; cases h
  | ok d₁ =>
    obtain ⟨-, -, id, hfile⟩ := Disk.write_ok hd hw
    simp only [hw] at h
    cases hr : d₁.rename (temporary p d.processId) p with
    | error fault => rw [hr] at h; cases h
    | ok d₂ =>
      rw [hr] at h
      cases h
      exact ⟨d₁, id, rfl, hfile, hr⟩

/-- If a file cannot be written, what there is of it beside its place is removed again. -/
theorem replace_error {fault : IoFault} (hd : d.WellFormed) (h : replace p content d = .error fault d') :
    d' = d ∨ ∃ d₁, (d₁ = d ∨ d.write (temporary p d.processId) content = .ok d₁) ∧
      d₁.remove (temporary p d.processId) = .ok d' := by
  unfold replace at h
  cases hw : d.write (temporary p d.processId) content with
  | error fault =>
    simp only [hw] at h
    cases hr : d.remove (temporary p d.processId) with
    | error fault =>
      rw [hr] at h
      cases h
      exact .inl rfl
    | ok d₁ =>
      rw [hr] at h
      cases h
      exact .inr ⟨d, .inl rfl, hr⟩
  | ok d₁ =>
    obtain ⟨-, -, id, hfile⟩ := Disk.write_ok hd hw
    simp only [hw] at h
    cases hr : d₁.rename (temporary p d.processId) p with
    | ok d₂ => rw [hr] at h; cases h
    | error fault =>
      -- it was written, so it is there and can be removed
      obtain ⟨d₂, hremoved⟩ := hfile.remove
      simp only [hr, hremoved] at h
      cases h
      exact .inr ⟨d₁, .inr rfl, hremoved⟩

/-- The outcome of writing a file in place of another. -/
def Replaced (p : Path) (content : Bytes) (d : Disk) (result : EStateM.Result IoFault Disk Unit) :
    Prop :=
  match result with
  | .ok _ d' => d'.WellFormed ∧ Extends (touched d p) d d' ∧ ∃ id, d'.HasFile p id content
  | .error _ d' => d'.WellFormed ∧ Extends (touchedBeside d p) d d'

theorem replace_spec (hd : d.WellFormed) (p : Path) (content : Bytes) :
    Replaced p content d (replace p content d) := by
  cases h : replace p content d with
  | ok u d' =>
    obtain ⟨d₁, id, hw, hfile₁, hr⟩ := replace_ok hd h
    obtain ⟨hwf₁, hext₁, -⟩ := Disk.write_ok hd hw
    obtain ⟨hwf₂, hext₂, hfile₂⟩ := Disk.rename_ok hwf₁ hfile₁ hr
    rw [hext₁.home] at hext₂
    exact ⟨hwf₂, (hext₁.mono fun _ h => Or.inr h).trans (hext₂.mono fun _ h => Or.symm h), id,
      hfile₂⟩
  | error fault d' =>
    rcases replace_error hd h with rfl | ⟨d₁, rfl | hw, hr⟩
    · exact ⟨hd, Extends.refl _ _⟩
    · exact Disk.remove_ok hd hr
    · obtain ⟨hwf₁, hext₁, -⟩ := Disk.write_ok hd hw
      obtain ⟨hwf₂, hext₂⟩ := Disk.remove_ok hwf₁ hr
      rw [hext₁.home] at hext₂
      exact ⟨hwf₂, hext₁.trans hext₂⟩

theorem save_spec (hd : d.WellFormed) (p : Path) (content : Bytes) :
    Replaced p content d (save p content d) := by
  unfold save
  cases p.parent? with
  | none => exact replace_spec hd p content
  | some parent =>
    have hdirs := Disk.leads_createDirs parent d hd
    change Replaced p content d (EStateM.bind (Disk.createDirs parent) (fun _ => replace p content) d)
    unfold EStateM.bind
    cases hr : Disk.createDirs parent d with
    | error e d₁ =>
      rw [hr, endState_error] at hdirs
      exact ⟨hdirs.1, hdirs.2.weaken⟩
    | ok u d₁ =>
      rw [hr, endState_ok] at hdirs
      obtain ⟨hwf₁, hext₁⟩ := hdirs
      have hspec := replace_spec hwf₁ p content
      have htouched : touched d₁ p = touched d p := by
        unfold touched
        rw [hext₁.home, hext₁.processId]
      have hbeside : touchedBeside d₁ p = touchedBeside d p := by
        unfold touchedBeside
        rw [hext₁.home, hext₁.processId]
      simp only
      unfold Replaced at hspec ⊢
      rw [htouched, hbeside] at hspec
      cases hs : replace p content d₁ with
      | ok u d₂ =>
        rw [hs] at hspec
        exact ⟨hspec.1, hext₁.weaken.trans hspec.2.1, hspec.2.2⟩
      | error e d₂ =>
        rw [hs] at hspec
        exact ⟨hspec.1, hext₁.weaken.trans hspec.2⟩

/-- A cache file goes with the disk. -/
structure Sound (used : Path → Prop) (d : Disk) (f : CacheFile) : Prop where
  used : used f.path
  ordered : ∀ {entries}, f.entries = some entries → entries.Ordered
  dirty : f.dirty = true → f.entries.isSome
  clean : f.dirty = false → ∀ {entries}, f.entries = some entries → kept f.path d = .ok entries

theorem sound_new (hp : used p) : (new p).Sound used d :=
  ⟨hp, nofun, nofun, nofun⟩

variable {f : CacheFile}

theorem Sound.frame (hf : f.Sound used d) (h : Addressing used dir d) (hext : Extends changed d d')
    (hc : ¬ changed (f.path.location d.home)) : f.Sound used d' := by
  refine ⟨hf.used, hf.ordered, hf.dirty, fun hclean {entries} he => ?_⟩
  rw [h.kept_eq hext hf.used hc]
  exact hf.clean hclean he

/-- The outcome of writing a cache file back: on a failure it stays as it is, and so does its
place. -/
def Flushed (used : Path → Prop) (dir : Path) (f : CacheFile) (d : Disk)
    (result : EStateM.Result IoFault Disk CacheFile) : Prop :=
  match result with
  | .ok f' d' =>
    f' = { f with dirty := false } ∧ Addressing used dir d' ∧
      Extends (fun l => f.dirty = true ∧ touched d f.path l) d d' ∧ f'.Sound used d'
  | .error _ d' =>
    Addressing used dir d' ∧ Extends (fun l => f.dirty = true ∧ touchedBeside d f.path l) d d' ∧
      f.Sound used d'

theorem flush_of_clean (h : f.dirty = false) (d : Disk) : f.flush d = .ok f d := by
  unfold flush
  rw [h]
  rfl

theorem flush_spec (h : Addressing used dir d) (hf : f.Sound used d) :
    Flushed used dir f d (f.flush d) := by
  cases hdirty : f.dirty with
  | false =>
    rw [flush_of_clean hdirty]
    have hself : f = { f with dirty := false } := by
      cases f
      cases hdirty
      rfl
    exact ⟨hself, h, Extends.refl _ d, hf⟩
  | true =>
    obtain ⟨entries, hentries⟩ := Option.isSome_iff_exists.mp (hf.dirty hdirty)
    have hspec := save_spec h.wellFormed f.path (encode entries)
    have hflush : f.flush d = EStateM.bind (save f.path (encode entries))
        (fun _ => pure { f with dirty := false }) d := by
      unfold flush
      rw [hdirty, hentries]
      rfl
    rw [hflush]
    unfold EStateM.bind
    cases hs : save f.path (encode entries) d with
    | ok u d' =>
      rw [hs] at hspec
      obtain ⟨hwf, hext, id, hfile⟩ := hspec
      have haddr : Addressing used dir d' := by
        refine h.of_shown hwf hext.home fun p hp => ?_
        by_cases he : p = f.path
        · exact he ▸ hfile.shows
        · exact (h.shown p hp).mono hext (h.untouched hp hf.used he)
      refine ⟨rfl, haddr, hext.mono fun _ hl => ⟨hdirty, hl⟩, hf.used, hf.ordered, nofun,
        fun _ {e} he => ?_⟩
      rw [hentries] at he
      cases he
      rw [kept_of_hasFile hfile, decode_encode (hf.ordered hentries)]
      rfl
    | error e d' =>
      rw [hs] at hspec
      obtain ⟨hwf, hext⟩ := hspec
      have haddr := h.mono hwf hext fun p hp => h.untouchedBeside hp hf.used
      refine ⟨haddr, hext.mono fun _ hl => ⟨hdirty, hl⟩, hf.used, hf.ordered, hf.dirty,
        fun hclean => ?_⟩
      rw [hdirty] at hclean
      cases hclean

theorem loaded_ok {f' : CacheFile} (h : f.loaded d = .ok (f', entries)) (hf : f.Sound used d) :
    f' = { f with entries := some entries } ∧ f'.Sound used d ∧
      (f.entries.map .ok).getD (kept f.path d) = .ok entries := by
  unfold loaded at h
  cases he : f.entries with
  | some e =>
    rw [he] at h
    cases h
    refine ⟨?_, hf, rfl⟩
    cases f
    cases he
    rfl
  | none =>
    rw [he] at h
    cases hl : load f.path d with
    | error e =>
      rw [hl] at h
      cases h
    | ok e =>
      rw [hl] at h
      cases h
      have hkept := kept_of_load hl
      refine ⟨rfl, ⟨hf.used, fun {e} he => ?_, fun _ => rfl, fun _ {e} he => ?_⟩, hkept⟩
      · cases he
        exact ordered_of_kept hkept
      · cases he
        exact hkept

end CacheFile

end HistoryKeeper
