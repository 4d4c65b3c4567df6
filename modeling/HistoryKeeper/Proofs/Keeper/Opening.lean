import HistoryKeeper.Proofs.Keeper.Consistent
import HistoryKeeper.Proofs.Store.SiteView

/-!
# Keepers that open their stores

A keeper finds in its store what was there before: `FileStore.opens`, `AnyStore.opens`.
-/

namespace HistoryKeeper

variable {names : String → Prop} {dir : Path} {timeout : Duration}

theorem Opener.of_eq {S W : Type} (opener : EStateM StoreError W S) (w : W) :
    Opener.of opener w = match opener w with
      | .ok s w => .ok s w
      | .error e w => .error (.store e) w := by
  unfold Opener.of EStateM.adaptExcept
  cases opener w <;> rfl

theorem Opener.of_eq_ok {S W : Type} {opener : EStateM StoreError W S} {w w' : W} {s : S}
    (h : Opener.of opener w = .ok s w') : opener w = .ok s w' := by
  rw [of_eq] at h
  cases hr : opener w with
  | ok s w' =>
    rw [hr] at h
    cases h
    rfl
  | error e w' =>
    rw [hr] at h
    cases h

theorem Opener.of_eq_error {S W : Type} {opener : EStateM StoreError W S} {w w' : W}
    {cause : Failure} (h : Opener.of opener w = .error cause w') :
    ∃ e, opener w = .error e w' ∧ cause = .store e := by
  rw [of_eq] at h
  cases hr : opener w with
  | ok s w' =>
    rw [hr] at h
    cases h
  | error e w' =>
    rw [hr] at h
    cases h
    exact ⟨e, rfl, rfl⟩

namespace FileStore

open CacheFile (kept)

variable {d w w' : Disk} {s : FileStore} {e : StoreError}

/-- As far as its caches go, the disk is as it was. -/
structure Ready (dir : Path) (names : String → Prop) (d w : Disk) : Prop where
  files : DistinctFiles dir names w
  unchanged : ∀ name, names name → kept (cachePath dir name) w = kept (cachePath dir name) d

theorem Ready.others (h : Ready dir names d w) (hnodes : w'.nodes = w.nodes)
    (hhome : w'.home = w.home) : Ready dir names d w' := by
  refine ⟨⟨h.files.wellFormed.congr hnodes, fun name hname => ?_, ?_⟩, fun name hname => ?_⟩
  · exact (h.files.shown name hname).congr hnodes hhome
  · rw [hhome]
    exact h.files.distinct
  · exact (CacheFile.kept_of_nodes hnodes hhome _).trans (h.unchanged name hname)

theorem Ready.opened (h : Ready dir names d w) (hopen : openStore dir timeout w = .ok s w') :
    Keeps dir names (s, w') ∧ s.caches = [] ∧
      ∀ name, names name → content (s, w') (cachePath dir name) = kept (cachePath dir name) d := by
  have hspec := openStore_spec h.files.addressing timeout
  rw [hopen] at hspec
  obtain ⟨hsound, hdir, hcaches, hhome, hcontent⟩ := hspec
  refine ⟨⟨hsound, hdir, ?_⟩, hcaches, fun name hname => ?_⟩
  · show ∀ m n, names m → names n →
      (cachePath dir m).location w'.home = (cachePath dir n).location w'.home → m = n
    rw [hhome]
    exact h.files.distinct
  · exact (hcontent _ ⟨name, hname, rfl⟩).trans (h.unchanged name hname)

theorem Ready.failed (h : Ready dir names d w) (hopen : openStore dir timeout w = .error e w')
    {name : String} (hname : names name) :
    kept (cachePath dir name) w' = kept (cachePath dir name) d := by
  have hspec := openStore_spec h.files.addressing timeout
  rw [hopen] at hspec
  exact (hspec.2.2 _ ⟨name, hname, rfl⟩).trans (h.unchanged name hname)

theorem opens (dir : Path) (timeout : Duration) (names : String → Prop) (d : Disk) :
    System.Opens (view dir names) (fun name => kept (cachePath dir name) d) (Ready dir names d)
      (Opener.of (openStore dir timeout)) := by
  refine ⟨fun h hopen => ?_, fun h hothers => h.others hothers.1 hothers.2⟩
  obtain ⟨hkeeps, -, hcontent⟩ := h.opened (Opener.of_eq_ok hopen)
  exact ⟨hkeeps, hcontent⟩

end FileStore

namespace AnyStore

variable {kind : StoreKind} {site w w' : Site}

/-- As far as its caches go, the site is as it was. -/
def Ready (kind : StoreKind) (dir : Path) (names : String → Prop) (site w : Site) : Prop :=
  match kind with
  | .memory => MemoryStore.DistinctNames names
  | .file => FileStore.Ready dir names site.disk w.disk

theorem ready (h : DistinctFiles kind dir names site) : Ready kind dir names site site := by
  cases kind with
  | memory => exact h
  | file => exact ⟨h, fun _ _ => rfl⟩

theorem opens (kind : StoreKind) (dir : Path) (timeout : Duration) (names : String → Prop)
    (site : Site) : System.Opens (view dir names) (initial kind dir site)
      (Ready kind dir names site) (Opener.of (openStore kind dir timeout)) := by
  cases kind with
  | memory =>
    refine ⟨fun h hopen => ?_, fun h _ => h⟩
    cases hopen
    exact ⟨⟨List.nodup_nil, h⟩, fun _ _ => rfl⟩
  | file =>
    refine ⟨fun {w s w'} h hopen => ?_, fun h hothers => FileStore.Ready.others h hothers.1 hothers.2⟩
    have hopened := Opener.of_eq_ok hopen
    unfold openStore at hopened
    cases hr : FileStore.openStore dir timeout w.disk with
    | error e disk =>
      simp only [hr] at hopened
      cases hopened
    | ok s disk =>
      simp only [hr] at hopened
      cases hopened
      obtain ⟨hkeeps, -, hcontent⟩ := FileStore.Ready.opened h hr
      exact ⟨hkeeps, hcontent⟩

end AnyStore

end HistoryKeeper
