import HistoryKeeper.Proofs.Disk.Again
import HistoryKeeper.Proofs.Store.CacheFiles

/-!
# Cache files are written and read back

Entries that are written back are loaded again as they were, and are written as the same bytes every
time (`CacheFile.Survive`). This holds of all entries (`CacheFile.survive_of_ordered`), and so of those
that were loaded from a file of any form that is accepted: `CacheFile.entries_survive`.
-/

namespace HistoryKeeper.CacheFile

variable {p : Path} {d d' : Disk} {entries t u : Entries} {content : Bytes}

theorem replace_eq_ok_iff : replace p content d = .ok () d' ↔
    ∃ d₁, d.write (temporary p d.processId) content = .ok d₁ ∧
      d₁.rename (temporary p d.processId) p = .ok d' := by
  unfold replace
  cases hw : d.write (temporary p d.processId) content with
  | error e =>
    simp only [hw]
    exact ⟨nofun, nofun⟩
  | ok d₁ =>
    simp only [hw, Except.ok.injEq, exists_eq_left']
    cases hr : d₁.rename (temporary p d.processId) p with
    | error e => exact ⟨nofun, nofun⟩
    | ok d₂ => simp

theorem save_eq_ok_iff : save p content d = .ok () d' ↔
    ∃ d₁, (∀ parent, p.parent? = some parent → Disk.createDirs parent d = .ok () d₁) ∧
      (p.parent? = none → d₁ = d) ∧ replace p content d₁ = .ok () d' := by
  unfold save
  cases hp : p.parent? with
  | none => simp
  | some parent =>
    constructor
    · intro h
      obtain ⟨_, d₁, hdirs, hreplace⟩ := bind_eq_ok_of h
      exact ⟨d₁, fun _ he => Option.some.inj he ▸ hdirs, nofun, hreplace⟩
    · rintro ⟨d₁, hdirs, -, hreplace⟩
      change EStateM.bind _ _ _ = _
      unfold EStateM.bind
      rw [hdirs parent rfl]
      exact hreplace

theorem save_again (hd : d.WellFormed) (h : save p content d = .ok () d') (content' : Bytes) :
    ∃ d'', save p content' d' = .ok () d'' := by
  obtain ⟨d₁, hdirs, hnone, hreplace⟩ := save_eq_ok_iff.mp h
  have hwf₁ : d₁.WellFormed := by
    cases hp : p.parent? with
    | none => exact hnone hp ▸ hd
    | some parent =>
      have hmade := Disk.leads_createDirs parent d hd
      rw [hdirs parent hp, endState_ok] at hmade
      exact hmade.1
  obtain ⟨d₂, hwrite, hrename⟩ := replace_eq_ok_iff.mp hreplace
  obtain ⟨hwf₂, hext, id, hfile⟩ := Disk.write_ok hwf₁ hwrite
  obtain ⟨-, hext', -⟩ := Disk.rename_ok hwf₂ hfile hrename
  have hprocess : d'.processId = d₁.processId := hext'.processId.trans hext.processId
  obtain ⟨e, e', hwrite', hrename'⟩ := Disk.rename_again hwf₂ hfile hrename content'
  rw [← hprocess] at hwrite' hrename'
  refine ⟨e', save_eq_ok_iff.mpr ⟨d', fun parent hp => ?_, fun _ => rfl,
    replace_eq_ok_iff.mpr ⟨e, hwrite', hrename'⟩⟩⟩
  have hmade := Disk.isDirectory_createDirs hd (hdirs parent hp)
  exact Disk.createDirs_of_isDirectory
    (hmade.imp_right fun hdir => hext'.isDirectory (hext.isDirectory hdir))

/-- The entries are written back to a path. -/
def WritesBack (p : Path) (entries : Entries) (d d' : Disk) : Prop :=
  ∃ f, ({ path := p, entries := some entries, dirty := true } : CacheFile).flush d = .ok f d'

theorem writesBack_iff : WritesBack p entries d d' ↔ save p (encode entries) d = .ok () d' := by
  have hflush : ({ path := p, entries := some entries, dirty := true } : CacheFile).flush d =
      EStateM.bind (save p (encode entries))
        (fun _ => pure { path := p, entries := some entries, dirty := false }) d := rfl
  unfold WritesBack
  rw [hflush]
  unfold EStateM.bind
  cases save p (encode entries) d with
  | ok u d₁ => exact ⟨fun ⟨f, h⟩ => (by cases h; rfl), fun h => (by cases h; exact ⟨_, rfl⟩)⟩
  | error e d₁ => exact ⟨fun ⟨f, h⟩ => (by cases h), nofun⟩

theorem WritesBack.hasFile (h : WritesBack p entries d d') (hd : d.WellFormed) :
    d'.WellFormed ∧ ∃ id, d'.HasFile p id (encode entries) := by
  have hspec := save_spec hd p (encode entries)
  rw [writesBack_iff.mp h] at hspec
  exact ⟨hspec.1, hspec.2.2⟩

theorem WritesBack.read (h : WritesBack p entries d d') (hd : d.WellFormed) :
    d'.read p = .ok (encode entries) := by
  obtain ⟨-, id, hfile⟩ := h.hasFile hd
  unfold Disk.read
  rw [Disk.hasFile_iff.mp hfile]
  rfl

theorem WritesBack.load (h : WritesBack p entries d d') (hd : d.WellFormed)
    (hentries : entries.Ordered) : CacheFile.load p d' = .ok entries := by
  obtain ⟨-, id, hfile⟩ := h.hasFile hd
  rw [load_of_hasFile (Disk.hasFile_iff.mp hfile), decode_encode hentries]

theorem WritesBack.again (h : WritesBack p t d d') (hd : d.WellFormed) (u : Entries) :
    ∃ d'', WritesBack p u d' d'' := by
  obtain ⟨d'', hsave⟩ := save_again hd (writesBack_iff.mp h) (encode u)
  exact ⟨d'', writesBack_iff.mpr hsave⟩

/-- The document of the entries loads as the entries, wherever it is written. It can be written again,
and then it is the same. -/
structure Survive (entries : Entries) : Prop where
  decode : decode (encode entries) = .ok entries
  load : ∀ {p d d'}, d.WellFormed → WritesBack p entries d d' →
    d'.read p = .ok (encode entries) ∧ load p d' = .ok entries
  again : ∀ {p d d'}, d.WellFormed → WritesBack p entries d d' →
    ∃ d'', WritesBack p entries d' d'' ∧ CacheFile.load p d'' = .ok entries ∧
      d''.read p = d'.read p

theorem survive_of_ordered (h : entries.Ordered) : Survive entries := by
  refine ⟨decode_encode h, fun hd hwrites => ⟨hwrites.read hd, hwrites.load hd h⟩,
    fun hd hwrites => ?_⟩
  obtain ⟨hd', -⟩ := hwrites.hasFile hd
  obtain ⟨d'', hagain⟩ := hwrites.again hd entries
  exact ⟨d'', hagain, hagain.load hd' h, (hagain.read hd').trans (hwrites.read hd).symm⟩

/-- All entries survive, also those that were loaded from a file, and different ones are written as
different bytes. -/
theorem entries_survive :
    (∀ entries : Entries, entries.Ordered → Survive entries) ∧
      (∀ t u : Entries, t.Ordered → u.Ordered → encode t = encode u → t = u) ∧
      (∀ content entries, decode content = .ok entries → Survive entries) ∧
      ∀ p d entries, load p d = .ok entries → Survive entries := by
  refine ⟨fun _ => survive_of_ordered, fun _ _ => encode_injective, fun _ _ h => ?_,
    fun _ _ _ h => ?_⟩
  · exact survive_of_ordered (ordered_of_decode h)
  · exact survive_of_ordered (ordered_of_kept (kept_of_load h))

/-- Keys that have to be escaped, and a document in the form of an array. -/
theorem entries_survive_of_odd_keys :
    let entries : Entries := [("", [255]), ("\"\\", []), ("é", [0, 1])]
    let document := Utf8.encode "[1 , \x7b \"k\" : \"AQ==\" \x7d]"
    decode (encode entries) = .ok entries ∧
      (∃ d', WritesBack ⟨"store/b.bin"⟩ entries (.empty ["home"] 1) d' ∧
        load ⟨"store/b.bin"⟩ d' = .ok entries) ∧
      decode document = .ok [("k", [1])] ∧ Survive [("k", [1])] := by
  intro entries document
  have hordered : entries.Ordered := by
    unfold Table.Ordered
    decide
  have hdocument : decode document = .ok [("k", [1])] := by decide +kernel
  have hsaves : (save ⟨"store/b.bin"⟩ (encode entries)).run' (.empty ["home"] 1) = some () := by
    decide +kernel
  obtain ⟨hall, -, hdecoded, -⟩ := entries_survive
  have hsurvive := hall entries hordered
  refine ⟨hsurvive.decode, ?_, hdocument, hdecoded document _ hdocument⟩
  unfold EStateM.run' EStateM.run at hsaves
  split at hsaves
  · rename_i d' hsave
    have hwrites : WritesBack ⟨"store/b.bin"⟩ entries (.empty ["home"] 1) d' :=
      writesBack_iff.mpr hsave
    exact ⟨d', hwrites, (hsurvive.load (Disk.wellFormed_empty ..) hwrites).2⟩
  · cases hsaves

end HistoryKeeper.CacheFile
