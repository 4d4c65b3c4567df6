import HistoryKeeper.Proofs.Store.LockDiscipline
import HistoryKeeper.Proofs.Store.Tended

/-!
# Files that stores leave alone

A `Crew.Shift` is any run of a crew that has the disk to itself: stores are opened, called, closed and
dropped in any order, in turn also by different processes, and whatever fails fails. It notes the paths of
the caches that were changed.

Only the files of those paths have other bytes behind a shift; a file that is corrupt cannot be among them,
and stays as it is (`Crew.Shift.rewrites_altered`). The latter needs that the paths in use are settled: out
of a directory that is missing a path leads to no file, so nothing looks corrupt there, and as soon as the
directory is made for it the corrupt file of another spelling is written over
(`Crew.Shift.rewrites_unsettled`).
-/

namespace HistoryKeeper

open FileStore (Action Response)
open CacheFile (load kept temporary)
open Disk (Tended HasFile)

variable {used legible rewritten dirs : Path → Prop} {p : Path} {d d' : Disk} {id : FileId}
  {content : Bytes} {reason : String} {e : StoreError}

theorem CacheFile.load_corrupt_iff : load p d = .error (.corrupt p reason) ↔
    ∃ id content, d.HasFile p id content ∧ decode content = .error reason := by
  constructor
  · intro h
    cases hs : d.stat p with
    | error e =>
      unfold load Disk.pathExists at h
      rw [hs] at h
      cases h
    | ok n =>
      cases n with
      | directory =>
        unfold load Disk.pathExists Disk.read at h
        rw [hs] at h
        cases h
      | file id content =>
        rw [load_of_hasFile hs] at h
        split at h
        · cases h
        · rename_i hdecode
          cases h
          exact ⟨id, content, Disk.hasFile_iff.mpr hs, hdecode⟩
  · rintro ⟨id, content, hfile, hdecode⟩
    rw [load_of_hasFile (Disk.hasFile_iff.mp hfile), hdecode]

theorem CacheFile.kept_of_corrupt (hfile : d.HasFile p id content)
    (hdecode : decode content = .error reason) : kept p d = .error content := by
  rw [kept_of_hasFile hfile, hdecode]
  rfl

theorem CacheFile.corrupt_of_kept (h : kept p d = .error content) :
    ∃ id reason, d.HasFile p id content ∧ decode content = .error reason := by
  obtain ⟨id, hs⟩ := hasFile_of_kept h
  have hfile := Disk.hasFile_iff.mpr hs
  rw [kept_of_hasFile hfile] at h
  cases hdecode : decode content with
  | ok entries =>
    rw [hdecode] at h
    cases h
  | error reason => exact ⟨id, reason, hfile, rfl⟩

/-- The files in use are none of those that stores make for themselves. -/
structure Apart (used dirs : Path → Prop) (home : Location) : Prop where
  notLock : ∀ p, used p → ∀ dir, dirs dir → p.location home ≠ DirectoryLock.locationOf home dir
  notTemporary : ∀ p q, used p → used q → ∀ processId,
    p.location home ≠ (temporary q processId).location home

theorem Apart.of_last {home : Location} (h : ∀ p, used p → p.text.toList.getLast? = some 'n') :
    Apart used dirs home := by
  have hlast : ∀ p, used p → Path.EndsWith (p.location home) 'n' := fun p hp =>
    Path.endsWith_location (h p hp) (by decide) (by decide) home
  refine ⟨fun p hp dir _ he => ?_, fun p q hp _ processId he => ?_⟩
  · have hn := hlast p hp
    rw [he] at hn
    exact absurd (hn.unique (endsWith_lock dir home)) (by decide)
  · have hn := hlast p hp
    rw [he] at hn
    obtain ⟨c, hdigit, htemporary⟩ := endsWith_temporary q processId home
    rw [← hn.unique htemporary] at hdigit
    exact absurd hdigit (by decide)

/-- Corrupt files neither come up nor go away while only legible ones are rewritten. -/
theorem Disk.Tended.corrupt_iff (h : d.Tended rewritten dirs d') (hd : d.WellFormed)
    (hapart : Apart used dirs d.home) (hsettled : ∀ p, used p → d.Settled p)
    (hlegible : ∀ p, rewritten p → used p ∧ ∃ entries, kept p d = .ok entries) (hp : used p)
    (hdecode : CacheFile.decode content = .error reason) :
    d'.HasFile p id content ↔ d.HasFile p id content := by
  constructor
  · intro hfile'
    have hfound := hfile'.file
    have hforFile := hfile'.forFile
    rw [h.home] at hfound hforFile
    rcases h.origin hfound with hsame | ⟨q, -, hwritten⟩ | ⟨⟨dir, hdir, hlock⟩, -⟩
    · exact (hsettled p hp).hasFile hd hforFile hsame
    · obtain ⟨entries, hentries⟩ := hwritten.legible
      cases hdecode.symm.trans hentries
    · exact absurd hlock (hapart.notLock p hp dir hdir)
  · intro hfile
    obtain ⟨id', content', hfound⟩ : ∃ id' content',
        d'.node? (p.location d.home) = some (.file id' content') := by
      rcases h.file hfile.file with hfound | ⟨q, hq, processId, htemporary⟩
      · exact hfound
      · exact absurd htemporary (hapart.notTemporary p q hp (hlegible q hq).1 processId)
    rcases h.origin hfound with hsame | ⟨q, hq, hwritten⟩ | ⟨⟨dir, hdir, hlock⟩, -⟩
    · cases hfile.file.symm.trans hsame
      refine ⟨hfile.fits, fun pre s post he => ?_, hfile.slash, by rwa [h.home]⟩
      rw [h.home]
      exact h.directory (hfile.passable pre s post he)
    -- what was written back here was legible before, by another spelling of the path
    · obtain ⟨hused, entries, hentries⟩ := hlegible q hq
      have hother : d.HasFile q id content :=
        (hsettled q hused).hasFile hd hwritten.forFile (hwritten.location ▸ hfile.file)
      cases (CacheFile.kept_of_corrupt hother hdecode).symm.trans hentries
    · exact absurd hlock (hapart.notLock p hp dir hdir)

/-- The cache that a call goes to. -/
def FileStore.Action.cache? : Action → Option CacheId
  | .get c _ | .edit c _ _ => some c
  | _ => none

theorem FileStore.onCache_of_cache? {action : Action} {c : CacheId} (h : action.cache? = some c) :
    action.onCache = true := by
  cases action <;> first | rfl | cases h

/-- What may happen while a crew has the disk to itself. -/
def Deed.Fair (used dirs : Path → Prop) (crew : Crew) : Deed → Prop
  | .openStore dir _ => dirs dir
  | .call _ action => action.Uses used
  | .drop _ => True
  | .change disk => ∃ processId, disk = { crew.disk with processId }

/-- The path of the cache that a step changes. -/
def Crew.altered (crew : Crew) : Deed → List Path
  | .call n action =>
    match crew.holders[n]? with
    | some h => action.altered h.store crew.disk
    | none => []
  | _ => []

/-- Steps of a crew, with the paths of the caches that they changed. -/
inductive Crew.Shift (used dirs : Path → Prop) (first : Crew) : List Path → Crew → Prop
  | start : Shift used dirs first [] first
  | step {altered crew deed result crew'} : Shift used dirs first altered crew →
      deed.Fair used dirs crew → crew.step deed = some (result, crew') →
      Shift used dirs first (altered ++ crew.altered deed) crew'

/-- Nothing but the files of altered paths was rewritten or is about to be. -/
structure Crew.Tended (used legible dirs : Path → Prop) (d : Disk) (altered : List Path) (crew : Crew) :
    Prop where
  disk : d.Tended (· ∈ altered) dirs crew.disk
  stores : ∀ h ∈ crew.holders, h.store.Tame used legible (· ∈ altered) dirs
  legible : ∀ p ∈ altered, legible p

/-- The caches of a path do not load, and nothing comes of calls on them. -/
def Crew.Refuses (crew : Crew) (p : Path) (reason : String) : Prop :=
  ∀ n h c f, crew.holders[n]? = some h → h.store.caches[c]? = some f → f.path = p →
    f.entries = none ∧ f.dirty = false ∧ ∀ action, action.cache? = some c →
      ∃ e, crew.step (.call n action) = some (.error e, crew) ∧
        (h.Answers → e = .corrupt p reason) ∧ (¬ h.Answers → e = .lockNotHeld)

variable {altered altered' : List Path} {crew crew' first : Crew} {deed : Deed}
  {result : Except StoreError Response} {h : Holder} {action : Action} {c : CacheId} {f : CacheFile}

/-- A call on a cache that cannot be loaded fails and does nothing. -/
theorem FileStore.perform_of_load {s : FileStore} (hheld : s.lockHeld = true)
    (hf : s.caches[c]? = some f) (hentries : f.entries = none) (hload : load f.path d = .error e)
    (hcache : action.cache? = some c) : action.perform (s, d) = .error e (s, d) := by
  have haccess : ∀ {α : Type} (g : CacheFile → Entries → α × CacheFile),
      access c g (s, d) = .error e (s, d) := by
    intro α g
    rw [access_eq, if_pos hheld, hf]
    simp only [CacheFile.loaded, hentries, hload]
    rfl
  cases action with
  | get c' key =>
    cases hcache
    show EStateM.map _ (lookup c key) (s, d) = _
    unfold EStateM.map lookup
    rw [haccess]
  | edit c' key change =>
    cases hcache
    show EStateM.map _ (change.call c key : Call Unit) (s, d) = _
    unfold EStateM.map
    rw [call_eq, haccess]
  | _ => cases hcache

namespace Holder

theorem tends_call (h : Holder) (action : Action)
    (htends : FileStore.Tends used legible rewritten dirs (h.store, d)
      (endState (action.perform (h.store, d)))) :
    FileStore.Tends used legible rewritten dirs (h.store, d)
      ((h.call action d).2.1.store, (h.call action d).2.2) := by
  unfold Holder.call
  cases hr : action.perform (h.store, d) with
  | ok response st =>
    rw [hr] at htends
    exact htends
  | error e st =>
    rw [hr, endState_error] at htends
    dsimp only
    split
    · exact htends.trans (FileStore.tends_freeLock st.1 st.2)
    · exact htends

theorem Sound.call_of_load (hsound : h.Sound) (hanswers : h.Answers) (hf : h.store.caches[c]? = some f)
    (hentries : f.entries = none) (hload : load f.path d = .error e) (hcache : action.cache? = some c) :
    h.call action d = (.error e, h, d) := by
  have hcloses : action.closes = false := by
    cases action <;> first | rfl | cases hcache
  unfold Holder.call
  rw [FileStore.perform_of_load (hsound.flag.mpr hanswers) hf hentries hload hcache]
  simp [hcloses]

end Holder

namespace Crew

theorem step_of_refused {n : Nat} (hn : crew.holders[n]? = some h) (hcache : action.onCache = true)
    (hcall : h.call action crew.disk = (.error e, h, crew.disk)) :
    crew.step (.call n action) = some (.error e, crew) := by
  obtain ⟨hlt, rfl⟩ := List.getElem?_eq_some_iff.mp hn
  simp only [Crew.step, hn, hcall, hcache, or_true, if_true]
  rw [List.set_getElem_self hlt]

namespace Tended

theorem widen (h : crew.Tended used legible dirs d altered) (hnew : ∀ p ∈ altered', legible p) :
    crew.Tended used legible dirs d (altered ++ altered') :=
  ⟨h.disk.mono fun _ hp => List.mem_append_left _ hp,
    fun x hx => (h.stores x hx).mono fun _ hp => List.mem_append_left _ hp,
    fun p hp => (List.mem_append.mp hp).elim (h.legible p) (hnew p)⟩

theorem set (h : crew.Tended used legible dirs d altered) {n : Nat} {x x' : Holder}
    (hx : crew.holders[n]? = some x)
    (htends : FileStore.Tends used legible (· ∈ altered) dirs (x.store, crew.disk) (x'.store, d')) :
    Tended used legible dirs d altered { holders := crew.holders.set n x', disk := d' } := by
  obtain ⟨htended, htame⟩ := htends h.disk.wellFormed (h.stores x (List.mem_of_getElem? hx))
  refine ⟨h.disk.trans htended, fun y hy => ?_, h.legible⟩
  rcases List.mem_or_eq_of_mem_set hy with hold | rfl
  · exact h.stores y hold
  · exact htame

theorem step (h : crew.Tended used legible dirs d altered)
    (hload : ∀ p entries, used p → load p crew.disk = .ok entries → legible p)
    (hfair : deed.Fair used dirs crew) (hstep : crew.step deed = some (result, crew')) :
    crew'.Tended used legible dirs d (altered ++ crew.altered deed) := by
  have hold : crew.Tended used legible dirs d (altered ++ []) := h.widen nofun
  cases deed with
  | openStore dir timeout =>
    obtain ⟨htended, htame⟩ := FileStore.tends_openStore used legible (· ∈ altered ++ []) hfair timeout
      h.disk.wellFormed
    simp only [Crew.step] at hstep
    split at hstep
    · rename_i store disk hopen
      cases hstep
      rw [hopen] at htended
      refine ⟨hold.disk.trans htended, fun x hx => ?_, hold.legible⟩
      rcases List.mem_append.mp hx with hx | hx
      · exact hold.stores x hx
      · rw [List.mem_singleton.mp hx]
        exact htame store disk hopen
    · rename_i e disk hopen
      cases hstep
      rw [hopen] at htended
      exact ⟨hold.disk.trans htended, hold.stores, hold.legible⟩
  | call n action =>
    obtain ⟨x, hx, -, -, rfl⟩ := step_call hstep
    have haltered : crew.altered (.call n action) = action.altered x.store crew.disk := by
      simp only [Crew.altered, hx]
    rw [haltered]
    have hnew : ∀ p ∈ action.altered x.store crew.disk, legible p := fun p =>
      FileStore.legible_of_altered (h.stores x (List.mem_of_getElem? hx)) hload
    refine (h.widen hnew).set hx (x.tends_call action ?_)
    exact FileStore.tends_perform action hfair hload fun p hp => List.mem_append_right _ hp
  | drop n =>
    simp only [Crew.step] at hstep
    split at hstep
    · cases hstep
    · rename_i x hx
      split at hstep
      · cases hstep
        exact hold.set hx (FileStore.tends_freeLock x.store crew.disk)
      · cases hstep
  | change disk =>
    obtain ⟨processId, rfl⟩ := hfair
    cases hstep
    exact ⟨hold.disk.trans (.of_nodes h.disk.wellFormed rfl rfl), hold.stores, hold.legible⟩

end Tended

namespace Shift

theorem trans (h : Shift used dirs first altered crew) (h' : Shift used dirs crew altered' crew') :
    Shift used dirs first (altered ++ altered') crew' := by
  induction h' with
  | start => rwa [List.append_nil]
  | step _ hfair hstep ih =>
    rw [← List.append_assoc]
    exact ih.step hfair hstep

theorem replay {deeds : List Deed} {last : Crew} (h : Shift used dirs first altered crew)
    (hfair : ∀ crew, ∀ deed ∈ deeds, deed.Fair used dirs crew) (hr : crew.replay deeds = some last) :
    ∃ altered', Shift used dirs first altered' last := by
  induction deeds generalizing crew altered with
  | nil =>
    cases hr
    exact ⟨altered, h⟩
  | cons deed deeds ih =>
    obtain ⟨⟨result, crew'⟩, hstep, hrest⟩ := Option.bind_eq_some_iff.mp hr
    exact ih (h.step (hfair crew deed (List.mem_cons_self ..)) hstep)
      (fun crew deed hdeed => hfair crew deed (List.mem_cons_of_mem _ hdeed)) hrest

theorem run (h : Shift used dirs { holders := [], disk := d } altered crew) : Run d crew := by
  induction h with
  | start => exact .start
  | step _ _ hstep ih => exact ih.step hstep

theorem tended (hd : d.WellFormed)
    (hload : ∀ {altered} {crew : Crew}, crew.Tended used legible dirs d altered →
      ∀ p entries, used p → load p crew.disk = .ok entries → legible p)
    (h : Shift used dirs { holders := [], disk := d } altered crew) :
    crew.Tended used legible dirs d altered := by
  induction h with
  | start => exact ⟨.refl hd, nofun, nofun⟩
  | step _ hfair hstep ih => exact ih.step (hload ih) hfair hstep

/-- Where paths are settled, only what is legible to begin with is ever loaded or rewritten. -/
theorem tended_of_settled (hd : d.WellFormed) (hapart : Apart used dirs d.home)
    (hsettled : ∀ p, used p → d.Settled p)
    (h : Shift used dirs { holders := [], disk := d } altered crew) :
    crew.Tended used (fun p => used p ∧ ∃ entries, kept p d = .ok entries) dirs d altered := by
  refine h.tended hd fun {altered crew} htended p entries hp hload => ⟨hp, ?_⟩
  cases hkept : kept p d with
  | ok entries => exact ⟨entries, rfl⟩
  | error bytes =>
    obtain ⟨id, reason, hfile, hdecode⟩ := CacheFile.corrupt_of_kept hkept
    have hfile' := (htended.disk.corrupt_iff hd hapart hsettled htended.legible hp hdecode).mpr hfile
    have hcorrupt := CacheFile.load_corrupt_iff.mpr ⟨id, bytes, hfile', hdecode⟩
    cases hcorrupt.symm.trans hload

theorem corrupt_stays (hd : d.WellFormed) (hapart : Apart used dirs d.home)
    (hsettled : ∀ p, used p → d.Settled p)
    (hshift : Shift used dirs { holders := [], disk := d } altered crew) (hp : used p)
    (hload : load p crew.disk = .error (.corrupt p reason)) (hshift' : Shift used dirs crew altered' crew') :
    crew'.disk.node? (p.location d.home) = crew.disk.node? (p.location d.home) ∧
      load p crew'.disk = .error (.corrupt p reason) ∧ crew'.Refuses p reason := by
  have htended := hshift.tended_of_settled hd hapart hsettled
  have htended' := (hshift.trans hshift').tended_of_settled hd hapart hsettled
  obtain ⟨id, content, hfile, hdecode⟩ := CacheFile.load_corrupt_iff.mp hload
  -- corrupt files are the same ones all along
  have hfirst := (htended.disk.corrupt_iff hd hapart hsettled htended.legible hp hdecode).mp hfile
  have hfile' := (htended'.disk.corrupt_iff hd hapart hsettled htended'.legible hp hdecode).mpr hfirst
  have hload' := CacheFile.load_corrupt_iff.mpr ⟨id, content, hfile', hdecode⟩
  refine ⟨?_, hload', ?_⟩
  · have hnode := hfile.file
    have hnode' := hfile'.file
    rw [htended.disk.home] at hnode
    rw [htended'.disk.home] at hnode'
    exact hnode'.trans hnode.symm
  · rintro n h c f hn hf rfl
    have htame := (htended'.stores h (List.mem_of_getElem? hn)).files f (List.mem_of_getElem? hf)
    have hillegible : ¬ (used f.path ∧ ∃ entries, kept f.path d = .ok entries) := by
      rintro ⟨-, entries, hentries⟩
      cases (CacheFile.kept_of_corrupt hfirst hdecode).symm.trans hentries
    have hentries : f.entries = none :=
      Option.not_isSome_iff_eq_none.mp fun hsome => hillegible (htame.legible hsome)
    have hclean : f.dirty = false := Bool.eq_false_iff.mpr fun hdirty =>
      hillegible (htended'.legible f.path (htame.dirty hdirty))
    refine ⟨hentries, hclean, fun action hcache => ?_⟩
    have honCache := FileStore.onCache_of_cache? hcache
    have hsound := (hshift.trans hshift').run.sound h (List.mem_of_getElem? hn)
    by_cases hanswers : h.Answers
    · have hcall := hsound.call_of_load hanswers hf hentries hload' hcache
      exact ⟨_, step_of_refused hn honCache hcall, fun _ => rfl, absurd hanswers⟩
    · have hcall := hsound.call_of_not_answers hanswers honCache crew'.disk
      exact ⟨_, step_of_refused hn honCache hcall, fun h => absurd h hanswers, fun _ => rfl⟩

/-- Files change only by what was altered, and a corrupt file does not change at all. -/
theorem rewrites_altered (hd : d.WellFormed) (hapart : Apart used dirs d.home)
    (hshift : Shift used dirs { holders := [], disk := d } altered crew) :
    (∀ l id content, d.node? l = some (.file id content) → (∀ p ∈ altered, p.location d.home ≠ l) →
      (∀ id' content', crew.disk.node? l = some (.file id' content') → content' = content) ∧
      ((∀ p ∈ altered, ∀ processId, (temporary p processId).location d.home ≠ l) →
        crew.disk.node? l = some (.file id content))) ∧
    (altered = [] → ∀ l id content, d.node? l = some (.file id content) →
      crew.disk.node? l = some (.file id content)) ∧
    ((∀ p, used p → d.Settled p) → ∀ p reason, used p →
      load p crew.disk = .error (.corrupt p reason) →
      ∀ altered' crew', Shift used dirs crew altered' crew' →
        crew'.disk.node? (p.location d.home) = crew.disk.node? (p.location d.home) ∧
        load p crew'.disk = .error (.corrupt p reason) ∧ crew'.Refuses p reason) := by
  have htended : crew.Tended used (fun _ => True) dirs d altered :=
    hshift.tended hd fun _ _ _ _ _ => trivial
  have hsame : ∀ {l id content}, d.node? l = some (.file id content) →
      (∀ p ∈ altered, p.location d.home ≠ l) → ∀ {id' content'},
      crew.disk.node? l = some (.file id' content') → id' = id ∧ content' = content := by
    intro l id content hl hnot id' content' hl'
    rcases htended.disk.origin hl' with hold | ⟨p, hp, hwritten⟩ | ⟨-, hnone⟩
    · cases hl.symm.trans hold
      exact ⟨rfl, rfl⟩
    · exact absurd hwritten.location.symm (hnot p hp)
    · exact absurd hl (hnone id content)
  have hstays : ∀ {l id content}, d.node? l = some (.file id content) →
      (∀ p ∈ altered, p.location d.home ≠ l) →
      (∀ p ∈ altered, ∀ processId, (temporary p processId).location d.home ≠ l) →
      crew.disk.node? l = some (.file id content) := by
    intro l id content hl hnot hbeside
    rcases htended.disk.file hl with ⟨id', content', hl'⟩ | ⟨p, hp, processId, he⟩
    · obtain ⟨rfl, rfl⟩ := hsame hl hnot hl'
      exact hl'
    · exact absurd he.symm (hbeside p hp processId)
  refine ⟨fun l id content hl hnot => ⟨fun id' content' hl' => (hsame hl hnot hl').2,
    hstays hl hnot⟩, ?_, ?_⟩
  · rintro rfl l id content hl
    exact hstays hl nofun nofun
  · intro hsettled p reason hp hload altered' crew' hshift'
    exact corrupt_stays hd hapart hsettled hshift hp hload hshift'

/-- A disk with a directory for a store. -/
def furnished : Disk :=
  { Disk.empty ["home"] 1 with
    nodes := (Disk.empty ["home"] 1).nodes.insert ["home", "store"] .directory }

theorem wellFormed_furnished : furnished.WellFormed :=
  (Disk.wellFormed_empty ["home"] 1).insert (l := ["home", "store"]) (n := .directory) rfl
    (List.cons_ne_nil _ _) rfl nofun

/-- There is a file in the directory that is no cache file. -/
def spoiled : Disk :=
  { furnished with
    nodes := furnished.nodes.insert ["home", "store", "a.bin"]
      (.file 0 [103, 97, 114, 98, 97, 103, 101])
    nextId := 1 }

theorem wellFormed_spoiled : spoiled.WellFormed :=
  wellFormed_furnished.insert (l := ["home", "store", "a.bin"]) rfl (List.cons_ne_nil _ _) rfl nofun

/-- A store that uses a corrupt file and another one. -/
theorem rewrites_altered_of_garbage :
    let a : Path := ⟨"store/a.bin"⟩
    let b : Path := ⟨"store/b.bin"⟩
    ∃ altered crew, Shift (fun p => p = a ∨ p = b) (· = ⟨"store"⟩) { holders := [], disk := spoiled }
        altered crew ∧
      load b crew.disk = .ok [("1", [97])] ∧
      crew.disk.node? (a.location spoiled.home) = spoiled.node? (a.location spoiled.home) ∧
      crew.step (.call 0 (.get 0 "1")) = some (.error (.corrupt a "expected value"), crew) := by
  intro a b
  let deeds : List Deed := [.openStore ⟨"store"⟩ .zero, .call 0 (.openCache a), .call 0 (.openCache b),
    .call 0 (.edit 0 "1" (.put [97])), .call 0 (.edit 1 "1" (.put [97])), .call 0 .leave]
  have hseen : ((Crew.replay { holders := [], disk := spoiled } deeds).bind fun crew =>
      crew.holders[0]?.bind fun h => h.store.caches[0]?.map fun f =>
        (h.fate, h.store.isLocked, f.path, decide (load b crew.disk = .ok [("1", [97])]))) =
          some (.live, true, a, true) := by decide +kernel
  obtain ⟨crew, hreplay, hseen⟩ := Option.bind_eq_some_iff.mp hseen
  obtain ⟨h, hn, hseen⟩ := Option.bind_eq_some_iff.mp hseen
  obtain ⟨f, hf, hseen⟩ := Option.map_eq_some_iff.mp hseen
  simp only [Prod.mk.injEq] at hseen
  obtain ⟨hlive, hlocked, hpath, hb⟩ := hseen
  have hanswers : h.Answers := by
    rw [Holder.Answers, hlive]
    exact hlocked
  have hfair : ∀ crew, ∀ deed ∈ deeds, deed.Fair (fun p => p = a ∨ p = b) (· = ⟨"store"⟩) crew := by
    intro crew deed hdeed
    simp only [deeds, List.mem_cons, List.not_mem_nil, or_false] at hdeed
    rcases hdeed with rfl | rfl | rfl | rfl | rfl | rfl <;>
      first | exact trivial | rfl | exact .inl rfl | exact .inr rfl
  obtain ⟨altered, hshift⟩ := Shift.start.replay hfair hreplay
  have hapart : Apart (fun p => p = a ∨ p = b) (· = ⟨"store"⟩) spoiled.home :=
    .of_last fun p hp => by rcases hp with rfl | rfl <;> decide
  have hsettled : ∀ p, p = a ∨ p = b → spoiled.Settled p := fun p hp =>
    Disk.settled_of_no_up (by rcases hp with rfl | rfl <;> decide)
  have hcorrupt : load a spoiled = .error (.corrupt a "expected value") := by decide +kernel
  obtain ⟨-, -, hstays⟩ := rewrites_altered wellFormed_spoiled hapart .start
  obtain ⟨hsame, -, hrefuses⟩ := hstays hsettled a _ (.inl rfl) hcorrupt altered crew hshift
  obtain ⟨-, -, hcalls⟩ := hrefuses 0 h 0 f hn hf hpath
  obtain ⟨e, hstep, he, -⟩ := hcalls (.get 0 "1") rfl
  rw [he hanswers] at hstep
  exact ⟨altered, crew, hshift, of_decide_eq_true hb, hsame, hstep⟩

/-- The number of a file. -/
def fileNumber : Node → Option FileId
  | .file id _ => some id
  | .directory => none

/-- Where a path leads through a directory that is missing, the corrupt file that it will lead to is
written over. -/
theorem rewrites_unsettled :
    ¬ ∀ (used dirs : Path → Prop) (d : Disk) (altered : List Path) (crew : Crew) (p : Path)
        (reason : String), d.WellFormed → Apart used dirs d.home →
      Shift used dirs { holders := [], disk := d } altered crew → used p →
      load p d = .error (.corrupt p reason) →
      crew.disk.node? (p.location d.home) = d.node? (p.location d.home) := by
  intro hclaim
  let a : Path := ⟨"store/a.bin"⟩
  let b : Path := ⟨"store/x/../a.bin"⟩
  let deeds : List Deed := [.openStore ⟨"store"⟩ .zero, .call 0 (.openCache b),
    .call 0 (.edit 0 "1" (.put [97])), .call 0 .leave]
  have hseen : ((Crew.replay { holders := [], disk := spoiled } deeds).map fun crew =>
      (crew.disk.node? ["home", "store", "a.bin"]).bind fileNumber) = some (some 2) := by decide +kernel
  obtain ⟨crew, hreplay, hseen⟩ := Option.map_eq_some_iff.mp hseen
  have hfair : ∀ crew, ∀ deed ∈ deeds, deed.Fair (fun p => p = a ∨ p = b) (· = ⟨"store"⟩) crew := by
    intro crew deed hdeed
    simp only [deeds, List.mem_cons, List.not_mem_nil, or_false] at hdeed
    rcases hdeed with rfl | rfl | rfl | rfl <;> first | exact trivial | rfl | exact .inr rfl
  obtain ⟨altered, hshift⟩ := Shift.start.replay hfair hreplay
  have hapart : Apart (fun p => p = a ∨ p = b) (· = ⟨"store"⟩) spoiled.home :=
    .of_last fun p hp => by rcases hp with rfl | rfl <;> decide
  have hcorrupt : load a spoiled = .error (.corrupt a "expected value") := by decide +kernel
  have hsame := hclaim _ _ spoiled altered crew a _ wellFormed_spoiled hapart hshift (.inl rfl) hcorrupt
  have hlocation : a.location spoiled.home = ["home", "store", "a.bin"] := by decide
  rw [hlocation] at hsame
  rw [hsame] at hseen
  cases hseen

end Shift

end Crew

end HistoryKeeper
