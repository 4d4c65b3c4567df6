import HistoryKeeper.Proofs.Store.Action

/-!
# Stores that share a directory

A `Fleet` is any number of stores on one directory. They act in any order, one call at a time, and
what others do while a store has its lock given up are just more calls. `Fleet.Run.lawful`: at most one
of them holds the lock, and whichever answers from a cache answers with the last change that any of
them made there.

`Fleet.Sound` says where the last changes are: with the store that holds the lock, or else on the disk.
The files that the disk has to begin with must be found through the paths of their caches
(`Fleet.Run.removed_found`).
-/

namespace HistoryKeeper

open FileStore (Action Response openStore)

/-- A store, open or closed. -/
structure Member where
  store : FileStore
  isOpen : Bool

structure Fleet where
  /-- Every store that was opened. -/
  members : List Member
  disk : Disk

/-- A step of a fleet. -/
inductive Act where
  | openStore (timeout : Duration)
  /-- A call of the store with this number. -/
  | perform (n : Nat) (action : Action)
  /-- From now on it is another process that acts. -/
  | become (processId : Nat)

namespace Fleet

/-- A store has called, and this is what came of it. -/
def after (fleet : Fleet) (n : Nat) (isOpen : Bool) (st : FileStore × Disk) : Fleet :=
  { members := fleet.members.set n { store := st.1, isOpen }, disk := st.2 }

/-- A step, with its outcome; none if there is no such store, or if it is closed. -/
def step (dir : Path) (fleet : Fleet) : Act → Option (Except StoreError Response × Fleet)
  | .openStore timeout =>
    match openStore dir timeout fleet.disk with
    | .ok store disk =>
      some (.ok .done, { members := fleet.members ++ [{ store, isOpen := true }], disk })
    | .error e disk => some (.error e, { fleet with disk })
  | .perform n action =>
    match fleet.members[n]? with
    | none => none
    | some m =>
      if m.isOpen || action.onCache then
        let result := action.perform (m.store, fleet.disk)
        some (outcome result, fleet.after n (m.isOpen && !action.closes) (endState result))
      else none
  | .become processId =>
    some (.ok .done, { fleet with disk := { fleet.disk with processId } })

/-- What a step has written. -/
def written (fleet : Fleet) (act : Act) (outcome : Except StoreError Response) : List PendingWrite :=
  match act with
  | .perform n action =>
    match fleet.members[n]? with
    | some m => action.written m.store outcome
    | none => []
  | _ => []

end Fleet

/-- The caches that a step opens are among those in use. -/
def Act.Uses (used : Path → Prop) : Act → Prop
  | .perform _ action => action.Uses used
  | _ => True

namespace Fleet

/-- A run of a fleet, in which every operation on the disk succeeds, with the changes that were made
in it. -/
inductive Run (used : Path → Prop) (dir : Path) (start : Fleet) : List PendingWrite → Fleet → Prop
  | start : Run used dir start [] start
  | step {history fleet act outcome fleet'} : Run used dir start history fleet → act.Uses used →
      fleet.step dir act = some (outcome, fleet') → (∀ e, outcome = .error e → ¬ e.IsFault) →
      Run used dir start (history ++ fleet.written act outcome) fleet'

/-- Steps in turn that all succeed, with the changes that they make. -/
def replay (dir : Path) : List Act → Fleet → Option (List PendingWrite × Fleet)
  | [], fleet => some ([], fleet)
  | act :: acts, fleet =>
    match fleet.step dir act with
    | some (.ok reply, next) =>
      (replay dir acts next).map fun (ws, last) => (fleet.written act (.ok reply) ++ ws, last)
    | _ => none

theorem Run.replay {used : Path → Prop} {dir : Path} {acts : List Act} {start fleet last : Fleet}
    {history ws : List PendingWrite} (h : Run used dir start history fleet)
    (huses : ∀ act ∈ acts, act.Uses used) (hr : replay dir acts fleet = some (ws, last)) :
    Run used dir start (history ++ ws) last := by
  induction acts generalizing history fleet ws with
  | nil =>
    cases hr
    rw [List.append_nil]
    exact h
  | cons act acts ih =>
    unfold Fleet.replay at hr
    split at hr
    · rename_i reply next hstep
      obtain ⟨⟨ws', last'⟩, hrest, he⟩ := Option.map_eq_some_iff.mp hr
      cases he
      rw [← List.append_assoc]
      refine ih (h.step (huses act (List.mem_cons_self ..)) hstep nofun) (fun a ha => ?_) hrest
      exact huses a (List.mem_cons_of_mem _ ha)
    · cases hr

/-- What a key of a cache file has: the last change that was made to it, or else what the file had. -/
def lastValue (d : Disk) (history : List PendingWrite) (p : Path) (key : String) : Option Bytes :=
  match history.reverse.find? (·.targets (FileStore.byPath p) key) with
  | some w => w.visibleValue
  | none => (CacheFile.kept p d).toOption.bind (·.get? key)

end Fleet

open CacheFile (Addressing kept)
open DirectoryLock (Held Tried)
open FileStore (HoldsLock content)

variable {used : Path → Prop} {dir p : Path} {truth truth' : String → CacheContent} {d d' : Disk}
  {m m' x : Member} {fleet fleet' : Fleet} {n k : Nat}

/-- A member goes with the disk, and while it has the lock it has all that was changed. -/
structure Member.Sound (used : Path → Prop) (dir : Path) (truth : String → CacheContent) (d : Disk)
    (m : Member) : Prop where
  baseDir : m.store.baseDir = dir
  opened : m.isOpen = true → FileStore.Sound used (m.store, d)
  closed : m.isOpen = false → m.store.lock = none ∧ m.store.lockHeld = false
  holds : HoldsLock (m.store, d)
  content : m.store.isLocked = true → ∀ p, used p → content (m.store, d) p = truth p.text

namespace Member

theorem Sound.isOpen (h : m.Sound used dir truth d) (hlocked : m.store.isLocked = true) :
    m.isOpen = true := by
  by_contra hclosed
  rw [FileStore.isLocked, (h.closed (by simpa using hclosed)).1] at hlocked
  cases hlocked

theorem Sound.of_unlocked (h : m.Sound used dir truth d) (hunlocked : m.store.isLocked = false)
    (haddr : Addressing used dir d') : m.Sound used dir truth' d' := by
  refine ⟨h.baseDir, fun hopen => ?_, h.closed, .of_unlocked hunlocked, fun hlocked => ?_⟩
  · exact (h.opened hopen).of_unlocked hunlocked (h.baseDir ▸ haddr)
  · rw [hunlocked] at hlocked
    cases hlocked

theorem Sound.tried (h : m.Sound used dir truth d) (htried : Tried dir d d') :
    m.Sound used dir truth d' := by
  have htried' : Tried m.store.baseDir d d' := h.baseDir ▸ htried
  refine ⟨h.baseDir, fun hopen => (FileStore.same_tried (h.opened hopen) htried').sound, h.closed,
    h.holds.kept htried'.kept rfl rfl, fun hlocked p hp => ?_⟩
  have hsame := FileStore.same_tried (h.opened (h.isOpen hlocked)) htried'
  exact (hsame.content p hp).trans (h.content hlocked p hp)

end Member

namespace Fleet

/-- The last changes are with the member that has the lock, or else on the disk. -/
structure Sound (used : Path → Prop) (dir : Path) (truth : String → CacheContent) (fleet : Fleet) :
    Prop where
  addressing : Addressing used dir fleet.disk
  members : ∀ m ∈ fleet.members, m.Sound used dir truth fleet.disk
  alone : ∀ {i j : Nat} {a b : Member}, fleet.members[i]? = some a → fleet.members[j]? = some b →
    a.store.isLocked = true → b.store.isLocked = true → i = j
  kept : (∀ m ∈ fleet.members, m.store.isLocked = false) → ∀ p, used p →
    kept p fleet.disk = truth p.text

theorem mem_set {l : List Member} (h : x ∈ l.set n m) :
    x = m ∨ ∃ k, k ≠ n ∧ l[k]? = some x := by
  obtain ⟨k, hk⟩ := List.mem_iff_getElem?.mp h
  rw [List.getElem?_set] at hk
  split at hk
  · split at hk
    · exact Or.inl (Option.some.inj hk).symm
    · cases hk
  · exact Or.inr ⟨k, Ne.symm ‹_›, hk⟩

theorem Sound.set_alone (h : fleet.Sound used dir truth) (hn : fleet.members[n]? = some m)
    (hothers : ∀ {k : Nat} {x : Member}, k ≠ n → fleet.members[k]? = some x → x.store.isLocked = false)
    (haddr : Addressing used dir d') (hm : m'.Sound used dir truth' d')
    (hkept : m'.store.isLocked = false → ∀ p, used p → CacheFile.kept p d' = truth' p.text) :
    Sound used dir truth' { members := fleet.members.set n m', disk := d' } := by
  have hunlocked : ∀ {i : Nat} {a : Member}, (fleet.members.set n m')[i]? = some a → a.store.isLocked = true →
      i = n := by
    intro i a hi hlocked
    rw [List.getElem?_set] at hi
    split at hi
    · exact Eq.symm ‹_›
    · rw [hothers (Ne.symm ‹_›) hi] at hlocked
      cases hlocked
  refine ⟨haddr, fun x hx => ?_, fun hi hj ha hb => ?_, fun hnone => hkept (hnone m' ?_)⟩
  · rcases mem_set hx with rfl | ⟨k, hk, hx⟩
    · exact hm
    · exact (h.members x (List.mem_of_getElem? hx)).of_unlocked (hothers hk hx) haddr
  · exact (hunlocked hi ha).trans (hunlocked hj hb).symm
  · exact List.mem_set (List.getElem?_eq_some_iff.mp hn).1 m'

theorem Sound.set_beside (h : fleet.Sound used dir truth) (hkn : k ≠ n)
    (hk : fleet.members[k]? = some x) (hlocked : x.store.isLocked = true)
    (htried : Tried dir fleet.disk d') (hm : m'.Sound used dir truth d')
    (hunlocked : m'.store.isLocked = false) :
    Sound used dir truth { members := fleet.members.set n m', disk := d' } := by
  have hother : ∀ {i : Nat} {a : Member}, (fleet.members.set n m')[i]? = some a → a.store.isLocked = true →
      fleet.members[i]? = some a := by
    intro i a hi hlocked
    rw [List.getElem?_set] at hi
    split at hi
    · split at hi
      · cases hi
        rw [hunlocked] at hlocked
        cases hlocked
      · cases hi
    · exact hi
  refine ⟨h.addressing.mono htried.wellFormed htried.ext h.addressing.notLock, fun y hy => ?_, fun hi hj ha hb => ?_,
    fun hnone => ?_⟩
  · rcases mem_set hy with rfl | ⟨j, -, hy⟩
    · exact hm
    · exact (h.members y (List.mem_of_getElem? hy)).tried htried
  · exact h.alone (hother hi ha) (hother hj hb) ha hb
  · have hx : x ∈ fleet.members.set n m' := by
      refine List.mem_of_getElem? (i := k) ?_
      rw [List.getElem?_set, if_neg (Ne.symm hkn), hk]
    rw [hnone x hx] at hlocked
    cases hlocked

theorem Sound.tried (h : fleet.Sound used dir truth) (htried : Tried dir fleet.disk d') :
    Sound used dir truth { fleet with disk := d' } := by
  refine ⟨h.addressing.mono htried.wellFormed htried.ext h.addressing.notLock,
    fun m hm => (h.members m hm).tried htried, h.alone, fun hnone p hp => ?_⟩
  rw [h.addressing.kept_eq htried.ext hp (h.addressing.notLock p hp)]
  exact h.kept hnone p hp

/-- A member that is the only one who can have the lock has all that was changed. -/
theorem Sound.content_alone (h : fleet.Sound used dir truth) (hn : fleet.members[n]? = some m)
    (hopen : m.isOpen = true)
    (hothers : ∀ {k : Nat} {x : Member}, k ≠ n → fleet.members[k]? = some x →
      x.store.isLocked = false) (hp : used p) :
    content (m.store, fleet.disk) p = truth p.text := by
  have hm := h.members m (List.mem_of_getElem? hn)
  cases hlocked : m.store.isLocked with
  | true => exact hm.content hlocked p hp
  | false =>
    rw [FileStore.content_of_unlocked (hm.opened hopen) hlocked]
    refine h.kept (fun x hx => ?_) p hp
    obtain ⟨k, hk⟩ := List.mem_iff_getElem?.mp hx
    by_cases hkn : k = n
    · rw [hkn, hn] at hk
      cases hk
      exact hlocked
    · exact hothers hkn hk

theorem Sound.held (h : fleet.Sound used dir truth) (hx : x ∈ fleet.members)
    (hlocked : x.store.isLocked = true) : Held dir fleet.disk := by
  have hheld := (h.members x hx).holds.held hlocked
  rwa [(h.members x hx).baseDir] at hheld

/-- Either somebody else has the lock, and this member does not, or nobody else has it. -/
theorem Sound.others (h : fleet.Sound used dir truth) (hn : fleet.members[n]? = some m) :
    (∃ k x, k ≠ n ∧ fleet.members[k]? = some x ∧ x.store.isLocked = true ∧
      m.store.isLocked = false) ∨
    ∀ {k : Nat} {x : Member}, k ≠ n → fleet.members[k]? = some x → x.store.isLocked = false := by
  by_cases hother : ∃ k x, k ≠ n ∧ fleet.members[k]? = some x ∧ x.store.isLocked = true
  · obtain ⟨k, x, hkn, hk, hlocked⟩ := hother
    refine Or.inl ⟨k, x, hkn, hk, hlocked, ?_⟩
    by_contra hm
    exact hkn (h.alone hk hn hlocked (by simpa using hm))
  · refine Or.inr fun {k x} hkn hk => ?_
    by_contra hlocked
    exact hother ⟨k, x, hkn, hk, by simpa using hlocked⟩

theorem Sound.perform (h : fleet.Sound used dir truth) (action : Action)
    (hn : fleet.members[n]? = some m) (hopen : m.isOpen = true) (huses : action.Uses used)
    (hcloses : action.closes = false) :
    (fleet.after n true (endState (action.perform (m.store, fleet.disk)))).Sound used dir
      (PendingWrite.contentAfter truth
        (action.written m.store (outcome (action.perform (m.store, fleet.disk))))) := by
  have hm := h.members m (List.mem_of_getElem? hn)
  have hsound := hm.opened hopen
  rcases h.others hn with ⟨k, x, hkn, hk, hlocked, hunlocked⟩ | hothers
  · have hheld : Held m.store.baseDir fleet.disk := by
      rw [hm.baseDir]
      exact h.held (List.mem_of_getElem? hk) hlocked
    obtain ⟨hwaits, hwritten⟩ := FileStore.waits hsound hunlocked hheld huses hcloses
    rw [hwritten]
    refine h.set_beside hkn hk hlocked (hm.baseDir ▸ hwaits.tried) ?_ hwaits.unlocked
    refine ⟨hwaits.baseDir.trans hm.baseDir, fun _ => hwaits.sound, nofun,
      .of_unlocked hwaits.unlocked, fun hl => ?_⟩
    rw [hwaits.unlocked] at hl
    cases hl
  · have hperformed := FileStore.performed hsound hm.holds huses hcloses
    have hdir := hperformed.baseDir.trans hm.baseDir
    have hcontent : ∀ p, used p → content (endState (action.perform (m.store, fleet.disk))) p =
        PendingWrite.contentAfter truth
          (action.written m.store (outcome (action.perform (m.store, fleet.disk)))) p.text := by
      intro p hp
      rw [hperformed.content p hp]
      exact PendingWrite.contentAfter_congr (h.content_alone hn hopen hothers hp) _
    refine h.set_alone hn hothers (hdir ▸ hperformed.sound.addressing)
      ⟨hdir, fun _ => hperformed.sound, nofun, hperformed.holds, fun _ => hcontent⟩
      fun hunlocked p hp => ?_
    rw [← hcontent p hp]
    exact (FileStore.content_of_unlocked hperformed.sound hunlocked p).symm

theorem Sound.close {store : FileStore} (h : fleet.Sound used dir truth)
    (hn : fleet.members[n]? = some m) (hopen : m.isOpen = true)
    (hclose : FileStore.close (m.store, fleet.disk) = .ok () (store, d')) :
    (fleet.after n false (store, d')).Sound used dir truth := by
  have hm := h.members m (List.mem_of_getElem? hn)
  have hsound := hm.opened hopen
  obtain ⟨haddr, hdir, hlock, hheld, hdisk, hkept⟩ := FileStore.close_spec hsound hclose
  have hunlocked : store.isLocked = false := by
    rw [FileStore.isLocked, hlock]
    rfl
  have hclosed : Member.Sound used dir truth d' { store, isOpen := false } :=
    ⟨hdir.trans hm.baseDir, fun h => (by cases h), fun _ => ⟨hlock, hheld⟩, .of_unlocked hunlocked, fun hl => by
      rw [hunlocked] at hl
      cases hl⟩
  rcases h.others hn with ⟨k, x, hkn, hk, hlocked, hm'⟩ | hothers
  · refine h.set_beside hkn hk hlocked ?_ hclosed hunlocked
    rw [hdisk hm']
    exact .refl h.addressing.wellFormed dir
  · refine h.set_alone hn hothers (hm.baseDir ▸ haddr) hclosed fun _ p hp => ?_
    rw [hkept p hp]
    exact h.content_alone hn hopen hothers hp

/-! ### Opening a store -/

theorem Sound.append_fresh (h : fleet.Sound used dir truth) (timeout : Duration) :
    Sound used dir truth { fleet with
      members := fleet.members ++ [{ store := .fresh dir timeout, isOpen := true }] } := by
  have hold : ∀ {i : Nat} {a : Member},
      (fleet.members ++ [{ store := .fresh dir timeout, isOpen := true }])[i]? = some a →
        a.store.isLocked = true → fleet.members[i]? = some a := by
    intro i a hi hlocked
    rw [List.getElem?_append] at hi
    split at hi
    · exact hi
    · rw [List.getElem?_singleton] at hi
      split at hi
      · cases hi
        cases hlocked
      · cases hi
  refine ⟨h.addressing, fun m hm => ?_, fun hi hj ha hb => ?_, fun hnone => h.kept fun m hm => ?_⟩
  · rcases List.mem_append.mp hm with hm | hm
    · exact h.members m hm
    · cases List.mem_singleton.mp hm
      exact ⟨rfl, fun _ => FileStore.sound_fresh h.addressing timeout, nofun, .of_unlocked rfl, nofun⟩
  · exact h.alone (hold hi ha) (hold hj hb) ha hb
  · exact hnone m (List.mem_append_left _ hm)

theorem Sound.openStore_ok {timeout : Duration} {store : FileStore}
    (h : fleet.Sound used dir truth) (hopen : openStore dir timeout fleet.disk = .ok store d') :
    Sound used dir truth
      { members := fleet.members ++ [{ store, isOpen := true }], disk := d' } := by
  obtain ⟨d₁, hdirs, hl⟩ := FileStore.openStore_ok hopen h.addressing.wellFormed
  have hfresh := (h.tried hdirs).append_fresh timeout
  let fresh : Member := { store := .fresh dir timeout, isOpen := true }
  have hn : (fleet.members ++ [fresh])[fleet.members.length]? = some fresh := by
    rw [List.getElem?_append_right (Nat.le_refl _), Nat.sub_self]
    rfl
  have hentered := hfresh.perform .enter hn rfl trivial rfl
  have hend : endState (Action.enter.perform (fresh.store, d₁)) = (store, d') := by
    rw [Action.perform, FileStore.endState_map, hl]
    rfl
  rw [after, hend] at hentered
  have hset : (fleet.members ++ [fresh]).set fleet.members.length { store, isOpen := true } =
      fleet.members ++ [{ store, isOpen := true }] := by
    rw [List.set_append_right _ _ (Nat.le_refl _), Nat.sub_self]
    rfl
  rw [← hset]
  exact hentered

theorem Sound.openStore_error {timeout : Duration} {e : StoreError}
    (h : fleet.Sound used dir truth) (hopen : openStore dir timeout fleet.disk = .error e d') :
    Sound used dir truth { fleet with disk := d' } := by
  obtain ⟨d₁, hdirs, htried, -⟩ := FileStore.openStore_error hopen h.addressing
  exact (h.tried hdirs).tried htried

theorem Sound.become (h : fleet.Sound used dir truth) (processId : Nat) :
    Sound used dir truth { fleet with disk := { fleet.disk with processId } } := by
  have haddr : Addressing used dir { fleet.disk with processId } := h.addressing.congr rfl rfl
  refine ⟨haddr, fun m hm => ?_, h.alone, fun hnone p hp => ?_⟩
  · have hm' := h.members m hm
    have hsame : m.isOpen = true →
        FileStore.Same used (m.store, fleet.disk) (m.store, { fleet.disk with processId }) :=
      fun hopen => FileStore.same_locks (hm'.opened hopen) _ rfl rfl
    refine ⟨hm'.baseDir, fun hopen => (hsame hopen).sound, hm'.closed, hm'.holds,
      fun hlocked p hp => ?_⟩
    exact ((hsame (hm'.isOpen hlocked)).content p hp).trans (hm'.content hlocked p hp)
  · have hkept : CacheFile.kept p { fleet.disk with processId } = CacheFile.kept p fleet.disk := by
      refine CacheFile.kept_of_nodes ?_ ?_ p <;> rfl
    exact hkept.trans (h.kept hnone p hp)

theorem step_perform {action : Action} {result : Except StoreError Response}
    (h : fleet.step dir (.perform n action) = some (result, fleet')) :
    ∃ m, fleet.members[n]? = some m ∧ (m.isOpen = true ∨ action.onCache = true) ∧
      result = outcome (action.perform (m.store, fleet.disk)) ∧
      fleet' = fleet.after n (m.isOpen && !action.closes)
        (endState (action.perform (m.store, fleet.disk))) := by
  unfold step at h
  simp only at h
  split at h
  · cases h
  · rename_i m hm
    split at h
    · rename_i hopen
      cases h
      exact ⟨m, hm, by simpa using hopen, rfl, rfl⟩
    · cases h

theorem after_of_unlocked {action : Action} (hn : fleet.members[n]? = some m)
    (hunlocked : m.store.lockHeld = false) (hcache : action.onCache = true) :
    fleet.after n (m.isOpen && !action.closes)
      (endState (action.perform (m.store, fleet.disk))) = fleet := by
  have hcloses : action.closes = false := by
    cases action <;> first | rfl | cases hcache
  rw [FileStore.perform_of_unlocked hunlocked hcache, hcloses, Bool.not_false, Bool.and_true]
  obtain ⟨hlt, rfl⟩ := List.getElem?_eq_some_iff.mp hn
  show { fleet with members := fleet.members.set n fleet.members[n] } = fleet
  rw [List.set_getElem_self]

theorem Sound.lockHeld_of_unlocked (h : fleet.Sound used dir truth) (hm : m ∈ fleet.members)
    (hunlocked : m.store.isLocked = false) : m.store.lockHeld = false := by
  cases hopen : m.isOpen with
  | true => exact ((h.members m hm).opened hopen).held.trans hunlocked
  | false => exact ((h.members m hm).closed hopen).2

theorem Sound.step {act : Act} {result : Except StoreError Response}
    (h : fleet.Sound used dir truth) (huses : act.Uses used)
    (hstep : fleet.step dir act = some (result, fleet'))
    (hfault : ∀ e, result = .error e → ¬ e.IsFault) :
    fleet'.Sound used dir (PendingWrite.contentAfter truth (fleet.written act result)) := by
  cases act with
  | openStore timeout =>
    unfold Fleet.step at hstep
    simp only at hstep
    split at hstep
    · cases hstep
      exact h.openStore_ok ‹_›
    · cases hstep
      exact h.openStore_error ‹_›
  | become processId =>
    cases hstep
    exact h.become processId
  | perform n action =>
    obtain ⟨m, hn, hopen, rfl, rfl⟩ := step_perform hstep
    have hmem := List.mem_of_getElem? hn
    have hwritten : fleet.written (.perform n action)
        (outcome (action.perform (m.store, fleet.disk))) =
          action.written m.store (outcome (action.perform (m.store, fleet.disk))) := by
      unfold written
      simp only [hn]
    rw [hwritten]
    cases hm : m.isOpen with
    | false =>
      -- the caches of a closed store are still there, but do not answer
      have hcache : action.onCache = true := hopen.resolve_left (by simp [hm])
      have hheld := ((h.members m hmem).closed hm).2
      have hafter := after_of_unlocked hn hheld hcache
      rw [hm] at hafter
      rw [hafter, FileStore.perform_of_unlocked hheld hcache]
      cases action <;> exact h
    | true =>
      cases hcloses : action.closes with
      | false => exact h.perform action hn hm huses hcloses
      | true =>
        cases action with
        | close =>
          rw [Action.perform, FileStore.endState_map]
          rw [Action.perform, FileStore.outcome_map] at hfault
          cases hr : FileStore.close (m.store, fleet.disk) with
          | error e st =>
            obtain ⟨fault, rfl⟩ := FileStore.fault_of_close hr
            rw [hr] at hfault
            exact absurd trivial (hfault _ rfl)
          | ok u st => exact h.close hn hm hr
        | _ => cases hcloses

/-! ### Runs -/

variable {d : Disk} {history : List PendingWrite}

/-- What caches have after changes that were made to the files of a disk. -/
def truthAfter (d : Disk) (history : List PendingWrite) : String → CacheContent :=
  PendingWrite.contentAfter (fun text => CacheFile.kept ⟨text⟩ d) history

theorem Run.sound (haddr : Addressing used dir d)
    (hrun : Run used dir { members := [], disk := d } history fleet) :
    fleet.Sound used dir (truthAfter d history) := by
  induction hrun with
  | start => exact ⟨haddr, nofun, nofun, fun _ _ _ => rfl⟩
  | step _ huses hstep hfault ih =>
    rw [truthAfter, PendingWrite.contentAfter_append]
    exact ih.step huses hstep hfault

/-- The step takes the lock if it succeeds. -/
def Acquires (fleet : Fleet) : Act → Prop
  | .openStore _ => True
  | .perform n action => action.acquires = true ∧
      ∃ m, fleet.members[n]? = some m ∧ m.store.isLocked = false
  | .become _ => False

/-- How the steps of a fleet have to go that started from a disk. -/
structure Lawful (used : Path → Prop) (dir : Path) (d : Disk) (history : List PendingWrite)
    (fleet : Fleet) (act : Act) (result : Except StoreError Response) (fleet' : Fleet) : Prop where
  /-- A cache whose store does not hold the lock refuses, and nothing happens. -/
  unlocked : ∀ {n action m}, act = .perform n action → action.onCache = true →
    fleet.members[n]? = some m → m.store.isLocked = false →
      result = .error .lockNotHeld ∧ fleet' = fleet
  /-- Whoever wants the lock while another store holds it waits in vain, and nobody sees that. -/
  refused : ∀ {m}, m ∈ fleet.members → m.store.isLocked = true → fleet.Acquires act →
    ∃ timeout, result = .error (.lock (.timeout timeout)) ∧ fleet'.members = fleet.members ∧
      ∀ p, used p → CacheFile.kept p fleet'.disk = CacheFile.kept p fleet.disk
  /-- A key that is found has the last change that was made to it. -/
  found : ∀ {n c key m v}, act = .perform n (.get c key) → fleet.members[n]? = some m →
    result = .ok (.value v) → ∃ p, m.store.pathOf c = some p ∧ v = lastValue d history p key

theorem Sound.kept_tried (h : fleet.Sound used dir truth) (htried : Tried dir fleet.disk d')
    (hp : used p) : CacheFile.kept p d' = CacheFile.kept p fleet.disk :=
  h.addressing.kept_eq htried.ext hp (h.addressing.notLock p hp)

theorem Sound.refused {act : Act} {result : Except StoreError Response}
    (h : fleet.Sound used dir truth) (hm : m ∈ fleet.members) (hlocked : m.store.isLocked = true)
    (hacquires : fleet.Acquires act) (hstep : fleet.step dir act = some (result, fleet'))
    (hfault : ∀ e, result = .error e → ¬ e.IsFault) :
    ∃ timeout, result = .error (.lock (.timeout timeout)) ∧ fleet'.members = fleet.members ∧
      ∀ p, used p → CacheFile.kept p fleet'.disk = CacheFile.kept p fleet.disk := by
  have hheld := h.held hm hlocked
  cases act with
  | become processId => exact hacquires.elim
  | openStore timeout =>
    obtain ⟨e, d', hopen⟩ := FileStore.openStore_of_held h.addressing hheld timeout
    obtain ⟨d₁, hdirs, htried, he⟩ := FileStore.openStore_error hopen h.addressing
    unfold Fleet.step at hstep
    simp only [hopen] at hstep
    cases hstep
    rcases he with he | rfl
    · exact absurd he (hfault e rfl)
    · refine ⟨timeout, rfl, rfl, fun p hp => ?_⟩
      exact ((h.tried hdirs).kept_tried htried hp).trans (h.kept_tried hdirs hp)
  | perform n action =>
    obtain ⟨hacquires, x, hx, hunlocked⟩ := hacquires
    obtain ⟨x', hx', hopen, rfl, rfl⟩ := step_perform hstep
    cases hx.symm.trans hx'
    have hcache : action.onCache = false := by
      cases action <;> first | rfl | cases hacquires
    have hopen := hopen.resolve_right (by simp [hcache])
    have hsound := h.members x (List.mem_of_getElem? hx)
    obtain ⟨e, d', he⟩ := FileStore.ensureLocked_of_held (hsound.opened hopen) hunlocked
      (hsound.baseDir ▸ hheld)
    obtain ⟨-, htried, hkind⟩ := FileStore.tried_of_ensureLocked (hsound.opened hopen) he
    have hperform : action.perform (x.store, fleet.disk) = .error e (x.store, d') ∧
        action.closes = false := by
      cases action with
      | enter | reacquire =>
        refine ⟨?_, rfl⟩
        show EStateM.map _ FileStore.ensureLocked (x.store, fleet.disk) = _
        unfold EStateM.map
        rw [he]
      | _ => cases hacquires
    rw [hperform.1] at hfault ⊢
    rcases hkind with hkind | rfl
    · exact absurd hkind (hfault e rfl)
    · refine ⟨_, rfl, ?_, fun p hp => h.kept_tried (hsound.baseDir ▸ htried) hp⟩
      obtain ⟨hlt, rfl⟩ := List.getElem?_eq_some_iff.mp hx
      show fleet.members.set n { store := fleet.members[n].store, isOpen := _ } = _
      rw [hperform.2, Bool.not_false, Bool.and_true]
      exact List.set_getElem_self hlt

theorem Sound.found {result : Except StoreError Response} {c : CacheId} {key : String}
    {v : Option Bytes} (h : fleet.Sound used dir (truthAfter d history))
    (hn : fleet.members[n]? = some m)
    (hstep : fleet.step dir (.perform n (.get c key)) = some (result, fleet'))
    (hv : result = .ok (.value v)) :
    ∃ p, m.store.pathOf c = some p ∧ v = lastValue d history p key := by
  obtain ⟨m', hn', -, rfl, -⟩ := step_perform hstep
  cases hn.symm.trans hn'
  have hmem := List.mem_of_getElem? hn
  have hm := h.members m hmem
  cases hlocked : m.store.isLocked with
  | false =>
    rw [FileStore.perform_of_unlocked (h.lockHeld_of_unlocked hmem hlocked) rfl] at hv
    cases hv
  | true =>
    have hsound := hm.opened (hm.isOpen hlocked)
    rw [Action.perform, FileStore.outcome_map] at hv
    rcases FileStore.lookup_spec hsound c key with ⟨e, he⟩ | ⟨p, entries, s', hc, hcontent, hok, -⟩
    · rw [he] at hv
      cases hv
    · rw [hok] at hv
      cases hv
      obtain ⟨f, hf, rfl⟩ := Option.map_eq_some_iff.mp hc
      have hused := (hsound.files f (List.mem_of_getElem? hf)).used
      rw [hm.content hlocked f.path hused] at hcontent
      refine ⟨f.path, hc, ?_⟩
      exact PendingRead.get?_contentAfter { token := ⟨0⟩, cache := FileStore.byPath f.path, key }
        CacheFile.ordered_of_kept hcontent

/-- No change is lost between stores that share a directory: at most one of them holds the lock, and
every step goes by what was changed before it, whoever did it. -/
theorem Run.lawful (haddr : Addressing used dir d)
    (hrun : Run used dir { members := [], disk := d } history fleet) :
    (∀ {i j : Nat} {a b : Member}, fleet.members[i]? = some a → fleet.members[j]? = some b →
      a.store.isLocked = true → b.store.isLocked = true → i = j) ∧
    ∀ {act result fleet'}, act.Uses used → fleet.step dir act = some (result, fleet') →
      (∀ e, result = .error e → ¬ e.IsFault) →
        Lawful used dir d history fleet act result fleet' := by
  have hsound := hrun.sound haddr
  refine ⟨hsound.alone, fun {act result fleet'} huses hstep hfault => ⟨?_, ?_, ?_⟩⟩
  · rintro n action m rfl hcache hn hunlocked
    obtain ⟨m', hn', -, rfl, rfl⟩ := step_perform hstep
    cases hn.symm.trans hn'
    have hheld := hsound.lockHeld_of_unlocked (List.mem_of_getElem? hn) hunlocked
    rw [after_of_unlocked hn hheld hcache, FileStore.perform_of_unlocked hheld hcache]
    exact ⟨rfl, rfl⟩
  · intro m hm hlocked hacquires
    exact hsound.refused hm hlocked hacquires hstep hfault
  · rintro n c key m v rfl hn hv
    exact hsound.found hn hstep hv

/-- A store gives the lock up, another is opened, and finds what the first one has put. -/
theorem Run.lawful_of_release :
    let file := cachePath ⟨"store"⟩ "tasks"
    let d : Disk := .empty ["home"] 1
    let acts : List Act := [.openStore .zero, .perform 0 (.openCache file),
      .perform 0 (.edit 0 "1" (.put [97])), .perform 0 .release, .openStore .zero,
      .perform 1 (.openCache file)]
    ∃ history fleet fleet', Fleet.replay ⟨"store"⟩ acts { members := [], disk := d } =
        some (history, fleet) ∧
      fleet.step ⟨"store"⟩ (.perform 1 (.get 0 "1")) = some (.ok (.value (some [97])), fleet') ∧
      Lawful (· = file) ⟨"store"⟩ d history fleet (.perform 1 (.get 0 "1"))
        (.ok (.value (some [97]))) fleet' := by
  intro file d acts
  have hget : ((Fleet.replay ⟨"store"⟩ acts { members := [], disk := d }).bind fun (_, fleet) =>
      (fleet.step ⟨"store"⟩ (.perform 1 (.get 0 "1"))).map (·.1)) =
        some (.ok (.value (some [97]))) := by decide +kernel
  obtain ⟨⟨history, fleet⟩, hreplay, hget⟩ := Option.bind_eq_some_iff.mp hget
  obtain ⟨⟨result, fleet'⟩, hstep, rfl⟩ := Option.map_eq_some_iff.mp hget
  have haddr : Addressing (· = file) ⟨"store"⟩ d := by
    have hfiles : FileStore.DistinctFiles ⟨"store"⟩ (· = "tasks") d :=
      ⟨Disk.wellFormed_empty .., fun n hn => Disk.shows_of_no_up (Disk.wellFormed_empty ..) (hn ▸ by decide),
        fun m n hm hn _ => hm.trans hn.symm⟩
    have hused : FileStore.usedBy ⟨"store"⟩ (· = "tasks") = (· = file) := by
      funext p
      exact propext ⟨fun ⟨_, hn, hp⟩ => hp.trans (by rw [hn]), fun hp => ⟨"tasks", rfl, hp⟩⟩
    exact hused ▸ hfiles.addressing
  have huses : ∀ act ∈ acts, act.Uses (· = file) := by
    intro act hact
    simp only [acts, List.mem_cons, List.not_mem_nil, or_false] at hact
    rcases hact with rfl | rfl | rfl | rfl | rfl | rfl <;> first | exact trivial | rfl
  have hstart : Run (· = file) ⟨"store"⟩ { members := [], disk := d } []
    { members := [], disk := d } := .start
  have hrun := hstart.replay huses hreplay
  exact ⟨history, fleet, fleet', hreplay, hstep,
    (hrun.lawful haddr).2 trivial hstep nofun⟩

/-- A file that is there is not found through a missing directory. What was removed there is back once the
directory is made for another cache and the files are read again. -/
theorem Run.removed_found :
    ¬ ∀ (used : Path → Prop) (dir : Path) (d : Disk) (history : List PendingWrite) (fleet fleet' : Fleet)
        (act : Act) (reply : Response), d.WellFormed →
      (∀ p q, used p → used q → p.location d.home = q.location d.home → p = q) →
      (∀ p, used p → p.location d.home ≠ DirectoryLock.locationOf d.home dir) →
      (∀ p q, used p → used q → ∀ processId,
        p.location d.home ≠ (CacheFile.temporary q processId).location d.home) →
      Run used dir { members := [], disk := d } history fleet → act.Uses used →
      fleet.step dir act = some (.ok reply, fleet') →
        Lawful used dir d history fleet act (.ok reply) fleet' := by
  intro hclaim
  let a := cachePath ⟨"store"⟩ "x/../a"
  let b := cachePath ⟨"store"⟩ "x/b"
  let used := FileStore.usedBy ⟨"store"⟩ FileStore.astray
  let acts : List Act := [.openStore .zero, .perform 0 (.openCache a),
    .perform 0 (.edit 0 "k" .remove), .perform 0 (.openCache b),
    .perform 0 (.edit 1 "k" (.put [97])), .perform 0 .release, .perform 0 .reacquire]
  have hseen : ((Fleet.replay ⟨"store"⟩ acts { members := [], disk := FileStore.stocked }).bind
      fun (history, fleet) => (fleet.step ⟨"store"⟩ (.perform 0 (.get 0 "k"))).map fun (result, _) =>
        (result, (fleet.members[0]?.bind (·.store.pathOf 0)).map
          (lastValue FileStore.stocked history · "k"))) =
      some (.ok (.value (some [118])), some none) := by decide +kernel
  obtain ⟨⟨history, fleet⟩, hreplay, hseen⟩ := Option.bind_eq_some_iff.mp hseen
  obtain ⟨⟨result, fleet'⟩, hstep, hseen⟩ := Option.map_eq_some_iff.mp hseen
  obtain ⟨rfl, hlast⟩ := Prod.mk.inj hseen
  have huses : ∀ act ∈ acts, act.Uses used := by
    intro act hact
    simp only [acts, List.mem_cons, List.not_mem_nil, or_false] at hact
    rcases hact with rfl | rfl | rfl | rfl | rfl | rfl | rfl
    exacts [trivial, ⟨_, .inl rfl, rfl⟩, trivial, ⟨_, .inr rfl, rfl⟩, trivial, trivial, trivial]
  have hrun := (Run.start : Run used ⟨"store"⟩ _ [] _).replay huses hreplay
  have hapart : ∀ p q, used p → used q →
      p.location FileStore.stocked.home = q.location FileStore.stocked.home → p = q := by
    rintro p q ⟨m, hm, rfl⟩ ⟨n, hn, rfl⟩ he
    rw [FileStore.distinct_astray m n hm hn he]
  have hnotLock : ∀ p, used p → p.location FileStore.stocked.home ≠
      DirectoryLock.locationOf FileStore.stocked.home ⟨"store"⟩ := by
    rintro p ⟨m, -, rfl⟩
    exact FileStore.cachePath_ne_lock ⟨"store"⟩ m _
  have hnotTemporary : ∀ p q, used p → used q → ∀ processId, p.location FileStore.stocked.home ≠
      (CacheFile.temporary q processId).location FileStore.stocked.home := by
    rintro p q ⟨m, -, rfl⟩ - processId
    exact FileStore.cachePath_ne_temporary ⟨"store"⟩ m q processId _
  have hlawful := hclaim used ⟨"store"⟩ FileStore.stocked _ fleet fleet' (.perform 0 (.get 0 "k")) _
    FileStore.wellFormed_stocked hapart hnotLock hnotTemporary hrun trivial hstep
  obtain ⟨p, hp, hlast⟩ := Option.map_eq_some_iff.mp hlast
  obtain ⟨m, hm, hpath⟩ := Option.bind_eq_some_iff.mp hp
  obtain ⟨p', hpath', hvalue⟩ := hlawful.found rfl hm rfl
  cases hpath.symm.trans hpath'
  cases hvalue.trans hlast

end Fleet

end HistoryKeeper
