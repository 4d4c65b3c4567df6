import HistoryKeeper.Proofs.Keeper.InOrder
import HistoryKeeper.Proofs.Store.FileView
import HistoryKeeper.Proofs.Store.Locking

/-!
# What stores are asked

An `Action` is a call on a store or on one of its caches. `FileStore.performed` says what a call does to
the contents of the caches, `FileStore.waits` what it does while another store holds the lock.
-/

namespace HistoryKeeper

/-- How a computation went. -/
def outcome {ε σ α : Type} (result : EStateM.Result ε σ α) : Except ε α :=
  match result with
  | .ok a _ => .ok a
  | .error e _ => .error e

namespace FileStore

/-- A call on a store or on one of its caches. -/
inductive Action where
  | openCache (file : Path)
  | get (c : CacheId) (key : String)
  | edit (c : CacheId) (key : String) (change : Change)
  | enter
  | leave
  | release
  | reacquire
  | close

inductive Response where
  | done
  | value (v : Option Bytes)
  deriving DecidableEq

namespace Action

def perform : Action → Call Response
  | openCache file => (fun _ => .done) <$> FileStore.openCache file
  | get c key => .value <$> lookup c key
  | edit c key change => (fun _ => .done) <$> change.call c key
  | enter => (fun _ => .done) <$> ensureLocked
  | leave => (fun _ => .done) <$> FileStore.leave
  | release => (fun _ => .done) <$> FileStore.release
  | reacquire => (fun _ => .done) <$> ensureLocked
  | close => (fun _ => .done) <$> FileStore.close

/-- A cache can be asked also when its store is closed. -/
def onCache : Action → Bool
  | get _ _ | edit _ _ _ => true
  | _ => false

/-- The call takes the lock if the store does not hold it. -/
def acquires : Action → Bool
  | enter | reacquire => true
  | _ => false

def closes : Action → Bool
  | close => true
  | _ => false

def Uses (used : Path → Prop) : Action → Prop
  | openCache file => used file
  | _ => True

end Action

/-- The file of a cache. -/
def pathOf (s : FileStore) (c : CacheId) : Option Path :=
  s.caches[c]?.map (·.path)

/-- A cache that goes by the path of its file. -/
def byPath (p : Path) : CacheIdentity :=
  { name := p.text, keyType := "", valueType := "" }

/-- The change that was made to a cache. -/
def Action.written (action : Action) (s : FileStore) (outcome : Except StoreError Response) :
    List PendingWrite :=
  match action, outcome with
  | edit c key change, .ok _ =>
    ((s.pathOf c).map fun p => { cache := byPath p, key, change }).toList
  | _, _ => []

variable {used : Path → Prop} {p : Path} {d d' : Disk} {s s' : FileStore} {action : Action}
  {ws : List PendingWrite}

theorem endState_map {α β : Type} (f : α → β) (call : Call α) (st : FileStore × Disk) :
    endState ((f <$> call) st) = endState (call st) := by
  show endState (EStateM.map f call st) = _
  unfold EStateM.map
  cases call st <;> rfl

theorem outcome_map {α β : Type} (f : α → β) (call : Call α) (st : FileStore × Disk) :
    outcome ((f <$> call) st) = (outcome (call st)).map f := by
  show outcome (EStateM.map f call st) = _
  unfold EStateM.map
  cases call st <;> rfl

/-- A store after an action, with what it wrote. -/
structure Performed (used : Path → Prop) (st st' : FileStore × Disk) (ws : List PendingWrite) :
    Prop where
  sound : Sound used st'
  holds : HoldsLock st'
  baseDir : st'.1.baseDir = st.1.baseDir
  content : ∀ p, used p → content st' p =
    PendingWrite.contentAfter (fun text => FileStore.content st ⟨text⟩) ws p.text

theorem Same.performed {st st' : FileStore × Disk} (h : Same used st st') (hholds : HoldsLock st') :
    Performed used st st' [] :=
  ⟨h.sound, hholds, h.baseDir, h.content⟩

theorem Changed.performed {st st' : FileStore × Disk} {key : String} {change : Change}
    (h : Changed used p (change.applyTo key) st st') (hholds : HoldsLock st') :
    Performed used st st' [{ cache := byPath p, key, change }] := by
  refine ⟨h.sound, hholds, h.baseDir, fun q hq => (h.content q hq).trans ?_⟩
  show _ = if p.text = q.text then (FileStore.content st ⟨q.text⟩).map (change.applyTo key)
    else FileStore.content st ⟨q.text⟩
  by_cases hqp : q = p
  · rw [if_pos hqp, if_pos (by rw [hqp]), hqp]
  · rw [if_neg hqp, if_neg]
    intro htext
    exact hqp (congrArg Path.mk htext.symm)

theorem inMemory_call (c : CacheId) (key : String) (change : Change) :
    Leads InMemory (change.call c key : Call Unit) := by
  cases change with
  | put value =>
    show Leads InMemory (put c key value)
    exact inMemory_access c _
  | remove =>
    show Leads InMemory (remove c key)
    exact inMemory_access c _

theorem call_spec (h : Sound used (s, d)) (c : CacheId) (key : String) (change : Change) :
    (∃ e, change.call c key (s, d) = .error e (s, d)) ∨
    ∃ p s', HasCache s c p ∧ change.call c key (s, d) = .ok () (s', d) ∧
      Changed used p (change.applyTo key) (s, d) (s', d) := by
  cases change with
  | put value => exact put_spec h c key value
  | remove => exact remove_spec h c key

theorem performed (h : Sound used (s, d)) (hholds : HoldsLock (s, d)) (huses : action.Uses used)
    (hcloses : action.closes = false) : Performed used (s, d) (endState (action.perform (s, d)))
      (action.written s (outcome (action.perform (s, d)))) := by
  cases action with
  | openCache file =>
    obtain ⟨c, s', hopen, hsame, -⟩ := openCache_spec h huses
    have hmemory := inMemory_openCache file (s, d)
    rw [Action.perform, endState_map]
    rw [hopen, endState_ok] at hmemory ⊢
    exact hsame.performed (hholds.inMemory hmemory)
  | get c key =>
    have hmemory : InMemory (s, d) (endState (lookup c key (s, d))) := inMemory_access c _ (s, d)
    rw [Action.perform, endState_map]
    refine Same.performed ?_ (hholds.inMemory hmemory)
    rcases lookup_spec h c key with ⟨e, he⟩ | ⟨p, entries, s', -, -, hok, hsame⟩
    · rw [he]
      exact Same.refl h
    · rw [hok]
      exact hsame
  | edit c key change =>
    have hmemory := hholds.inMemory (inMemory_call c key change (s, d))
    rw [Action.perform, endState_map, outcome_map]
    rcases call_spec h c key change with ⟨e, he⟩ | ⟨p, s', hc, hok, hchanged⟩
    · rw [he] at hmemory ⊢
      exact (Same.refl h).performed hmemory
    · rw [hok] at hmemory ⊢
      have hwritten : (Action.edit c key change).written s (outcome (.ok () (s', d) :
          EStateM.Result StoreError (FileStore × Disk) Unit) |>.map fun _ => .done) =
            [{ cache := byPath p, key, change }] := by
        show ((s.pathOf c).map _).toList = _
        rw [show s.pathOf c = some p from hc]
        rfl
      rw [hwritten]
      exact hchanged.performed hmemory
  | enter =>
    rw [Action.perform, endState_map]
    exact (leads_ensureLocked used (s, d) h).performed (hholds.ensureLocked h)
  | leave =>
    rw [Action.perform, endState_map]
    exact (leads_leave used (s, d) h).performed (hholds.leave h)
  | release =>
    rw [Action.perform, endState_map]
    exact (leads_release used (s, d) h).performed (hholds.release h)
  | reacquire =>
    rw [Action.perform, endState_map]
    exact (leads_ensureLocked used (s, d) h).performed (hholds.ensureLocked h)
  | close => cases hcloses

/-! ### Stores without the lock -/

theorem perform_of_unlocked (hunlocked : s.lockHeld = false) (hcache : action.onCache = true)
    (d : Disk) : action.perform (s, d) = .error .lockNotHeld (s, d) := by
  have haccess : ∀ {α : Type} (c : CacheId) (f : CacheFile → Entries → α × CacheFile),
      access c f (s, d) = .error .lockNotHeld (s, d) := fun c f =>
    access_of_unlocked hunlocked c f d
  cases action with
  | get c key =>
    show EStateM.map _ (lookup c key) (s, d) = _
    unfold EStateM.map lookup
    rw [haccess]
  | edit c key change =>
    show EStateM.map _ (change.call c key : Call Unit) (s, d) = _
    have hcall : (change.call c key : Call Unit) (s, d) = .error .lockNotHeld (s, d) := by
      cases change with
      | put value =>
        show put c key value (s, d) = _
        exact haccess c _
      | remove =>
        show remove c key (s, d) = _
        exact haccess c _
    unfold EStateM.map
    rw [hcall]
  | _ => cases hcache

/-- While another holds the lock. -/
structure Waits (used : Path → Prop) (st st' : FileStore × Disk) : Prop where
  sound : Sound used st'
  unlocked : st'.1.isLocked = false
  baseDir : st'.1.baseDir = st.1.baseDir
  tried : DirectoryLock.Tried st.1.baseDir st.2 st'.2

theorem waits (h : Sound used (s, d)) (hunlocked : s.isLocked = false)
    (hheld : DirectoryLock.Held s.baseDir d) (huses : action.Uses used) (hcloses : action.closes = false) :
    Waits used (s, d) (endState (action.perform (s, d))) ∧
      action.written s (outcome (action.perform (s, d))) = [] := by
  have hidle : Waits used (s, d) (s, d) :=
    ⟨h, hunlocked, rfl, .refl h.addressing.wellFormed _⟩
  have hensure : Waits used (s, d) (endState (ensureLocked (s, d))) := by
    obtain ⟨e, d', he⟩ := ensureLocked_of_held h hunlocked hheld
    obtain ⟨-, htried, -⟩ := tried_of_ensureLocked h he
    have hsame := leads_ensureLocked used (s, d) h
    rw [he, endState_error] at hsame ⊢
    exact ⟨hsame.sound, hunlocked, rfl, htried⟩
  by_cases hcache : action.onCache = true
  · rw [perform_of_unlocked (h.held.trans hunlocked) hcache]
    refine ⟨hidle, ?_⟩
    cases action <;> rfl
  · refine ⟨?_, ?_⟩
    · cases action with
      | openCache file =>
        obtain ⟨c, s', hopen, hsame, -⟩ := openCache_spec h huses
        have hmemory := inMemory_openCache file (s, d)
        rw [Action.perform, endState_map]
        rw [hopen, endState_ok] at hmemory ⊢
        refine ⟨hsame.sound, ?_, hsame.baseDir, .refl h.addressing.wellFormed _⟩
        rw [isLocked, hmemory.lock]
        exact hunlocked
      | enter =>
        rw [Action.perform, endState_map]
        exact hensure
      | leave =>
        rw [Action.perform, endState_map, leave_of_unlocked hunlocked]
        exact hidle
      | release =>
        have hsame := leads_release used (s, d) h
        rw [Action.perform, endState_map]
        rw [release_of_unlocked h hunlocked] at hsame ⊢
        exact ⟨hsame.sound, rfl, rfl, .refl h.addressing.wellFormed _⟩
      | reacquire =>
        rw [Action.perform, endState_map]
        exact hensure
      | close => cases hcloses
      | _ => exact absurd rfl hcache
    · cases action with
      | get c key => rfl
      | edit c key change => exact absurd rfl hcache
      | _ => rfl

end FileStore

end HistoryKeeper
