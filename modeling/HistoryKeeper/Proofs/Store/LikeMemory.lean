import Mathlib.Data.List.Nodup
import HistoryKeeper.Proofs.Store.Alone
import HistoryKeeper.Proofs.Store.MemoryStore
import HistoryKeeper.Proofs.Store.Script

/-!
# A store on disk is like one in memory

One kind of store keeps a table for each cache. The other writes its caches to files, forgets them and
reads them again. A `Script` cannot tell which of them it works with, if nobody else uses the directory
and the operating system does what it is asked to (`Script.like_memory`).

`Alike` relates the two while the script runs: the caches have the same numbers, the path that the store on
disk goes by has the entries of the table, and both hold their lock or neither does. When they are closed it
is enough that both refuse (`Refusing`).
-/

namespace HistoryKeeper

open FileStore (Alone Proper Response Tracked Undisturbed Unused content)
open MemoryStore (tableOf)

namespace MemoryStore

variable {s : MemoryStore} {w : Probe} {c : CacheId} {key : String}

theorem begin_of_locked (hlocked : s.locked = true) (hfail : w.failOnKey = none) (key : String) :
    begin key (s, w) = .ok () (s, { w with touched := true }) := by
  obtain ⟨locked, caches⟩ := s
  cases hlocked
  show (if w.failOnKey = some key then _ else pure () : Call Unit) _ = _
  rw [if_neg (by rw [hfail]; nofun)]
  rfl

theorem enter_eq (s : MemoryStore) (w : Probe) :
    ∃ w', enter (s, w) = .ok () ({ s with locked := true }, w') ∧ w'.failOnKey = w.failOnKey := by
  obtain ⟨locked, caches⟩ := s
  cases locked <;> exact ⟨_, rfl, rfl⟩

theorem release_eq (s : MemoryStore) (w : Probe) :
    ∃ w', release (s, w) = .ok () ({ s with locked := false }, w') ∧ w'.failOnKey = w.failOnKey :=
  ⟨_, rfl, rfl⟩

theorem openCache_told (file : Path) (s : MemoryStore) (w : Probe) :
    ∃ w', w'.failOnKey = w.failOnKey ∧ openCache file (s, w) =
      match s.caches.findIdx? (·.1.same file) with
      | some c => .ok c (s, w')
      | none => .ok s.caches.length ({ s with caches := s.caches ++ [(file, [])] }, w') :=
  ⟨{ w with touched := true, cachesCreated := w.cachesCreated + 1 }, rfl, openCache_eq file s w⟩

theorem close_eq (s : MemoryStore) (w : Probe) :
    ∃ w', close (s, w) = .ok () ({ s with locked := false }, w') :=
  ⟨_, rfl⟩

theorem lookup_of_locked (hlocked : s.locked = true) (hfail : w.failOnKey = none) (c : CacheId)
    (key : String) :
    lookup c key (s, w) = .ok ((s.entries c).get? key) (s, { w with touched := true }) := by
  show EStateM.bind (begin key) _ (s, w) = _
  unfold EStateM.bind
  rw [begin_of_locked hlocked hfail]
  rfl

theorem call_eq_bind (change : Change) (c : CacheId) (key : String) (st : MemoryStore × Probe) :
    change.call c key st =
      EStateM.bind (begin key) (fun _ => update c (change.applyTo key)) st := by
  cases change <;> rfl

theorem call_of_locked (hlocked : s.locked = true) (hfail : w.failOnKey = none) (change : Change)
    (c : CacheId) (key : String) : change.call c key (s, w) = .ok ()
      ({ s with caches := s.caches.modify c fun (file, t) => (file, change.applyTo key t) },
        { w with touched := true }) := by
  rw [call_eq_bind]
  unfold EStateM.bind
  rw [begin_of_locked hlocked hfail]
  rfl

end MemoryStore

abbrev DiskUse := InUse FileStore Disk

abbrev MemoryUse := InUse MemoryStore Probe

/-- The results are the same, unless one of those on disk is a fault. -/
def Agree (R : DiskUse → MemoryUse → Prop) (x : List CallResult × DiskUse) (y : List CallResult × MemoryUse) : Prop :=
  (∃ e, .error e ∈ x.1 ∧ e.IsFault) ∨ (y.1 = x.1 ∧ R x.2 y.2)

variable {R : DiskUse → MemoryUse → Prop} {u : DiskUse} {v : MemoryUse}

/-- What a call comes to on disk it comes to in memory, unless it is a fault. -/
def Matches {α : Type} (R : DiskUse → MemoryUse → Prop) (u : DiskUse) (v : MemoryUse)
    (x : EStateM.Result StoreError (FileStore × Disk) α)
    (y : EStateM.Result StoreError (MemoryStore × Probe) α) : Prop :=
  UnlessFault (fun a st => ∃ st', y = .ok a st' ∧
    R { u with state := st } { v with state := st' }) x

theorem Matches.map {α β : Type} {f : α → β} {c : StoreCall FileStore Disk α}
    {c' : StoreCall MemoryStore Probe α} (h : Matches R u v (c u.state) (c' v.state)) :
    Matches R u v ((f <$> c) u.state) ((f <$> c') v.state) := by
  show Matches R u v (EStateM.map f c u.state) (EStateM.map f c' v.state)
  unfold EStateM.map
  cases hr : c u.state with
  | error e st =>
    rw [hr] at h
    exact h
  | ok a st =>
    rw [hr] at h
    obtain ⟨st', hr', hR⟩ := h
    rw [hr']
    exact ⟨st', rfl, hR⟩

theorem Matches.call {c : StoreCall FileStore Disk Response} {c' : StoreCall MemoryStore Probe Response}
    (h : Matches R u v (c u.state) (c' v.state)) : Agree R (Course.call c u) (Course.call c' v) := by
  unfold Course.call
  cases hr : c u.state with
  | error e st =>
    rw [hr] at h
    exact .inl ⟨e, List.mem_singleton_self _, h⟩
  | ok a st =>
    rw [hr] at h
    obtain ⟨st', hr', hR⟩ := h
    rw [hr']
    exact .inr ⟨rfl, hR⟩

def Simulates (R R' : DiskUse → MemoryUse → Prop) (x : Course FileStore Disk)
    (y : Course MemoryStore Probe) : Prop :=
  ∀ u v, R u v → Agree R' (x u) (y v)

namespace Simulates

variable {R R' R'' : DiskUse → MemoryUse → Prop} {x x' : Course FileStore Disk}
  {y y' : Course MemoryStore Probe}

theorem skip : Simulates R R .skip .skip :=
  fun _ _ h => .inr ⟨rfl, h⟩

theorem andThen (h : Simulates R R' x y) (h' : Simulates R' R'' x' y') :
    Simulates R R'' (x.andThen x') (y.andThen y') := by
  intro u v hR
  rcases h u v hR with ⟨e, he, hfault⟩ | ⟨hresults, hR'⟩
  · exact .inl ⟨e, List.mem_append_left _ he, hfault⟩
  · rcases h' _ _ hR' with ⟨e, he, hfault⟩ | ⟨hmore, hR''⟩
    · exact .inl ⟨e, List.mem_append_right _ he, hfault⟩
    · exact .inr ⟨congrArg₂ (· ++ ·) hresults hmore, hR''⟩

theorem around {before after : StoreCall FileStore Disk Unit}
    {before' after' : StoreCall MemoryStore Probe Unit}
    (hbefore : ∀ u v, R u v → Matches R u v (before u.state) (before' v.state))
    (hwork : Simulates R R x y)
    (hafter : ∀ u v, R u v → Matches R u v (after u.state) (after' v.state)) :
    Simulates R R (.around before x after) (.around before' y after') := by
  intro u v hR
  have hmatches := hbefore u v hR
  unfold Course.around
  cases hr : before u.state with
  | error e st =>
    rw [hr] at hmatches
    exact .inl ⟨e, List.mem_singleton_self _, hmatches⟩
  | ok a st =>
    rw [hr] at hmatches
    obtain ⟨st', hr', hR'⟩ := hmatches
    simp only [hr']
    exact hwork.andThen (fun u v hR => (hafter u v hR).map.call) _ _ hR'

theorem uses (h : ∀ c, Simulates R R (.use c) (.use c)) (calls : List CacheCall) :
    Simulates R R (.uses calls) (.uses calls) := by
  induction calls with
  | nil => exact skip
  | cons c calls ih => exact (h c).andThen ih

end Simulates

/-! ### Stores that are alike -/

theorem findIdx?_congr {α : Type} {p q : α → Bool} {l : List α} (h : ∀ a ∈ l, p a = q a) :
    l.findIdx? p = l.findIdx? q := by
  induction l with
  | nil => rfl
  | cons a l ih =>
    rw [List.findIdx?_cons, List.findIdx?_cons, h a (List.mem_cons_self ..),
      ih fun b hb => h b (List.mem_cons_of_mem _ hb)]

section

variable {place : Path → Path} {files : Path → Prop} {u : DiskUse} {v : MemoryUse}

/-- The store on disk has what the one in memory has, under the paths `place` gives to the files. -/
structure Alike (place : Path → Path) (files : Path → Prop) (u : DiskUse) (v : MemoryUse) : Prop where
  alone : ∃ id, Alone files id u.state
  caches : v.caches = u.caches
  valid : ∀ c ∈ u.caches, c < u.state.1.paths.length
  paths : v.state.1.caches.map (·.1) = u.state.1.paths.map place
  contents : ∀ p, files p → Tracked u.state.1 p →
    content u.state p = .ok (tableOf v.state.1.caches (place p).components)
  locked : v.state.1.locked = u.state.1.isLocked
  unfailing : v.state.2.failOnKey = none

theorem Alike.undisturbed (h : Alike place files u v) {id : FileId} {st : FileStore × Disk}
    {st' : MemoryStore × Probe} (hdisk : Undisturbed files id u.state st)
    (hcaches : st'.1.caches = v.state.1.caches) (hlocked : st'.1.locked = st.1.isLocked)
    (hfail : st'.2.failOnKey = v.state.2.failOnKey) :
    Alike place files { u with state := st } { v with state := st' } := by
  refine ⟨⟨id, hdisk.alone⟩, h.caches, ?_, ?_, fun p hp ht => ?_, hlocked, hfail.trans h.unfailing⟩
  · rw [hdisk.paths]
    exact h.valid
  · rw [hcaches, hdisk.paths]
    exact h.paths
  · have htracked : Tracked u.state.1 p := by
      unfold Tracked at ht ⊢
      rwa [← hdisk.paths]
    rw [hdisk.content p hp htracked, hcaches]
    exact h.contents p hp htracked

/-- A call that disturbs nothing on disk, beside one that changes no table in memory. -/
theorem Alike.matches (h : Alike place files u v) {id : FileId} {locked : Bool}
    {x : EStateM.Result StoreError (FileStore × Disk) Unit}
    {y : EStateM.Result StoreError (MemoryStore × Probe) Unit}
    (hx : UnlessFault (fun _ st => Undisturbed files id u.state st ∧ st.1.isLocked = locked) x)
    (hy : ∃ w, y = .ok () ({ v.state.1 with locked := locked }, w) ∧
      w.failOnKey = v.state.2.failOnKey) :
    Matches (Alike place files) u v x y := by
  obtain ⟨w, hy, hfail⟩ := hy
  exact hx.mono fun _ st ⟨hdisk, hlocked⟩ => ⟨_, hy, h.undisturbed hdisk rfl hlocked.symm hfail⟩

theorem Alike.enter (h : Alike place files u v) :
    Matches (Alike place files) u v (Store.enter u.state) (Store.enter v.state) := by
  obtain ⟨id, halone⟩ := h.alone
  exact h.matches halone.ensureLocked (MemoryStore.enter_eq _ _)

theorem Alike.leave (h : Alike place files u v) :
    Matches (Alike place files) u v (Store.leave u.state) (Store.leave v.state) := by
  obtain ⟨id, halone⟩ := h.alone
  refine h.matches halone.leave ⟨_, ?_, rfl⟩
  show EStateM.Result.ok () v.state = _
  rw [← h.locked]

theorem Alike.release (h : Alike place files u v) :
    Matches (Alike place files) u v (Store.release u.state) (Store.release v.state) := by
  obtain ⟨id, halone⟩ := h.alone
  exact h.matches halone.release (MemoryStore.release_eq _ _)

theorem Alike.reacquire (h : Alike place files u v) :
    Matches (Alike place files) u v (Store.reacquire u.state) (Store.reacquire v.state) := by
  obtain ⟨id, halone⟩ := h.alone
  exact h.matches halone.ensureLocked ⟨_, rfl, rfl⟩

theorem Alike.told {w : Probe} (h : Alike place files u v) (hfail : w.failOnKey = v.state.2.failOnKey) :
    Alike place files u { v with state := (v.state.1, w) } :=
  ⟨h.alone, h.caches, h.valid, h.paths, h.contents, h.locked, hfail.trans h.unfailing⟩

theorem Alike.ask {c : CacheId} (h : Alike place files u v) (hc : c < u.state.1.paths.length) :
    Alike place files { u with caches := u.caches ++ [c] } { v with caches := v.caches ++ [c] } := by
  refine ⟨h.alone, congrArg (· ++ [c]) h.caches, fun c' hc' => ?_, h.paths, h.contents, h.locked,
    h.unfailing⟩
  rcases List.mem_append.mp hc' with hc' | hc'
  · exact h.valid c' hc'
  · exact List.mem_singleton.mp hc' ▸ hc

/-- A store on disk that goes by one more path, and a table more in memory. -/
theorem Alike.extend {p : Path} {id : FileId} {s' : FileStore} {w : Probe}
    (h : Alike place files u v) (hnew : Tracked u.state.1 p)
    (halone : Alone files id (s', u.state.2)) (hpaths : s'.paths = u.state.1.paths ++ [p])
    (hlocked : s'.isLocked = u.state.1.isLocked)
    (hcontent : ∀ q, content (s', u.state.2) q = content u.state q)
    (hfail : w.failOnKey = v.state.2.failOnKey) :
    Alike place files { u with state := (s', u.state.2) }
      { v with state := ({ v.state.1 with caches := v.state.1.caches ++ [(place p, [])] }, w) } := by
  refine ⟨⟨id, halone⟩, h.caches, fun c hc => ?_, ?_, fun q hq ht => ?_, h.locked.trans hlocked.symm,
    hfail.trans h.unfailing⟩
  · rw [hpaths, List.length_append]
    exact Nat.lt_add_right _ (h.valid c hc)
  · have hmap : (v.state.1.caches ++ [(place p, ([] : Entries))]).map (·.1) =
        v.state.1.caches.map (·.1) ++ [place p] := List.map_append
    exact hmap.trans (by rw [hpaths, List.map_append, h.paths]; rfl)
  · have htracked : Tracked u.state.1 q := by
      unfold Tracked at ht
      rw [hpaths] at ht
      rcases ht with hmem | hother
      · rcases List.mem_append.mp hmem with hmem | hmem
        · exact Or.inl hmem
        · exact List.mem_singleton.mp hmem ▸ hnew
      · exact Or.inr fun r hr => hother r (List.mem_append_left _ hr)
    rw [hcontent]
    show _ = Except.ok (tableOf (v.state.1.caches ++ [(place p, [])]) _)
    rw [MemoryStore.tableOf_append_new]
    exact h.contents q hq htracked

section

variable (hplace : ∀ p q, files p → files q → (place p).same (place q) = p.same q)

include hplace

/-- Both stores know the file, as the same cache, or neither does. -/
theorem Alike.openCache {p : Path} (h : Alike place files u v) (hp : files p) :
    Agree (Alike place files) (Course.openCache p u) (Course.openCache (place p) v) := by
  obtain ⟨id, halone⟩ := h.alone
  have hdisk := halone.openCache hp
  obtain ⟨w, hfail, hmemory⟩ := MemoryStore.openCache_told (place p) v.state.1 v.state.2
  have hidx : v.state.1.caches.findIdx? (·.1.same (place p)) =
      u.state.1.paths.findIdx? (·.same p) := by
    have hmap : v.state.1.caches.findIdx? (·.1.same (place p)) =
        (v.state.1.caches.map (·.1)).findIdx? (·.same (place p)) := by
      rw [List.findIdx?_map]
      rfl
    rw [hmap, h.paths, List.findIdx?_map]
    exact findIdx?_congr fun q hq => hplace q p (halone.within q hq) hp
  have hlength : v.state.1.caches.length = u.state.1.paths.length := by
    have hpaths := congrArg List.length h.paths
    rwa [List.length_map, List.length_map] at hpaths
  rw [hidx, hlength] at hmemory
  cases hi : u.state.1.paths.findIdx? (·.same p) with
  | some c =>
    rw [hi] at hdisk hmemory
    rw [Course.openCache_ok hdisk, Course.openCache_ok hmemory]
    obtain ⟨hc, -⟩ := List.findIdx?_eq_some_iff_getElem.mp hi
    have halike := h.told hfail
    exact .inr ⟨rfl, halike.ask hc⟩
  | none =>
    rw [hi] at hdisk hmemory
    obtain ⟨s', hopen, halone', hpaths, hlocked, hcontent⟩ := hdisk
    rw [Course.openCache_ok hopen, Course.openCache_ok hmemory]
    have hnew : Tracked u.state.1 p := Or.inr fun q hq => by
      simpa using List.findIdx?_eq_none_iff.mp hi q hq
    have hlonger : u.state.1.paths.length < s'.paths.length := by
      rw [hpaths, List.length_append]
      exact Nat.lt_succ_self _
    have halike := h.extend hnew halone' hpaths hlocked hcontent hfail
    exact .inr ⟨rfl, halike.ask hlonger⟩

theorem Alike.place_eq_iff {p q : Path} (h : Alike place files u v) (hp : p ∈ u.state.1.paths)
    (hq : files q) (ht : Tracked u.state.1 q) :
    (place q).components = (place p).components ↔ q = p := by
  obtain ⟨id, halone⟩ := h.alone
  refine ⟨fun he => halone.eq_of_same hq ht hp ?_, fun he => by rw [he]⟩
  rw [← hplace q p hq (halone.within p hp)]
  exact decide_eq_true he

theorem Alike.distinct (h : Alike place files u v) : MemoryStore.Distinct v.state.1.caches := by
  obtain ⟨id, halone⟩ := h.alone
  have hcomponents : v.state.1.caches.map (·.1.components) =
      (v.state.1.caches.map (·.1)).map (·.components) := by
    rw [List.map_map]
    rfl
  unfold MemoryStore.Distinct
  rw [hcomponents, h.paths, List.map_map]
  refine List.Nodup.map_on (fun q hq p hp he => ?_) halone.sound.distinct
  exact (h.place_eq_iff hplace hp (halone.within q hq) (Or.inl hq)).mp he

theorem Alike.table {c : CacheId} (h : Alike place files u v) (hc : c ∈ u.caches) :
    ∃ p t, u.state.1.paths[c]? = some p ∧ v.state.1.caches[c]? = some (place p, t) ∧
      content u.state p = .ok t := by
  obtain ⟨id, halone⟩ := h.alone
  obtain ⟨p, hp⟩ : ∃ p, u.state.1.paths[c]? = some p :=
    ⟨_, List.getElem?_eq_getElem (h.valid c hc)⟩
  have hfile : (v.state.1.caches.map (·.1))[c]? = some (place p) := by
    rw [h.paths, List.getElem?_map, hp]
    rfl
  rw [List.getElem?_map] at hfile
  obtain ⟨⟨file, t⟩, ht, rfl⟩ := Option.map_eq_some_iff.mp hfile
  have hmem := List.mem_of_getElem? hp
  refine ⟨p, t, hp, ht, ?_⟩
  rw [h.contents p (halone.within p hmem) (Or.inl hmem),
    MemoryStore.tableOf_of_getElem? (h.distinct hplace) ht]

theorem Alike.get {c : CacheId} (h : Alike place files u v) (hlocked : u.state.1.isLocked = true)
    (hc : c ∈ u.caches) (key : String) :
    Matches (Alike place files) u v (Store.get c key u.state) (Store.get c key v.state) := by
  obtain ⟨id, halone⟩ := h.alone
  obtain ⟨p, t, hp, ht, hcontent⟩ := h.table hplace hc
  have hmemory := MemoryStore.lookup_of_locked (h.locked.trans hlocked) h.unfailing c key
  refine (halone.lookup hlocked hp hcontent key).mono fun value st hvalue => ?_
  obtain ⟨rfl, hdisk, hstill⟩ := hvalue
  refine ⟨(v.state.1, { v.state.2 with touched := true }), hmemory.trans ?_,
    h.undisturbed hdisk rfl ?_ rfl⟩
  · rw [MemoryStore.entries, ht]
    rfl
  · rw [hstill]
    exact h.locked.trans hlocked

theorem Alike.edit {c : CacheId} (h : Alike place files u v) (hlocked : u.state.1.isLocked = true)
    (hc : c ∈ u.caches) (key : String) (change : Change) :
    Matches (Alike place files) u v (change.call c key u.state) (change.call c key v.state) := by
  obtain ⟨id, halone⟩ := h.alone
  obtain ⟨p, t, hp, ht, hcontent⟩ := h.table hplace hc
  have hmemory :=
    MemoryStore.call_of_locked (h.locked.trans hlocked) h.unfailing change c key
  refine (halone.edit hlocked hp hcontent key change).mono fun _ st hst => ?_
  obtain ⟨halone', hpaths, hstill, hcontents⟩ := hst
  refine ⟨_, hmemory, ⟨id, halone'⟩, h.caches, ?_, ?_, fun q hq htracked => ?_, ?_, h.unfailing⟩
  · rw [hpaths]
    exact h.valid
  · show (v.state.1.caches.modify c fun (file, t) => (file, change.applyTo key t)).map (·.1) = _
    rw [MemoryStore.map_fst_modify, hpaths]
    exact h.paths
  · have htracked' : Tracked u.state.1 q := by
      unfold Tracked at htracked ⊢
      rwa [← hpaths]
    rw [hcontents q hq htracked']
    show _ = Except.ok (tableOf (v.state.1.caches.modify c fun (file, t) =>
      (file, change.applyTo key t)) _)
    rw [MemoryStore.tableOf_modify (h.distinct hplace) ht]
    by_cases hqp : q = p
    · rw [if_pos hqp, if_pos (by rw [hqp])]
    · have hne := (h.place_eq_iff hplace (List.mem_of_getElem? hp) hq htracked').not.mpr hqp
      rw [if_neg hqp, if_neg hne]
      exact h.contents q hq htracked'
  · show v.state.1.locked = st.1.isLocked
    rw [hstill]
    exact h.locked.trans hlocked

end

end

/-! ### Calls on caches -/

/-- Neither store lets its caches be used. -/
structure Refusing (u : DiskUse) (v : MemoryUse) : Prop where
  caches : v.caches = u.caches
  disk : u.state.1.lockHeld = false
  memory : v.state.1.locked = false

theorem FileStore.ask_of_unlocked {s : FileStore} (hunlocked : s.lockHeld = false) (d : Disk)
    (c : CacheCall) (id : CacheId) : c.ask id (s, d) = .error .lockNotHeld (s, d) := by
  cases c with
  | get n key =>
    have hcache : (Action.get id key).onCache = true := rfl
    exact perform_of_unlocked hunlocked hcache d
  | edit n key change =>
    have hcache : (Action.edit id key change).onCache = true := rfl
    exact perform_of_unlocked hunlocked hcache d

theorem MemoryStore.ask_of_unlocked {s : MemoryStore} (hunlocked : s.locked = false) (w : Probe)
    (c : CacheCall) (id : CacheId) :
    ∃ w', w'.failOnKey = w.failOnKey ∧ c.ask id (s, w) = .error .lockNotHeld (s, w') := by
  refine ⟨{ w with touched := true, unlockedAccesses := w.unlockedAccesses + 1 }, rfl, ?_⟩
  obtain ⟨locked, caches⟩ := s
  cases hunlocked
  cases c with
  | get n key => rfl
  | edit n key change => cases change <;> rfl

section

variable {place : Path → Path} {files : Path → Prop} {u : DiskUse} {v : MemoryUse}

/-- Without their lock both stores refuse, and only the probe is told. -/
theorem Refusing.use {R : DiskUse → MemoryUse → Prop} (h : Refusing u v)
    (hR : ∀ w, w.failOnKey = v.state.2.failOnKey → R u { v with state := (v.state.1, w) })
    (c : CacheCall) : Agree R (Course.use c u) (Course.use c v) := by
  unfold Course.use
  rw [h.caches]
  cases u.caches[c.cache]? with
  | none => exact .inr ⟨rfl, hR _ rfl⟩
  | some id =>
    obtain ⟨w, hw, hmemory⟩ := MemoryStore.ask_of_unlocked h.memory v.state.2 c id
    have hdisk := FileStore.ask_of_unlocked h.disk u.state.2 c id
    have hcall : Course.call (c.ask id) u = ([.error .lockNotHeld], u) := by
      rw [Course.call, hdisk]
    have hcall' : Course.call (c.ask id) v =
        ([.error .lockNotHeld], { v with state := (v.state.1, w) }) := by
      rw [Course.call, hmemory]
    show Agree R (Course.call (c.ask id) u) (Course.call (c.ask id) v)
    rw [hcall, hcall']
    exact .inr ⟨rfl, hR w hw⟩

theorem Refusing.simulates (c : CacheCall) : Simulates Refusing Refusing (.use c) (.use c) :=
  fun _ _ h => h.use (fun _ _ => ⟨h.caches, h.disk, h.memory⟩) c

/-- A store that is closed cleanly leaves caches that refuse. -/
theorem Alike.close (h : Alike place files u v) : Agree Refusing (Course.close u) (Course.close v) := by
  obtain ⟨id, halone⟩ := h.alone
  have hdisk := halone.close
  obtain ⟨w, hmemory⟩ := MemoryStore.close_eq v.state.1 v.state.2
  have hclose : Course.close v =
      ([.ok .done], { v with state := ({ v.state.1 with locked := false }, w) }) := by
    rw [Course.close, show Store.close v.state = _ from hmemory]
  rw [hclose, Course.close]
  cases hr : (Store.close : StoreCall FileStore Disk Unit) u.state with
  | error e st =>
    rw [show FileStore.close u.state = _ from hr] at hdisk
    exact .inl ⟨e, List.mem_singleton_self _, hdisk⟩
  | ok a st =>
    rw [show FileStore.close u.state = _ from hr] at hdisk
    exact .inr ⟨rfl, h.caches, hdisk, rfl⟩

variable (hplace : ∀ p q, files p → files q → (place p).same (place q) = p.same q)

include hplace

theorem Alike.use (h : Alike place files u v) (c : CacheCall) :
    Agree (Alike place files) (Course.use c u) (Course.use c v) := by
  obtain ⟨id, halone⟩ := h.alone
  cases hlocked : u.state.1.isLocked with
  | false =>
    have hrefusing : Refusing u v :=
      ⟨h.caches, halone.sound.held.trans hlocked, h.locked.trans hlocked⟩
    exact hrefusing.use (fun w hw => h.told hw) c
  | true =>
    unfold Course.use
    rw [h.caches]
    cases hc : u.caches[c.cache]? with
    | none => exact .inr ⟨rfl, h⟩
    | some id =>
      have hmem := List.mem_of_getElem? hc
      have hmatches : Matches (Alike place files) u v (c.ask id u.state) (c.ask id v.state) := by
        cases c with
        | get n key => exact (h.get hplace hlocked hmem key).map
        | edit n key change => exact (h.edit hplace hlocked hmem key change).map
      exact hmatches.call

theorem Work.simulates (work : Work) (hfiles : ∀ p ∈ work.files, files p) :
    Simulates (Alike place files) (Alike place files) work.run (work.relocate place).run := by
  have huse : ∀ c, Simulates (Alike place files) (Alike place files) (.use c) (.use c) :=
    fun c _ _ h => h.use hplace c
  induction work with
  | done => exact .skip
  | openCache file rest ih =>
    have hopen : Simulates (Alike place files) (Alike place files) (.openCache file)
        (.openCache (place file)) :=
      fun _ _ h => h.openCache hplace (hfiles file (List.mem_cons_self ..))
    exact hopen.andThen (ih fun p hp => hfiles p (List.mem_cons_of_mem _ hp))
  | use call rest ih => exact (huse call).andThen (ih hfiles)
  | locked work rest ihwork ih =>
    have hwork := ihwork fun p hp => hfiles p (List.mem_append_left _ hp)
    exact (Simulates.around (fun _ _ h => h.enter) hwork fun _ _ h => h.leave).andThen
      (ih fun p hp => hfiles p (List.mem_append_right _ hp))
  | long calls rest ih =>
    exact (Simulates.around (fun _ _ h => h.release) (.uses huse calls) fun _ _ h =>
      h.reacquire).andThen (ih hfiles)

theorem Script.simulates (script : Script) (hfiles : ∀ p ∈ script.files, files p) :
    Simulates (Alike place files) (fun _ _ => True) script.run (script.relocate place).run := by
  have hwork := script.work.simulates hplace hfiles
  refine hwork.andThen fun u v h => ?_
  show Agree _ (script.after.elim Course.skip (fun calls => Course.close.andThen (.uses calls)) u)
    (script.after.elim Course.skip (fun calls => Course.close.andThen (.uses calls)) v)
  cases script.after with
  | none => exact .inr ⟨rfl, trivial⟩
  | some calls =>
    have hclose : Simulates (Alike place files) Refusing .close .close := fun _ _ h => h.close
    have hrest := hclose.andThen (.uses Refusing.simulates calls)
    exact (hrest u v h).imp_right fun hagree => ⟨hagree.1, trivial⟩

end

variable {dir : Path} {d : Disk} {timeout : Duration} {w : Probe} {place : Path → Path}

/-- Two stores of one kind or the other that have just been opened are alike. -/
theorem alike_of_opening {files : Path → Prop} {s : FileStore} {d' : Disk}
    (halone : ∃ id, Alone files id (s, d')) (hpaths : s.paths = []) (hlocked : s.isLocked = true)
    (hcontent : ∀ p, files p → content (s, d') p = .ok []) (hw : w.failOnKey = none) :
    Alike place files { state := (s, d'), caches := [] }
      { state := MemoryStore.openStore w, caches := [] } := by
  refine ⟨halone, rfl, nofun, ?_, fun p hp _ => hcontent p hp, hlocked.symm, hw⟩
  rw [hpaths]
  rfl

/-- A script comes to the same with a store on disk and with one in memory, whatever paths the latter is
given for the files, as long as the same ones are given for the same files. -/
theorem Script.same_results (script : Script) (hdir : Unused dir d)
    (hproper : Proper dir d.home (· ∈ script.files))
    (hplace : ∀ p ∈ script.files, ∀ q ∈ script.files, (place p).same (place q) = p.same q)
    (hw : w.failOnKey = none)
    (hfault : ∀ e, .error e ∈ script.results (FileStore.openStore dir timeout) d → ¬ e.IsFault) :
    script.results (FileStore.openStore dir timeout) d =
      (script.relocate place).results MemoryStore.opener w := by
  have hopen := hdir.alone hproper timeout
  unfold results at hfault ⊢
  cases hr : FileStore.openStore dir timeout d with
  | error e d' =>
    rw [hr] at hopen hfault
    exact absurd hopen (hfault e (List.mem_singleton_self _))
  | ok s d' =>
    rw [hr] at hopen hfault
    obtain ⟨halone, hpaths, hlocked, hcontent⟩ := hopen
    have halike : Alike place _ _ _ := alike_of_opening halone hpaths hlocked hcontent hw
    rcases script.simulates (fun p q hp hq => hplace p hp q hq) (fun _ hp => hp) _ _ halike with
      ⟨e, he, hbad⟩ | ⟨hresults, -⟩
    · exact absurd hbad (hfault e (List.mem_cons_of_mem _ he))
    · exact congrArg (Except.ok Response.done :: ·) hresults.symm

/-- A cache is put into, refuses during a long operation, still has what it had, and refuses for good. -/
theorem Script.same_results_of_visit :
    let file := (Path.mk "store").join "tasks.bin"
    let place : Path → Path := fun p => Path.join ⟨"memory"⟩ (p.below ⟨"store"⟩)
    let script : Script :=
      { work := .openCache file (.use (.edit 0 "1" (.put [97])) (.locked
          (.long [.get 0 "1"] (.use (.get 0 "1") .done)) (.use (.get 0 "2") .done)))
        after := some [.edit 0 "1" .remove] }
    script.results (FileStore.openStore ⟨"store"⟩ .zero) (.empty ["home"] 1) =
        [.ok .done, .ok .done, .ok .done, .error .lockNotHeld, .ok .done, .ok (.value (some [97])),
          .ok .done, .ok (.value none), .ok .done, .error .lockNotHeld] ∧
      script.results (FileStore.openStore ⟨"store"⟩ .zero) (.empty ["home"] 1) =
        (script.relocate place).results MemoryStore.opener {} := by
  intro file place script
  have hresults : script.results (FileStore.openStore ⟨"store"⟩ .zero) (.empty ["home"] 1) =
      [.ok .done, .ok .done, .ok .done, .error .lockNotHeld, .ok .done, .ok (.value (some [97])),
        .ok .done, .ok (.value none), .ok .done, .error .lockNotHeld] := by decide +kernel
  have hfiles : ∀ p, p ∈ script.files → p = file := fun p hp => List.mem_singleton.mp hp
  have hends : Path.EndsWith (file.location ["home"]) 'n' :=
    endsWith_cacheFile ⟨"store"⟩ ⟨"tasks", "", ""⟩ ["home"]
  have hproper : Proper ⟨"store"⟩ ["home"] (· ∈ script.files) := by
    refine ⟨fun p hp => ?_, fun p hp => ?_, fun p q hp hq processId he => ?_⟩
    · exact hfiles p hp ▸ Path.below_join (by decide) (by decide) (by decide)
    · rw [hfiles p hp]
      decide
    · obtain ⟨digit, hdigit, htemporary⟩ := endsWith_temporary q processId ["home"]
      have hn := hends.unique ((hfiles p hp ▸ he) ▸ htemporary)
      rw [← hn] at hdigit
      exact absurd hdigit (by decide)
  have hdir : Unused ⟨"store"⟩ (.empty ["home"] 1) :=
    ⟨Disk.wellFormed_empty .., by decide, nofun⟩
  refine ⟨hresults, script.same_results hdir hproper (fun p hp q hq => ?_) rfl fun e he => ?_⟩
  · rw [hfiles p hp, hfiles q hq]
    decide
  · have hrefused : e = .lockNotHeld := by simpa [hresults] using he
    rw [hrefused]
    exact not_false

end HistoryKeeper
