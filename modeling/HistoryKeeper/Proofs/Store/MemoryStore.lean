import HistoryKeeper.Proofs.Store.StoreView
import HistoryKeeper.Store.Memory

/-!
# Stores in memory keep what is put into them

`MemoryStore.view` looks at the tables of a store by the names of their files; it is faithful
(`MemoryStore.faithful_view`).
-/

namespace HistoryKeeper

namespace MemoryStore

abbrev Caches := List (Path × Entries)

variable {caches : Caches} {c : CacheId} {file p : Path} {t : Entries}
  {key : List Path.Component} {names : String → Prop} {st st' : MemoryStore × Probe}

def tableOf (caches : Caches) (key : List Path.Component) : Entries :=
  ((caches.find? (·.1.components = key)).map (·.2)).getD []

theorem tableOf_cons (file : Path) (t : Entries) (caches : Caches) (key : List Path.Component) :
    tableOf ((file, t) :: caches) key =
      if file.components = key then t else tableOf caches key := by
  unfold tableOf
  by_cases h : file.components = key
  · rw [List.find?_cons_of_pos (by simpa using h), if_pos h]
    rfl
  · rw [List.find?_cons_of_neg (by simpa using h), if_neg h]

theorem tableOf_append_new (caches : Caches) (p : Path) (key : List Path.Component) :
    tableOf (caches ++ [(p, [])]) key = tableOf caches key := by
  induction caches with
  | nil =>
    rw [List.nil_append, tableOf_cons]
    split <;> rfl
  | cons x caches ih => rw [List.cons_append, tableOf_cons, tableOf_cons, ih]

/-- No two caches have the same file. -/
def Distinct (caches : Caches) : Prop :=
  (caches.map (·.1.components)).Nodup

theorem Distinct.tail {x : Path × Entries} (h : Distinct (x :: caches)) : Distinct caches :=
  (List.nodup_cons.mp h).2

theorem Distinct.head {x : Path × Entries} (h : Distinct (x :: caches))
    (hc : caches[c]? = some (file, t)) : x.1.components ≠ file.components := by
  intro he
  exact (List.nodup_cons.mp h).1 (List.mem_map.mpr ⟨_, List.mem_of_getElem? hc, he.symm⟩)

theorem tableOf_of_getElem? (h : Distinct caches) (hc : caches[c]? = some (file, t)) :
    tableOf caches file.components = t := by
  induction caches generalizing c with
  | nil => cases hc
  | cons x caches ih =>
    cases c with
    | zero =>
      cases hc
      rw [tableOf_cons, if_pos rfl]
    | succ c =>
      rw [List.getElem?_cons_succ] at hc
      rw [tableOf_cons, if_neg (h.head hc), ih h.tail hc]

theorem tableOf_modify (h : Distinct caches) (hc : caches[c]? = some (file, t))
    (f : Entries → Entries) (key : List Path.Component) :
    tableOf (caches.modify c fun (file, t) => (file, f t)) key =
      if key = file.components then f t else tableOf caches key := by
  induction caches generalizing c with
  | nil => cases hc
  | cons x caches ih =>
    cases c with
    | zero =>
      cases hc
      rw [List.modify_zero_cons, tableOf_cons, tableOf_cons]
      by_cases he : file.components = key
      · rw [if_pos he, if_pos he.symm]
      · rw [if_neg he, if_neg (Ne.symm he), if_neg he]
    | succ c =>
      rw [List.getElem?_cons_succ] at hc
      have hne := h.head hc
      rw [List.modify_succ_cons, tableOf_cons, tableOf_cons, ih h.tail hc]
      by_cases he : x.1.components = key
      · rw [if_pos he, if_neg (fun hk => hne (he.trans hk)), if_pos he]
      · rw [if_neg he, if_neg he]

theorem map_fst_modify (caches : Caches) (c : CacheId) (f : Entries → Entries) :
    (caches.modify c fun (file, t) => (file, f t)).map (·.1) = caches.map (·.1) := by
  induction caches generalizing c with
  | nil => cases c <;> rfl
  | cons x caches ih =>
    cases c with
    | zero => rfl
    | succ c => rw [List.modify_succ_cons, List.map_cons, List.map_cons, ih]

def baseDir : Path := ⟨"memory"⟩

/-- Names with files of their own. -/
def DistinctNames (names : String → Prop) : Prop :=
  ∀ m n, names m → names n → (cachePath baseDir m).same (cachePath baseDir n) = true → m = n

def view (names : String → Prop) : StoreView MemoryStore Probe where
  Named := names
  Sound st := Distinct st.1.caches ∧ DistinctNames names
  content st name := .ok (tableOf st.1.caches (cachePath baseDir name).components)
  Holds s c name := ∃ file t, s.caches[c]? = some (file, t) ∧
    file.components = (cachePath baseDir name).components
  others _ _ := True

theorem same_of_caches (h : (view names).Sound st) (hcaches : st'.1.caches = st.1.caches) :
    (view names).Same st st' := by
  refine ⟨⟨hcaches ▸ h.1, h.2⟩, fun name _ => ?_, fun ⟨file, t, hc, he⟩ => ?_⟩
  · show Except.ok (tableOf st'.1.caches _) = Except.ok (tableOf st.1.caches _)
    rw [hcaches]
  · exact ⟨file, t, hcaches ▸ hc, he⟩

/-- The caches stay as they are. -/
def SameCaches (st st' : MemoryStore × Probe) : Prop :=
  st'.1.caches = st.1.caches

theorem invisible_of_leads {α : Type} {call : Call α} (h : Leads SameCaches call) :
    Leads (view names).Invisible call :=
  fun st hst => same_of_caches hst (h st)

theorem SameCaches.trans {st'' : MemoryStore × Probe} (h : SameCaches st st')
    (h' : SameCaches st' st'') : SameCaches st st'' :=
  Eq.trans h' h

theorem leads_touch : Leads SameCaches touch :=
  fun _ => rfl

theorem leads_setLocked (held : Bool) : Leads SameCaches (setLocked held) :=
  fun _ => rfl

theorem leads_enter : Leads SameCaches enter := by
  refine Leads.bind SameCaches.trans leads_touch fun _ (st : MemoryStore × Probe) => ?_
  show SameCaches st (endState ((if !st.1.locked then setLocked true else pure () : Call Unit) st))
  split <;> rfl

theorem leads_release : Leads SameCaches release :=
  Leads.bind SameCaches.trans leads_touch fun _ =>
    Leads.bind SameCaches.trans (fun _ => rfl) fun _ => leads_setLocked false

theorem leads_begin (key : String) : Leads SameCaches (begin key) := by
  refine leads_touch.bind SameCaches.trans fun _ st => ?_
  obtain ⟨s, w⟩ := st
  cases hlocked : s.locked with
  | false =>
    show SameCaches (s, w) (endState ((if !s.locked then _ else _ : Call Unit) (s, w)))
    rw [hlocked]
    rfl
  | true =>
    show SameCaches (s, w) (endState ((if !s.locked then _ else _ : Call Unit) (s, w)))
    rw [hlocked]
    show SameCaches (s, w) (endState ((if w.failOnKey = some key then
      throw (.backend ("injected failure for key " ++ key)) else pure () : Call Unit) (s, w)))
    split <;> rfl

/-! ### Caches -/

/-- What `openCache` comes to once the world has been told. -/
def opened (file : Path) (st : MemoryStore × Probe) : Call CacheId :=
  match st.1.caches.findIdx? (·.1.same file) with
  | some c => return c
  | none => do
    modify fun (s, w) => ({ s with caches := s.caches ++ [(file, [])] }, w)
    return st.1.caches.length

theorem openCache_eq (file : Path) (s : MemoryStore) (w : Probe) : openCache file (s, w) =
    match s.caches.findIdx? (·.1.same file) with
    | some c => .ok c (s, { w with touched := true, cachesCreated := w.cachesCreated + 1 })
    | none => .ok s.caches.length ({ s with caches := s.caches ++ [(file, [])] },
        { w with touched := true, cachesCreated := w.cachesCreated + 1 }) := by
  let w' := { w with touched := true, cachesCreated := w.cachesCreated + 1 }
  show opened file (s, w') (s, w') = _
  unfold opened
  cases s.caches.findIdx? (·.1.same file) <;> rfl

theorem opensCache (h : (view names).Sound st) (name : String) :
    (view names).OpensCache name st (openCache (cachePath baseDir name) st) := by
  obtain ⟨s, w⟩ := st
  rw [openCache_eq]
  cases hidx : s.caches.findIdx? (·.1.same (cachePath baseDir name)) with
  | some c =>
    obtain ⟨hlt, hsame, -⟩ := List.findIdx?_eq_some_iff_getElem.mp hidx
    exact ⟨same_of_caches h rfl, s.caches[c].1, s.caches[c].2, List.getElem?_eq_getElem hlt,
      of_decide_eq_true hsame⟩
  | none =>
    have hnew : ∀ x ∈ s.caches, x.1.components ≠ (cachePath baseDir name).components := by
      intro x hx
      have hne := List.findIdx?_eq_none_iff.mp hidx x hx
      exact of_decide_eq_false hne
    refine ⟨⟨⟨?_, h.2⟩, fun n _ => ?_, fun ⟨file, t, hc, he⟩ => ⟨file, t, ?_, he⟩⟩,
      cachePath baseDir name, [], ?_, rfl⟩
    · show ((s.caches ++ [(cachePath baseDir name, ([] : Entries))]).map
        (fun x : Path × Entries => x.1.components)).Nodup
      rw [List.map_append]
      refine List.nodup_append.mpr ⟨h.1, List.pairwise_singleton .., ?_⟩
      rintro a ha b hb rfl
      obtain ⟨x, hx, hxa⟩ := List.mem_map.mp ha
      exact hnew x hx (hxa.trans (List.mem_singleton.mp hb))
    · show Except.ok (tableOf (s.caches ++ [(cachePath baseDir name, [])]) _) = Except.ok (tableOf s.caches _)
      rw [tableOf_append_new]
    · exact (List.getElem?_append_left (List.getElem?_eq_some_iff.mp hc).1).trans hc
    · show (s.caches ++ [(cachePath baseDir name, [])])[s.caches.length]? = _
      rw [List.getElem?_append_right (Nat.le_refl _), Nat.sub_self]
      rfl

theorem finds (h : (view names).Sound st) {name : String} (hc : (view names).Holds st.1 c name)
    (key : String) : (view names).Finds name key st (lookup c key st) := by
  have hbegin := leads_begin key st
  show (view names).Finds name key st (EStateM.bind (begin key) _ st)
  unfold EStateM.bind
  cases hr : begin key st with
  | error e st' =>
    rw [hr] at hbegin
    exact same_of_caches h hbegin
  | ok u st' =>
    rw [hr, endState_ok] at hbegin
    obtain ⟨file, t, hget, he⟩ := hc
    refine ⟨same_of_caches h hbegin, t, ?_, ?_⟩
    · show Except.ok (tableOf st.1.caches _) = .ok t
      rw [← he, tableOf_of_getElem? h.1 hget]
    · show (st'.1.entries c).get? key = t.get? key
      rw [entries, show st'.1.caches = st.1.caches from hbegin, hget]
      rfl

/-- A change that is let in is made to the table of the cache. -/
theorem changed_of_update (h : (view names).Sound st) {name : String} (hname : names name)
    (hc : (view names).Holds st.1 c name) (f : Entries → Entries)
    (hcaches : st'.1.caches = st.1.caches) :
    (view names).Changed name f st
      ({ st'.1 with caches := st'.1.caches.modify c fun (file, t) => (file, f t) }, st'.2) := by
  obtain ⟨file, t, hget, he⟩ := hc
  have hkeys : ∀ caches : Caches, caches.map (·.1.components) =
      (caches.map (·.1)).map (·.components) := fun caches => by rw [List.map_map]; rfl
  refine ⟨⟨?_, h.2⟩, fun m hm => ?_, fun {c' n} ⟨file', t', hget', he'⟩ => ?_⟩
  · show ((st'.1.caches.modify c fun (file, t) => (file, f t)).map (·.1.components)).Nodup
    rw [hkeys, map_fst_modify, ← hkeys, hcaches]
    exact h.1
  · show Except.ok (tableOf (st'.1.caches.modify c fun (file, t) => (file, f t)) _) =
      if m = name then (Except.ok (tableOf st.1.caches _) : CacheContent).map f else .ok (tableOf st.1.caches _)
    rw [hcaches, tableOf_modify h.1 hget]
    by_cases hmn : m = name
    · rw [if_pos hmn, if_pos (by rw [he, hmn]), ← he, tableOf_of_getElem? h.1 hget]
      rfl
    · have hdiff : (cachePath baseDir m).components ≠ file.components := by
        intro hcomp
        exact hmn (h.2 m name hm hname (decide_eq_true (hcomp.trans he)))
      rw [if_neg hmn, if_neg hdiff]
  · have hget'' : st'.1.caches[c']? = some (file', t') := hcaches ▸ hget'
    by_cases hcc : c = c'
    · refine ⟨file', f t', ?_, he'⟩
      show (st'.1.caches.modify c fun (file, t) => (file, f t))[c']? = _
      subst hcc
      rw [List.getElem?_modify_eq, hget'']
      rfl
    · refine ⟨file', t', ?_, he'⟩
      show (st'.1.caches.modify c fun (file, t) => (file, f t))[c']? = _
      rw [List.getElem?_modify_ne _ _ hcc, hget'']

theorem makes (h : (view names).Sound st) {name : String} (hname : names name)
    (hc : (view names).Holds st.1 c name) (key : String) (change : Change) :
    (view names).Makes name key change st (change.call c key st) := by
  have hbegin := leads_begin key st
  have hcall : change.call c key st =
      EStateM.bind (begin key) (fun _ => update c (change.applyTo key)) st := by
    cases change <;> rfl
  rw [hcall]
  unfold EStateM.bind
  cases hr : begin key st with
  | error e st' =>
    rw [hr] at hbegin
    exact same_of_caches h hbegin
  | ok u st' =>
    rw [hr, endState_ok] at hbegin
    exact changed_of_update h hname hc (change.applyTo key) hbegin

theorem faithful_view (names : String → Prop) : (view names).Faithful where
  enter := invisible_of_leads leads_enter
  leave := invisible_of_leads fun _ => rfl
  release := invisible_of_leads leads_release
  reacquire := invisible_of_leads (leads_setLocked true)
  openCache h _ := opensCache h _
  get h _ hc key := finds h hc key
  change h hname hc key change := makes h hname hc key change
  others h _ := same_of_caches h rfl

end MemoryStore

end HistoryKeeper
