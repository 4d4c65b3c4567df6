import HistoryKeeper.Proofs.Store.LikeMemory

/-!
# Stores that do what they are asked to

Whether a call fails may depend on all the calls before it. `Store.Used` is what becomes of a store that
is worked with, and a store is `Willing` if whatever becomes of it, no call of the work fails, and
nothing is found in it before something was changed. A store in memory is
(`MemoryStore.willing`), unless its probe makes it fail.
-/

namespace HistoryKeeper

namespace Store

variable {S W : Type} [Store S W]

/-- What work under the lock can make of a store: the caches it has opened, whether it has changed
anything, and the store in its world. -/
inductive Used (names : String → Prop) (st₀ : S × W) : List CacheId → Bool → S × W → Prop
  | entered {st} (hcall : Store.enter st₀ = .ok () st) : Used names st₀ [] false st
  | opened {cs changed st c st'} (cache : CacheIdentity) (hused : Used names st₀ cs changed st)
      (hname : names cache.name)
      (hcall : Store.openCache ((Store.baseDir st.1).join cache.fileName) st = .ok c st') :
      Used names st₀ (c :: cs) changed st'
  | looked {cs changed st c v st'} (key : String) (hused : Used names st₀ cs changed st) (hc : c ∈ cs)
      (hcall : Store.get c key st = .ok v st') : Used names st₀ cs changed st'
  | changed {cs changed st c st'} (key : String) (change : Change) (hused : Used names st₀ cs changed st)
      (hc : c ∈ cs) (hcall : change.call c key st = .ok () st') : Used names st₀ cs true st'

/-- No call fails, and nothing is found before something was changed. -/
structure Willing (names : String → Prop) (st₀ : S × W) : Prop where
  enter : ∃ st, Store.enter st₀ = .ok () st
  openCache : ∀ {cs changed st cache}, Used names st₀ cs changed st → names cache.name →
    ∃ c st', Store.openCache ((Store.baseDir st.1).join (CacheIdentity.fileName cache)) st = .ok c st'
  get : ∀ {cs changed st c}, Used names st₀ cs changed st → c ∈ cs → ∀ key,
    ∃ v st', Store.get c key st = .ok v st' ∧ (changed = false → v = none)
  change : ∀ {cs changed st c}, Used names st₀ cs changed st → c ∈ cs → ∀ key (change : Change),
    ∃ st', change.call c key st = .ok () st'
  leave : ∀ {cs changed st}, Used names st₀ cs changed st →
    ∃ st', Store.leave st = .ok () st' ∧ ∃ st'', Store.close st' = .ok () st''

end Store

namespace MemoryStore

variable {names : String → Prop} {st₀ st : MemoryStore × Probe} {cs : List CacheId} {changed : Bool}

/-- A store in use: it has its lock, its probe lets it be, and without a change it is empty. -/
structure Serviceable (changed : Bool) (st : MemoryStore × Probe) : Prop where
  locked : st.1.locked = true
  spared : st.2.failOnKey = none
  empty : changed = false → ∀ x ∈ st.1.caches, x.2 = []

theorem Serviceable.get?_entries (h : Serviceable false st) (c : CacheId) (key : String) :
    (st.1.entries c).get? key = none := by
  unfold entries
  cases hc : st.1.caches[c]? with
  | none => rfl
  | some x =>
    show Table.get? x.2 key = none
    rw [h.empty rfl x (List.mem_of_getElem? hc)]
    rfl

theorem serviceable_openCache {file : Path} {c : CacheId} {st' : MemoryStore × Probe}
    (h : Serviceable changed st) (hcall : openCache file st = .ok c st') : Serviceable changed st' := by
  obtain ⟨w', hspared, heq⟩ := openCache_told file st.1 st.2
  rw [heq] at hcall
  split at hcall
  · cases hcall
    exact ⟨h.locked, hspared.trans h.spared, h.empty⟩
  · cases hcall
    refine ⟨h.locked, hspared.trans h.spared, fun hchanged x hx => ?_⟩
    rcases List.mem_append.mp hx with hx | hx
    · exact h.empty hchanged x hx
    · rw [List.mem_singleton.mp hx]

theorem serviceable_of_used (hspared : st₀.2.failOnKey = none)
    (hempty : ∀ x ∈ st₀.1.caches, x.2 = []) (h : Store.Used names st₀ cs changed st) :
    Serviceable changed st := by
  induction h with
  | entered hcall =>
    obtain ⟨w', heq, hspared'⟩ := enter_eq st₀.1 st₀.2
    cases heq.symm.trans hcall
    exact ⟨rfl, hspared'.trans hspared, fun _ => hempty⟩
  | opened _ _ _ hcall ih => exact serviceable_openCache ih hcall
  | @looked _ _ st c _ _ key _ _ hcall ih =>
    cases (lookup_of_locked ih.locked ih.spared c key).symm.trans hcall
    exact ⟨ih.locked, ih.spared, ih.empty⟩
  | @changed _ _ st c _ key change _ _ hcall ih =>
    cases (call_of_locked ih.locked ih.spared change c key).symm.trans hcall
    exact ⟨ih.locked, ih.spared, nofun⟩

/-- An empty store in memory, unless its probe makes it fail. -/
theorem willing (names : String → Prop) (hspared : st₀.2.failOnKey = none)
    (hempty : ∀ x ∈ st₀.1.caches, x.2 = []) : Store.Willing names st₀ where
  enter := ⟨_, (enter_eq st₀.1 st₀.2).choose_spec.1⟩
  openCache {_ _ st cache} _ _ := by
    obtain ⟨w', -, heq⟩ := openCache_told ((Store.baseDir st.1).join cache.fileName) st.1 st.2
    show ∃ c st', openCache _ (st.1, st.2) = .ok c st'
    rw [heq]
    split <;> exact ⟨_, _, rfl⟩
  get {_ _ st c} hused _ key := by
    have h := serviceable_of_used hspared hempty hused
    refine ⟨_, _, lookup_of_locked h.locked h.spared c key, fun hchanged => ?_⟩
    subst hchanged
    exact h.get?_entries c key
  change {_ _ st c} hused _ key change := by
    have h := serviceable_of_used hspared hempty hused
    exact ⟨_, call_of_locked h.locked h.spared change c key⟩
  leave {_ _ st} _ := by
    obtain ⟨w', hclose⟩ := close_eq st.1 st.2
    exact ⟨st, rfl, _, hclose⟩

end MemoryStore

end HistoryKeeper
