import HistoryKeeper.Keeper.Request
import HistoryKeeper.Proofs.Data.Outcome
import HistoryKeeper.Proofs.Store.CacheFormat

/-!
# What can be seen of a store

A `StoreView` tells what a store holds for its caches, by their names. The view is `Faithful` if
`get` answers from it, `put` and `remove` change it as they should, and no other call changes it at
all, whether it succeeds or fails. What keepers do with stores is proved for stores with a faithful
view.
-/

namespace HistoryKeeper

namespace Change

/-- The entries with the change made to a key. -/
def applyTo (change : Change) (key : String) (entries : Entries) : Entries :=
  match change with
  | put value => entries.insert key value
  | remove => entries.erase key

/-- The call that makes the change. -/
def call {S W : Type} [Store S W] (change : Change) (c : CacheId) (key : String) :
    StoreCall S W Unit :=
  match change with
  | put value => Store.put c key value
  | remove => Store.remove c key

end Change

/-- The file that keepers use for the cache of a name. -/
def cachePath (dir : Path) (name : String) : Path :=
  dir.join (name ++ ".bin")

structure StoreView (S W : Type) where
  /-- The names of the caches in use. -/
  Named : String → Prop
  /-- The store is as it should be in its world. -/
  Sound : S × W → Prop
  /-- What a cache holds. -/
  content : S × W → String → CacheContent
  /-- The number of a cache stands for a name. -/
  Holds : S → CacheId → String → Prop
  /-- What others may do in the world. -/
  others : W → W → Prop

namespace StoreView

variable {S W : Type} {view : StoreView S W} {st st' st'' : S × W} {name : String}

/-- Nothing can be seen to have changed. -/
structure Same (view : StoreView S W) (st st' : S × W) : Prop where
  sound : view.Sound st'
  content : ∀ name, view.Named name → view.content st' name = view.content st name
  caches : ∀ {c name}, view.Holds st.1 c name → view.Holds st'.1 c name

/-- The entries of one cache have changed, and nothing else. -/
structure Changed (view : StoreView S W) (name : String) (f : Entries → Entries) (st st' : S × W) :
    Prop where
  sound : view.Sound st'
  content : ∀ name', view.Named name' → view.content st' name' =
    if name' = name then (view.content st name).map f else view.content st name'
  caches : ∀ {c name}, view.Holds st.1 c name → view.Holds st'.1 c name

def Invisible (view : StoreView S W) (st st' : S × W) : Prop :=
  view.Sound st → view.Same st st'

theorem Same.refl (h : view.Sound st) : view.Same st st :=
  ⟨h, fun _ _ => rfl, id⟩

theorem Same.trans (h : view.Same st st') (h' : view.Same st' st'') : view.Same st st'' :=
  ⟨h'.sound, fun n hn => (h'.content n hn).trans (h.content n hn), fun hc => h'.caches (h.caches hc)⟩

/-- The outcome of opening a cache. -/
def OpensCache (view : StoreView S W) (name : String) (st : S × W)
    (result : EStateM.Result StoreError (S × W) CacheId) : Prop :=
  match result with
  | .ok c st' => view.Same st st' ∧ view.Holds st'.1 c name
  | .error _ st' => view.Same st st'

/-- The outcome of looking a key up. -/
def Finds (view : StoreView S W) (name key : String) (st : S × W)
    (result : EStateM.Result StoreError (S × W) (Option Bytes)) : Prop :=
  match result with
  | .ok v st' => view.Same st st' ∧
      ∃ entries, view.content st name = .ok entries ∧ v = entries.get? key
  | .error _ st' => view.Same st st'

/-- The outcome of a change. -/
def Makes (view : StoreView S W) (name key : String) (change : Change) (st : S × W)
    (result : EStateM.Result StoreError (S × W) Unit) : Prop :=
  match result with
  | .ok _ st' => view.Changed name (change.applyTo key) st st'
  | .error _ st' => view.Same st st'

structure Faithful [Store S W] (view : StoreView S W) : Prop where
  enter : Leads view.Invisible (Store.enter : StoreCall S W Unit)
  leave : Leads view.Invisible (Store.leave : StoreCall S W Unit)
  release : Leads view.Invisible (Store.release : StoreCall S W Unit)
  reacquire : Leads view.Invisible (Store.reacquire : StoreCall S W Unit)
  openCache : ∀ {st} {cache : CacheIdentity}, view.Sound st → view.Named cache.name →
    view.OpensCache cache.name st
      (Store.openCache ((Store.baseDir st.1).join cache.fileName) st)
  get : ∀ {st c name}, view.Sound st → view.Named name → view.Holds st.1 c name → ∀ key,
    view.Finds name key st (Store.get c key st)
  change : ∀ {st c name}, view.Sound st → view.Named name → view.Holds st.1 c name →
    ∀ key (change : Change), view.Makes name key change st (change.call c key st)
  others : ∀ {s w w'}, view.Sound (s, w) → view.others w w' → view.Same (s, w) (s, w')

end StoreView

end HistoryKeeper
