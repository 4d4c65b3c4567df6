import HistoryKeeper.Store.Basic

/-!
# Sessions

A `Session` is several stores in one world, used side by side under names of the user's choice. Its
steps open, use and close stores and caches; steps inside `locked` run under a store's lock, steps
inside `long` while the lock is given up.

A cache stays usable as an object when its store is gone, so a session keeps every store it ever
opened. A store whose long operation runs is out of reach until that ends; one that runs work under
its lock can still be named, but neither closed nor sent into a long operation.
-/

namespace HistoryKeeper

/-- A step of a session; `change` and `observe` are what happens in the world besides. -/
inductive Step (W : Type) where
  | openStore (store : String) (dir : Path) (timeout : Duration)
  | openCache (store cache : String) (file : String)
  | get (cache key : String)
  | put (cache key : String) (value : Bytes)
  | remove (cache key : String)
  | locked (store : String) (steps : List (Step W))
  | long (store : String) (steps : List (Step W))
  | isLocked (store : String)
  | baseDir (store : String)
  | close (store : String)
  | abandon (store : String)
  | change (f : W → W)
  | observe

instance {W : Type} : Inhabited (Step W) := ⟨.observe⟩

/-- The outcome of a step. -/
inductive Answer (W : Type) where
  | done
  | value (v : Option Bytes)
  | lockState (held : Option Bool)
  | path (p : Path)
  | world (w : W)
  | failed (e : StoreError)
  /-- What the inner steps answered, and the failure of the call around them. -/
  | steps (answers : List (Answer W)) (failure : Option StoreError)
  | noStore
  | noCache

structure Session (S W : Type) where
  /-- Every store that was opened, by its number. -/
  stores : List S
  /-- The numbers of the stores that are open and in reach. -/
  names : Table String Nat
  /-- The stores under whose lock work is running, the innermost first. -/
  working : List (String × Nat)
  /-- The caches: the number of their store and their number in it. -/
  caches : Table String (Nat × CacheId)
  world : W

namespace Session

variable {S W : Type} [Store S W]

def start (w : W) : Session S W :=
  { stores := [], names := [], working := [], caches := [], world := w }

/-- A store that can be named here. -/
def find? (session : Session S W) (name : String) : Option Nat :=
  session.working.lookup name <|> session.names.get? name

/-- A call on a store. -/
def call {α : Type} (session : Session S W) (n : Nat) (c : StoreCall S W α) :
    Option (Except StoreError α × Session S W) :=
  match session.stores[n]? with
  | none => none
  | some s =>
    match c (s, session.world) with
    | .ok v (s, world) => some (.ok v, { session with stores := session.stores.set n s, world })
    | .error e (s, world) =>
      some (.error e, { session with stores := session.stores.set n s, world })

/-- A call whose result is an answer. -/
def answer {α : Type} (session : Session S W) (n : Nat) (c : StoreCall S W α)
    (result : α → Answer W) : Answer W × Session S W :=
  match session.call n c with
  | none => (.noStore, session)
  | some (.ok v, session) => (result v, session)
  | some (.error e, session) => (.failed e, session)

/-- A call on a cache. -/
def onCache {α : Type} (session : Session S W) (cache : String) (c : CacheId → StoreCall S W α)
    (result : α → Answer W) : Answer W × Session S W :=
  match session.caches.get? cache with
  | none => (.noCache, session)
  | some (n, id) => session.answer n (c id) result

/-- Let a store go unclosed. -/
def letGo (session : Session S W) (n : Nat) : Session S W :=
  match session.stores[n]? with
  | none => session
  | some s =>
    let (s, world) := Store.abandon (s, session.world)
    { session with stores := session.stores.set n s, world }

/-- Put a store in reach under a name; one that had the name is let go. -/
def bind (session : Session S W) (name : String) (n : Nat) : Session S W :=
  let session :=
    match session.names.get? name with
    | some old => session.letGo old
    | none => session
  { session with names := session.names.insert name n }

def close (session : Session S W) (n : Nat) : Answer W × Session S W :=
  match session.call n Store.close with
  | none => (.noStore, session)
  | some (.ok _, session) => (.done, session)
  | some (.error e, session) => (.failed e, session.letGo n)

/-- Work between two calls on a store. The work is left out if the first call fails. -/
def around (session : Session S W) (n : Nat) (before after : StoreCall S W Unit)
    (work : Session S W → List (Answer W) × Session S W) : Answer W × Session S W :=
  match session.call n before with
  | none => (.noStore, session)
  | some (.error e, session) => (.steps [] (some e), session)
  | some (.ok _, session) =>
    let (answers, session) := work session
    match session.call n after with
    | none => (.steps answers none, session)
    | some (.ok _, session) => (.steps answers none, session)
    | some (.error e, session) => (.steps answers (some e), session)

/-- Work while a store is out of reach. -/
def withoutName (session : Session S W) (name : String) (n : Nat)
    (work : Session S W → Answer W × Session S W) : Answer W × Session S W :=
  let (a, session) := work { session with names := session.names.erase name }
  (a, session.bind name n)

/-- Work while a store counts as working. -/
def whileWorking (session : Session S W) (name : String) (n : Nat)
    (work : Session S W → Answer W × Session S W) : Answer W × Session S W :=
  let (a, session) := work { session with working := (name, n) :: session.working }
  (a, { session with working := session.working.tail })

/-- How stores are opened in the session's world. -/
abbrev Opener (S W : Type) := Path → Duration → EStateM StoreError W S

mutual

def perform (opener : Opener S W) : Step W → Session S W → Answer W × Session S W
  | .openStore name dir timeout, session =>
    match opener dir timeout session.world with
    | .error e world => (.failed e, { session with world })
    | .ok s world =>
      let session := { session with stores := session.stores ++ [s], world }
      (.done, session.bind name (session.stores.length - 1))
  | .openCache store cache file, session =>
    match session.find? store with
    | none => (.noStore, session)
    | some n =>
      match session.stores[n]? with
      | none => (.noStore, session)
      | some s =>
        match session.call n (Store.openCache ((Store.baseDir s).join file)) with
        | none => (.noStore, session)
        | some (.error e, session) => (.failed e, session)
        | some (.ok id, session) =>
          (.done, { session with caches := session.caches.insert cache (n, id) })
  | .get cache key, session => session.onCache cache (Store.get · key) .value
  | .put cache key value, session => session.onCache cache (Store.put · key value) fun _ => .done
  | .remove cache key, session => session.onCache cache (Store.remove · key) fun _ => .done
  | .locked store steps, session =>
    match session.working.lookup store, session.names.get? store with
    | some n, _ =>
      session.whileWorking store n fun session =>
        session.around n Store.enter Store.leave (performAll opener steps)
    | none, some n =>
      session.withoutName store n fun session =>
        session.whileWorking store n fun session =>
          session.around n Store.enter Store.leave (performAll opener steps)
    | none, none => (.noStore, session)
  | .long store steps, session =>
    match session.names.get? store with
    | none => (.noStore, session)
    | some n =>
      session.withoutName store n fun session =>
        session.around n Store.release Store.reacquire (performAll opener steps)
  | .isLocked store, session =>
    match (session.find? store).bind (session.stores[·]?) with
    | none => (.noStore, session)
    | some s => (.lockState (Store.isLocked? s), session)
  | .baseDir store, session =>
    match (session.find? store).bind (session.stores[·]?) with
    | none => (.noStore, session)
    | some s => (.path (Store.baseDir s), session)
  | .close store, session =>
    match session.names.get? store with
    | none => (.noStore, session)
    | some n => { session with names := session.names.erase store }.close n
  | .abandon store, session =>
    match session.names.get? store with
    | none => (.done, session)
    | some n => (.done, { session with names := session.names.erase store }.letGo n)
  | .change f, session => (.done, { session with world := f session.world })
  | .observe, session => (.world session.world, session)

/-- The steps in turn, with their answers. -/
def performAll (opener : Opener S W) : List (Step W) → Session S W → List (Answer W) × Session S W
  | [], session => ([], session)
  | step :: steps, session =>
    let (a, session) := perform opener step session
    let (answers, session) := performAll opener steps session
    (a :: answers, session)

end

end Session

end HistoryKeeper
