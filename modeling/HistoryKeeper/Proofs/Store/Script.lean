import HistoryKeeper.Proofs.Store.Action
import HistoryKeeper.Store.Memory

/-!
# Scripts for one store

A `Script` is what a program does with one store, of whatever kind: `Work` under its lock and around long
operations, nested as a store lets itself be borrowed, and in the end it may close the store and go on
with the caches. `Script.results` is what each call came to, in the order in which they returned.
-/

namespace HistoryKeeper

open FileStore (Response)

/-- A call on a cache, given by how many were asked for before it. -/
inductive CacheCall where
  | get (n : Nat) (key : String)
  | edit (n : Nat) (key : String) (change : Change)

namespace CacheCall

def cache : CacheCall → Nat
  | get n _ | edit n _ _ => n

def ask {S W : Type} [Store S W] (c : CacheCall) (id : CacheId) : StoreCall S W Response :=
  match c with
  | get _ key => .value <$> Store.get id key
  | edit _ key change => (fun _ => .done) <$> change.call id key

end CacheCall

inductive Work where
  | done
  | openCache (file : Path) (rest : Work)
  | use (call : CacheCall) (rest : Work)
  /-- Work under the lock, in which the store is at hand. -/
  | locked (work rest : Work)
  /-- A long operation, in which the store is out of reach but its caches are not. -/
  | long (calls : List CacheCall) (rest : Work)

structure Script where
  work : Work
  /-- The calls on caches after the store is closed, if it is. -/
  after : Option (List CacheCall)

abbrev CallResult := Except StoreError Response

def Work.files : Work → List Path
  | done => []
  | openCache file rest => file :: rest.files
  | use _ rest => rest.files
  | locked work rest => work.files ++ rest.files
  | long _ rest => rest.files

def Script.files (script : Script) : List Path :=
  script.work.files

/-- The same work with other paths. -/
def Work.relocate (place : Path → Path) : Work → Work
  | done => done
  | openCache file rest => openCache (place file) (rest.relocate place)
  | use call rest => use call (rest.relocate place)
  | locked work rest => locked (work.relocate place) (rest.relocate place)
  | long calls rest => long calls (rest.relocate place)

def Script.relocate (place : Path → Path) (script : Script) : Script :=
  { script with work := script.work.relocate place }

/-- A store in use, with the caches in the order in which they were asked for. -/
structure InUse (S W : Type) where
  state : S × W
  caches : List CacheId

/-- Something that is done with a store, with what the calls came to. -/
abbrev Course (S W : Type) := InUse S W → List CallResult × InUse S W

section

variable {S W : Type}

namespace Course

def skip : Course S W := fun u => ([], u)

def andThen (x y : Course S W) : Course S W := fun u =>
  let (results, u) := x u
  let (more, u) := y u
  (results ++ more, u)

def call (c : StoreCall S W Response) : Course S W := fun u =>
  match c u.state with
  | .ok response state => ([.ok response], { u with state })
  | .error e state => ([.error e], { u with state })

/-- Work between two calls. It is left out if the first one fails. -/
def around (before : StoreCall S W Unit) (work : Course S W) (after : StoreCall S W Unit) :
    Course S W := fun u =>
  match before u.state with
  | .ok _ state => (work.andThen (call ((fun _ => .done) <$> after))) { u with state }
  | .error e state => ([.error e], { u with state })

variable [Store S W]

def openCache (file : Path) : Course S W := fun u =>
  match Store.openCache file u.state with
  | .ok c state => ([.ok .done], { state, caches := u.caches ++ [c] })
  | .error e state => ([.error e], { u with state })

theorem openCache_ok {file : Path} {u : InUse S W} {c : CacheId} {state : S × W}
    (h : Store.openCache file u.state = .ok c state) :
    openCache file u = ([.ok .done], { state, caches := u.caches ++ [c] }) := by
  rw [openCache, h]

/-- A call on a cache; there is none if nobody has asked for the cache. -/
def use (c : CacheCall) : Course S W := fun u =>
  (u.caches[c.cache]?.elim skip fun id => call (c.ask id)) u

def uses : List CacheCall → Course S W
  | [] => skip
  | c :: calls => (use c).andThen (uses calls)

/-- A store that fails to close goes away as it is. -/
def close : Course S W := fun u =>
  match Store.close u.state with
  | .ok _ state => ([.ok .done], { u with state })
  | .error e state => ([.error e], { u with state := Store.abandon state })

end Course

variable [Store S W]

def Work.run : Work → Course S W
  | done => .skip
  | openCache file rest => (Course.openCache file).andThen rest.run
  | use call rest => (Course.use call).andThen rest.run
  | locked work rest => (Course.around Store.enter work.run Store.leave).andThen rest.run
  | long calls rest =>
    (Course.around Store.release (.uses calls) Store.reacquire).andThen rest.run

def Script.run (script : Script) : Course S W :=
  script.work.run.andThen
    (script.after.elim .skip fun calls => Course.close.andThen (.uses calls))

/-- What each call comes to, first of all the opening of the store. -/
def Script.results (script : Script) (opener : EStateM StoreError W S) (world : W) : List CallResult :=
  match opener world with
  | .ok store world => .ok .done :: (script.run { state := (store, world), caches := [] }).1
  | .error e _ => [.error e]

end

/-- A store in memory is there at once. -/
def MemoryStore.opener : EStateM StoreError Probe MemoryStore := fun w =>
  .ok (openStore w).1 (openStore w).2

end HistoryKeeper
