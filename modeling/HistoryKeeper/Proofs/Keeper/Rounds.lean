import Mathlib.Data.List.Find
import HistoryKeeper.Proofs.Keeper.Books
import HistoryKeeper.Proofs.Keeper.Toil

/-!
# The rounds of a keeper

In a round of its work a keeper takes in all that has arrived and then serves a read, or else a write,
or else leaves, or else idles. `System.Rounds` is a run in which nothing more is sent, with its steps
counted and its rounds noted.

Of requests that are taken in without being served, `Keeper.enqueueAll` says which rounds are to come
and what the reads get in them. The reads all come before the first write is applied, so they find in
the queue all the writes that were sent before them (`Keeper.foreseen_newWith`).
-/

namespace HistoryKeeper

/-- How a round goes. -/
inductive Round where
  | read (read : PendingRead)
  | write (write : PendingWrite)
  | leave
  | idle
  deriving DecidableEq, Repr

def Round.Names (names : String → Prop) : Round → Prop
  | read r => names r.cache.name
  | write w => names w.cache.name
  | _ => True

def Round.writes (rounds : List Round) : List PendingWrite :=
  rounds.filterMap fun
    | .write w => some w
    | _ => none

theorem Round.writes_append (xs ys : List Round) : writes (xs ++ ys) = writes xs ++ writes ys :=
  List.filterMap_append ..

/-- What the keeper has turned to. -/
def Task.round : Task → Round
  | answering _ read => .read read
  | applying write => .write write
  | leaving _ => .leave
  | _ => .idle

/-- Without the times that pass while the keeper is busy and callers wait. -/
def Summary.counts (s : Summary) : Summary :=
  { s with total := .zero, busy := .zero, blockedReads := .zero }

namespace Request

def allReads (requests : List Request) : List PendingRead :=
  requests.filterMap fun
    | .read r => some r
    | _ => none

/-- How many reads come after a write on their key. -/
def readsBehindWrites : (earlier : List PendingWrite) → List Request → Nat
  | _, [] => 0
  | earlier, .read r :: requests =>
    (if earlier.any (·.targets r.cache r.key) then 1 else 0) + readsBehindWrites earlier requests
  | earlier, .write w :: requests => readsBehindWrites (earlier ++ [w]) requests
  | earlier, .stop :: requests => readsBehindWrites earlier requests

/-- A round for each read, a round for each write, and one to leave. -/
def rounds (requests : List Request) : List Round :=
  (allReads requests).map .read ++ (writes requests).map .write ++ [.leave]

/-- Rounds are about the caches that the requests are about. -/
theorem names_rounds {names : String → Prop} {requests : List Request}
    (h : ∀ r ∈ requests, r.Names names) : ∀ r ∈ rounds requests, r.Names names := by
  intro r hr
  simp only [rounds, allReads, writes, List.mem_append, List.mem_map, List.mem_filterMap,
    List.mem_singleton] at hr
  rcases hr with (⟨read, ⟨request, hrequest, heq⟩, rfl⟩ | ⟨write, ⟨request, hrequest, heq⟩, rfl⟩) | rfl
  · cases request <;> cases heq
    exact h _ hrequest
  · cases request <;> cases heq
    exact h _ hrequest
  · trivial

theorem allReads_append (xs ys : List Request) : allReads (xs ++ ys) = allReads xs ++ allReads ys :=
  List.filterMap_append ..

theorem readsBehindWrites_append (earlier : List PendingWrite) (xs ys : List Request) :
    readsBehindWrites earlier (xs ++ ys) =
      readsBehindWrites earlier xs + readsBehindWrites (earlier ++ writes xs) ys := by
  induction xs generalizing earlier with
  | nil => simp [readsBehindWrites, writes]
  | cons request xs ih =>
    cases request with
    | read r =>
      rw [List.cons_append, readsBehindWrites, readsBehindWrites, ih, Nat.add_assoc]
      rfl
    | write w =>
      rw [List.cons_append, readsBehindWrites, readsBehindWrites, ih, List.append_assoc]
      rfl
    | stop =>
      rw [List.cons_append, readsBehindWrites, readsBehindWrites, ih]
      rfl

end Request

namespace Keeper

variable {k : Keeper} {requests : List Request} {place : Nat} {read : PendingRead}

def enqueueAll (k : Keeper) (requests : List Request) : Keeper :=
  requests.foldl enqueue k

theorem enqueueAll_concat (k : Keeper) (requests : List Request) (request : Request) :
    k.enqueueAll (requests ++ [request]) = (k.enqueueAll requests).enqueue request :=
  List.foldl_append ..

theorem stopRequested_enqueueAll (k : Keeper) (h : .stop ∈ requests) :
    (k.enqueueAll requests).stopRequested = true := by
  induction requests using List.reverseRecOn with
  | nil => cases h
  | append_singleton requests request ih =>
    rw [enqueueAll_concat]
    rcases List.mem_append.mp h with hearlier | hlast
    · cases request with
      | stop => rfl
      | _ => exact ih hearlier
    · rw [← List.mem_singleton.mp hlast]
      rfl

/-- The rounds that are to come, but for the last. -/
def ahead (k : Keeper) : List Round :=
  k.reads.map (.read ·.2) ++ k.writes.map (.write ·.2)

theorem writes_ahead (k : Keeper) : Round.writes k.ahead = k.writes.map (·.2) := by
  unfold ahead Round.writes
  rw [List.filterMap_append, List.filterMap_map, List.filterMap_map]
  simp

/-- A new keeper that has taken in requests. -/
def newWith (interval : Duration) (lookup : Bool) (now : Instant) (requests : List Request) : Keeper :=
  (new interval lookup now).enqueueAll requests

section
variable (interval : Duration) (lookup : Bool) (now : Instant) (requests : List Request)

theorem newWith_concat (request : Request) : newWith interval lookup now (requests ++ [request]) =
    (newWith interval lookup now requests).enqueue request :=
  enqueueAll_concat ..

theorem reads_newWith :
    (newWith interval lookup now requests).reads.map (·.2) = Request.allReads requests := by
  induction requests using List.reverseRecOn with
  | nil => rfl
  | append_singleton requests request ih =>
    rw [newWith_concat, Request.allReads_append, ← ih]
    cases request with
    | read r => exact List.map_append
    | _ => exact (List.append_nil _).symm

theorem writes_newWith :
    (newWith interval lookup now requests).writes.map (·.2) = Request.writes requests := by
  induction requests using List.reverseRecOn with
  | nil => rfl
  | append_singleton requests request ih =>
    rw [newWith_concat, Request.writes_append, ← ih]
    cases request with
    | write w => exact List.map_append
    | _ => exact (List.append_nil _).symm

theorem lookup_newWith : (newWith interval lookup now requests).pendingLookup = lookup := by
  induction requests using List.reverseRecOn with
  | nil => rfl
  | append_singleton requests request ih => rw [newWith_concat, System.lookup_enqueue, ih]

theorem ahead_newWith :
    (newWith interval lookup now requests).ahead ++ [.leave] = Request.rounds requests := by
  rw [Request.rounds, ← reads_newWith interval lookup now, ← writes_newWith interval lookup now, ahead,
    List.map_map, List.map_map]
  rfl

end

/-! ### What reads find in the queue -/

/-- What reads get from the queued writes, or else from a store with nothing in it. -/
def foreseen (k : Keeper) (reads : List (Nat × PendingRead)) : List (Token × Option Bytes) :=
  reads.map fun x => (x.2.token, (k.queuedValue x.1 x.2).join)

/-- How many reads find something among the queued writes. -/
def hits (k : Keeper) (reads : List (Nat × PendingRead)) : Nat :=
  reads.countP fun x => (k.queuedValue x.1 x.2).isSome

theorem foreseen_append (k : Keeper) (xs ys : List (Nat × PendingRead)) :
    k.foreseen (xs ++ ys) = k.foreseen xs ++ k.foreseen ys :=
  List.map_append

theorem hits_append (k : Keeper) (xs ys : List (Nat × PendingRead)) :
    k.hits (xs ++ ys) = k.hits xs + k.hits ys :=
  List.countP_append

theorem hits_cons (k : Keeper) (x : Nat × PendingRead) (xs : List (Nat × PendingRead)) :
    k.hits (x :: xs) = k.hits xs + if (k.queuedValue x.1 x.2).isSome then 1 else 0 :=
  List.countP_cons

/-- Requests are numbered as they come. -/
structure Numbered (k : Keeper) : Prop where
  reads : ∀ x ∈ k.reads, x.1 < k.nextPlace
  writes : ∀ x ∈ k.writes, x.1 < k.nextPlace

theorem Numbered.enqueue (h : k.Numbered) (request : Request) : (k.enqueue request).Numbered := by
  have hlater : ∀ {α : Type} {xs : List (Nat × α)}, (∀ x ∈ xs, x.1 < k.nextPlace) →
      ∀ x ∈ xs, x.1 < k.nextPlace + 1 := fun hxs x hx => Nat.lt_succ_of_lt (hxs x hx)
  have hnew : ∀ {α : Type} {xs : List (Nat × α)} (y : α), (∀ x ∈ xs, x.1 < k.nextPlace) →
      ∀ x ∈ xs ++ [(k.nextPlace, y)], x.1 < k.nextPlace + 1 := by
    intro α xs y hxs x hx
    rcases List.mem_append.mp hx with hx | hx
    · exact hlater hxs x hx
    · rw [List.mem_singleton.mp hx]
      exact Nat.lt_succ_self _
  cases request with
  | read r => exact ⟨hnew r h.reads, hlater h.writes⟩
  | write w => exact ⟨hlater h.reads, hnew w h.writes⟩
  | stop => exact ⟨hlater h.reads, hlater h.writes⟩

/-- A new read finds the newest of all queued writes on its key. -/
theorem Numbered.queuedWrite_next (h : k.Numbered) (read : PendingRead) :
    k.queuedWrite k.nextPlace read =
      (k.writes.map (·.2)).reverse.find? (·.targets read.cache read.key) := by
  unfold queuedWrite
  rw [← List.map_reverse, List.find?_map]
  refine congrArg (Option.map _) (List.find?_congr fun x hx => ?_)
  simp [h.writes x (List.mem_reverse.mp hx)]

theorem queuedWrite_enqueue_write (w : PendingWrite) (hplace : place < k.nextPlace) :
    (k.enqueue (.write w)).queuedWrite place read = k.queuedWrite place read := by
  unfold queuedWrite enqueue
  simp [Nat.not_lt.mpr hplace.le]

theorem queuedValue_enqueue (h : k.Numbered) (request : Request) {x : Nat × PendingRead}
    (hx : x ∈ k.reads) : (k.enqueue request).queuedValue x.1 x.2 = k.queuedValue x.1 x.2 := by
  cases request with
  | write w =>
    unfold queuedValue
    rw [queuedWrite_enqueue_write w (h.reads x hx)]
    rfl
  | _ => rfl

theorem foreseen_enqueue (h : k.Numbered) (request : Request) :
    (k.enqueue request).foreseen k.reads = k.foreseen k.reads :=
  List.map_congr_left fun x hx => by rw [queuedValue_enqueue h request hx]

theorem hits_enqueue (h : k.Numbered) (request : Request) :
    (k.enqueue request).hits k.reads = k.hits k.reads :=
  List.countP_congr fun x hx => by rw [queuedValue_enqueue h request hx]

theorem foreseen_of_not_lookup (h : k.pendingLookup = false) (reads : List (Nat × PendingRead)) :
    k.foreseen reads = (reads.map (·.2)).map fun read => (read.token, none) := by
  rw [List.map_map]
  exact List.map_congr_left fun x _ => by simp [queuedValue, h]

theorem hits_of_not_lookup (h : k.pendingLookup = false) (reads : List (Nat × PendingRead)) :
    k.hits reads = 0 :=
  List.countP_eq_zero.mpr fun x _ => by simp [queuedValue, h]

section
variable (interval : Duration) (lookup : Bool) (now : Instant) (requests : List Request)

theorem numbered_newWith : (newWith interval lookup now requests).Numbered := by
  induction requests using List.reverseRecOn with
  | nil => exact ⟨nofun, nofun⟩
  | append_singleton requests request ih =>
    rw [newWith_concat]
    exact ih.enqueue request

/-- A read that has just come looks through all the writes before it. -/
theorem queuedValue_next (read : PendingRead) :
    (newWith interval true now requests).queuedValue (newWith interval true now requests).nextPlace read =
      ((Request.writes requests).reverse.find? (·.targets read.cache read.key)).map (·.visibleValue) := by
  unfold queuedValue
  rw [lookup_newWith, (numbered_newWith interval true now requests).queuedWrite_next, writes_newWith]
  rfl

/-- The reads get what they would get if requests were served strictly in order. -/
theorem foreseen_lookup :
    (newWith interval true now requests).foreseen (newWith interval true now requests).reads =
      Request.answersInOrder (fun _ => .ok []) [] requests := by
  induction requests using List.reverseRecOn with
  | nil => rfl
  | append_singleton requests request ih =>
    have hnumbered := numbered_newWith interval true now requests
    rw [newWith_concat, Request.answersInOrder_append, ← ih, ← foreseen_enqueue hnumbered request,
      List.nil_append]
    cases request with
    | read r =>
      have hvalue : ((newWith interval true now requests).queuedValue
          (newWith interval true now requests).nextPlace r).join =
            r.valueAfter (fun _ => .ok []) (Request.writes requests) := by
        rw [queuedValue_next, PendingRead.valueAfter]
        cases (Request.writes requests).reverse.find? (·.targets r.cache r.key) <;> rfl
      refine (foreseen_append ..).trans (congrArg (_ ++ [·]) ?_)
      rw [← hvalue]
      rfl
    | _ => exact (List.append_nil _).symm

/-- The reads that find something are those behind a write on their key. -/
theorem hits_lookup :
    (newWith interval true now requests).hits (newWith interval true now requests).reads =
      Request.readsBehindWrites [] requests := by
  induction requests using List.reverseRecOn with
  | nil => rfl
  | append_singleton requests request ih =>
    have hnumbered := numbered_newWith interval true now requests
    rw [newWith_concat, Request.readsBehindWrites_append, ← ih, ← hits_enqueue hnumbered request,
      List.nil_append]
    cases request with
    | read r =>
      have hfound : ((newWith interval true now requests).queuedValue
          (newWith interval true now requests).nextPlace r).isSome =
            (Request.writes requests).any (·.targets r.cache r.key) := by
        rw [queuedValue_next, Option.isSome_map, List.isSome_find?, List.any_reverse]
      refine (hits_append ..).trans (congrArg (Nat.add _) ?_)
      rw [Request.readsBehindWrites, ← hfound]
      exact List.countP_singleton
    | _ => rfl

theorem foreseen_newWith :
    (newWith interval lookup now requests).foreseen (newWith interval lookup now requests).reads =
      if lookup then Request.answersInOrder (fun _ => .ok []) [] requests
      else (Request.allReads requests).map fun read => (read.token, none) := by
  cases lookup with
  | true => exact foreseen_lookup interval now requests
  | false =>
    rw [foreseen_of_not_lookup (lookup_newWith interval false now requests), reads_newWith]
    rfl

theorem hits_newWith :
    (newWith interval lookup now requests).hits (newWith interval lookup now requests).reads =
      if lookup then Request.readsBehindWrites [] requests else 0 := by
  cases lookup with
  | true => exact hits_lookup interval now requests
  | false => exact hits_of_not_lookup (lookup_newWith interval false now requests) _

end

end Keeper

namespace System

variable {S W : Type} {start s s' : System S W}

/-- The round that a step begins: it takes the keeper from choosing to what it has chosen. -/
def begins (s s' : System S W) : List Round :=
  match s.stage, s'.stage with
  | .working _ .choosing, .working _ task => [task.round]
  | _, _ => []

/-- A run in which nothing is sent and nothing fails that the store does not fail at: the number of the
steps, and the rounds. -/
inductive Rounds [Store S W] (start : System S W) : Nat → List Round → System S W → Prop
  | start : Rounds start 0 [] start
  | step {steps rounds s s'} : Rounds start steps rounds s → s.step none = some s' →
      Rounds start (steps + 1) (rounds ++ s.begins s') s'
  | tick {steps rounds s} (nanos : Nat) : Rounds start steps rounds s →
      Rounds start steps rounds (s.tick nanos)
  | disconnect {steps rounds s} : Rounds start steps rounds s → Rounds start steps rounds s.disconnect
  /-- Callers leave their marks, but do not touch the counts of the summary. -/
  | note {steps rounds s} (status : Status) (startedAt : Instant) : Rounds start steps rounds s →
      status.summary.map Summary.counts = s.status.summary.map Summary.counts →
      Rounds start steps rounds { s with status, startedAt }

theorem Rounds.run [Store S W] {steps : Nat} {rounds : List Round}
    (h : Rounds start steps rounds s) : Run ⟨fun _ _ => True, fun _ _ => False⟩ start [] s := by
  induction h with
  | start => exact .start
  | step _ hstep ih => exact ih.step trivial hstep
  | tick nanos _ ih => exact ih.tick nanos
  | disconnect _ ih => exact ih.disconnect
  | note status startedAt _ _ ih => exact ih.note status startedAt

theorem Rounds.proceed [Store S W] {steps : Nat} {rounds : List Round}
    (h : Rounds start steps rounds s) (n : Nat) :
    ∃ steps' rounds', Rounds start steps' rounds' (s.proceed n) := by
  induction n generalizing s steps rounds with
  | zero => exact ⟨_, _, h⟩
  | succ n ih =>
    unfold System.proceed
    split
    · exact ih (h.step ‹_›)
    · exact ⟨_, _, h⟩

end System

end HistoryKeeper
