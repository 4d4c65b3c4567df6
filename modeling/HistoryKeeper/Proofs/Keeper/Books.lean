import HistoryKeeper.Proofs.Keeper.InOrder
import HistoryKeeper.Proofs.Keeper.Moves

/-!
# Where requests are

`Books` accounts for every request that was sent to a keeper: it is still on its way, or it was taken
in, and then it is in a queue, in hand, or done with. The account of the reads says in addition what
each of them is going to get, so that it holds once and for all what was answered
(`Books.answers`): the newest write on the key among those that are queued and came before the read,
or else what the writes that were applied have left. It stays so because no write is applied while a
read is outstanding.
-/

namespace HistoryKeeper

namespace Task

/-- Requests that were received and are not taken in yet. -/
def received : Task → List Request
  | .reacquiring (.ok (some request)) => [request]
  | _ => []

/-- The read in hand, with its place. -/
def reading : Task → List (Nat × PendingRead)
  | .answering place read => [(place, read)]
  | _ => []

/-- The write in hand. -/
def writing : Task → List PendingWrite
  | .applying write => [write]
  | _ => []

end Task

namespace Stage

variable {S W : Type}

/-- Requests that were received in idle time and are not taken in yet. -/
def received : Stage S W → List Request
  | .working _ task => task.received
  | _ => []

/-- The read in hand, with its place. -/
def reading : Stage S W → List (Nat × PendingRead)
  | .working _ task => task.reading
  | _ => []

end Stage

/-- Where the requests are, and what has come of them. -/
structure Queues where
  inbox : List Request
  /-- Received, but not taken in. -/
  held : List Request
  /-- Reads with their places, the one in hand first. -/
  outstanding : List (Nat × PendingRead)
  /-- The write in hand. -/
  writing : List PendingWrite
  queued : List (Nat × PendingWrite)
  nextPlace : Nat
  /-- How many writes were applied. -/
  count : Nat
  lookup : Bool
  answers : List (Token × Option Bytes)

def System.queues {S W : Type} (s : System S W) (task : Task) : Queues :=
  { inbox := s.inbox.queue
    held := task.received
    outstanding := task.reading ++ s.keeper.reads
    writing := task.writing
    queued := s.keeper.writes
    nextPlace := s.keeper.nextPlace
    count := s.keeper.tally.writesApplied
    lookup := s.keeper.pendingLookup
    answers := s.answers }

namespace Queues

/-- The queued writes that a read at a place can see. -/
def before (q : Queues) (place : Nat) : List PendingWrite :=
  (q.queued.filter (·.1 < place)).map (·.2)

/-- The answer that an outstanding read is going to get. -/
def expected (content : String → CacheContent) (applied : List PendingWrite) (q : Queues)
    (x : Nat × PendingRead) : Token × Option Bytes :=
  (x.2.token, x.2.valueAfter content (applied ++ q.before x.1))

/-- A request is taken in. -/
def enqueue (q : Queues) (request : Request) : Queues :=
  match request with
  | .read r => { q with
      outstanding := q.outstanding ++ [(q.nextPlace, r)]
      nextPlace := q.nextPlace + 1 }
  | .write w => { q with
      queued := q.queued ++ [(q.nextPlace, w)]
      nextPlace := q.nextPlace + 1 }
  | .stop => { q with nextPlace := q.nextPlace + 1 }

end Queues

structure Books (content : String → CacheContent) (sent taken : List Request)
    (applied : List PendingWrite) (q : Queues) : Prop where
  sent : sent = taken ++ q.held ++ q.inbox
  writes : Request.writes taken = applied ++ q.writing ++ q.queued.map (·.2)
  count : q.count = applied.length
  place : q.nextPlace = taken.length
  queuedPlaces : ∀ x ∈ q.queued, x.1 < q.nextPlace
  readPlaces : ∀ x ∈ q.outstanding, x.1 < q.nextPlace
  reads : ∀ x ∈ q.outstanding, .read x.2 ∈ taken
  /-- A write is only taken in hand when no read is left. -/
  order : q.writing = [] ∨ q.outstanding = []
  answers : q.lookup = true → q.answers ++ q.outstanding.map (q.expected content applied) =
    Request.answersInOrder content [] taken

namespace Books

variable {content : String → CacheContent} {sent taken : List Request}
  {applied : List PendingWrite} {q : Queues} {request : Request}

theorem start (content : String → CacheContent) (lookup : Bool) :
    Books content [] [] [] ⟨[], [], [], [], [], 0, 0, lookup, []⟩ :=
  ⟨rfl, rfl, rfl, rfl, nofun, nofun, nofun, Or.inl rfl, fun _ => rfl⟩

theorem applied_prefix (h : Books content sent taken applied q) :
    applied <+: Request.writes sent := by
  rw [h.sent, Request.writes_append, Request.writes_append, h.writes]
  simp only [List.append_assoc]
  exact List.prefix_append ..

theorem answers_prefix (h : Books content sent taken applied q) (hlookup : q.lookup = true) :
    q.answers <+: Request.answersInOrder content [] sent := by
  rw [h.sent, List.append_assoc, Request.answersInOrder_append, ← h.answers hlookup,
    List.append_assoc]
  exact List.prefix_append ..

theorem outstanding_sent (h : Books content sent taken applied q) {x : Nat × PendingRead}
    (hx : x ∈ q.outstanding) : .read x.2 ∈ sent := by
  rw [h.sent, List.append_assoc]
  exact List.mem_append_left _ (h.reads x hx)

theorem writing_sent (h : Books content sent taken applied q) {w : PendingWrite}
    (hw : w ∈ q.writing) : .write w ∈ sent := by
  have hmem : w ∈ Request.writes taken := by
    rw [h.writes, List.append_assoc]
    exact List.mem_append_right _ (List.mem_append_left _ hw)
  rw [h.sent, List.append_assoc]
  exact List.mem_append_left _ (Request.mem_writes.mp hmem)

/-! ### Arrival -/

theorem send (h : Books content sent taken applied q) (request : Request) :
    Books content (sent ++ [request]) taken applied { q with inbox := q.inbox ++ [request] } :=
  ⟨by rw [h.sent]; simp, h.writes, h.count, h.place, h.queuedPlaces, h.readPlaces, h.reads,
    h.order, h.answers⟩

theorem hold {inbox : List Request} (h : Books content sent taken applied q)
    (hinbox : q.inbox = request :: inbox) (hheld : q.held = []) :
    Books content sent taken applied { q with inbox, held := [request] } :=
  ⟨by rw [h.sent, hinbox, hheld]; simp, h.writes, h.count, h.place, h.queuedPlaces, h.readPlaces,
    h.reads, h.order, h.answers⟩

theorem before_of_le (h : Books content sent taken applied q) {n : Nat} (hn : q.nextPlace ≤ n) :
    q.before n = q.queued.map (·.2) := by
  rw [Queues.before, List.filter_eq_self.mpr]
  intro x hx
  have := h.queuedPlaces x hx
  exact decide_eq_true (by omega)

theorem enqueue_read {r : PendingRead} (h : Books content sent taken applied q)
    (hheld : q.held = [.read r]) (hwriting : q.writing = []) :
    Books content sent (taken ++ [.read r]) applied
      (Queues.enqueue { q with held := [] } (.read r)) := by
  refine ⟨?_, ?_, h.count, ?_, fun x hx => ?_, fun x hx => ?_, fun x hx => ?_, Or.inl hwriting,
    fun hlookup => ?_⟩
  · rw [h.sent, hheld, Queues.enqueue]
    simp
  · rw [Request.writes_append, h.writes]
    exact List.append_nil _
  · rw [List.length_append, ← h.place]
    rfl
  · exact Nat.lt_succ_of_lt (h.queuedPlaces x hx)
  · rcases List.mem_append.mp hx with hx | hx
    · exact Nat.lt_succ_of_lt (h.readPlaces x hx)
    · rw [List.mem_singleton.mp hx]
      exact Nat.lt_succ_self _
  · rcases List.mem_append.mp hx with hx | hx
    · exact List.mem_append_left _ (h.reads x hx)
    · rw [List.mem_singleton.mp hx]
      exact List.mem_append_right _ (List.mem_singleton_self _)
  · have hvalue : q.expected content applied (q.nextPlace, r) =
        (r.token, r.valueAfter content (Request.writes taken)) := by
      rw [Queues.expected, h.before_of_le (Nat.le_refl _), h.writes, hwriting, List.append_nil]
    rw [Request.answersInOrder_append, ← h.answers hlookup]
    show q.answers ++ (q.outstanding ++ [(q.nextPlace, r)]).map (q.expected content applied) = _
    rw [List.map_append, List.map_singleton, hvalue, List.append_assoc]
    rfl

theorem enqueue_write {w : PendingWrite} (h : Books content sent taken applied q)
    (hheld : q.held = [.write w]) (hwriting : q.writing = []) :
    Books content sent (taken ++ [.write w]) applied
      (Queues.enqueue { q with held := [] } (.write w)) := by
  refine ⟨?_, ?_, h.count, ?_, fun x hx => ?_, fun x hx => ?_, fun x hx => ?_, Or.inl hwriting,
    fun hlookup => ?_⟩
  · rw [h.sent, hheld, Queues.enqueue]
    simp
  · rw [Request.writes_append, h.writes, Queues.enqueue]
    simp [Request.writes]
  · rw [List.length_append, ← h.place]
    rfl
  · rcases List.mem_append.mp hx with hx | hx
    · exact Nat.lt_succ_of_lt (h.queuedPlaces x hx)
    · rw [List.mem_singleton.mp hx]
      exact Nat.lt_succ_self _
  · exact Nat.lt_succ_of_lt (h.readPlaces x hx)
  · exact List.mem_append_left _ (h.reads x hx)
  · rw [Request.answersInOrder_append, ← h.answers hlookup]
    -- the new write comes after every outstanding read
    have hsame : ∀ x ∈ q.outstanding,
        (Queues.enqueue { q with held := [] } (.write w)).expected content applied x =
          q.expected content applied x := by
      intro x hx
      have hplace := h.readPlaces x hx
      have hnot : ¬ q.nextPlace < x.1 := by omega
      unfold Queues.expected Queues.before Queues.enqueue
      rw [List.filter_append, List.filter_cons_of_neg (by simpa using hnot), List.filter_nil,
        List.append_nil]
    show q.answers ++ q.outstanding.map _ = _
    rw [List.map_congr_left hsame]
    exact (List.append_nil _).symm

theorem enqueue_stop (h : Books content sent taken applied q) (hheld : q.held = [.stop]) :
    Books content sent (taken ++ [.stop]) applied
      (Queues.enqueue { q with held := [] } .stop) := by
  refine ⟨?_, ?_, h.count, ?_, fun x hx => Nat.lt_succ_of_lt (h.queuedPlaces x hx),
    fun x hx => Nat.lt_succ_of_lt (h.readPlaces x hx),
    fun x hx => List.mem_append_left _ (h.reads x hx), h.order, fun hlookup => ?_⟩
  · rw [h.sent, hheld, Queues.enqueue]
    simp
  · rw [Request.writes_append, h.writes]
    exact List.append_nil _
  · rw [List.length_append, ← h.place]
    rfl
  · rw [Request.answersInOrder_append, ← h.answers hlookup]
    exact (List.append_nil _).symm

theorem enqueue (h : Books content sent taken applied q) (hheld : q.held = [request])
    (hwriting : q.writing = []) : Books content sent (taken ++ [request]) applied
      (Queues.enqueue { q with held := [] } request) := by
  cases request with
  | read r => exact h.enqueue_read hheld hwriting
  | write w => exact h.enqueue_write hheld hwriting
  | stop => exact h.enqueue_stop hheld

theorem pickWrite {p : Nat} {w : PendingWrite} {queued : List (Nat × PendingWrite)}
    (h : Books content sent taken applied q) (hqueued : q.queued = (p, w) :: queued)
    (hwriting : q.writing = []) (hreads : q.outstanding = []) :
    Books content sent taken applied { q with queued, writing := [w] } := by
  refine ⟨h.sent, ?_, h.count, h.place, fun x hx => ?_, h.readPlaces, h.reads,
    Or.inr hreads, fun hlookup => ?_⟩
  · rw [h.writes, hwriting, hqueued]
    simp
  · exact h.queuedPlaces x (by rw [hqueued]; exact List.mem_cons_of_mem _ hx)
  · rw [← h.answers hlookup, hreads]
    rfl

theorem apply {w : PendingWrite} (h : Books content sent taken applied q)
    (hwriting : q.writing = [w]) :
    Books content sent taken (applied ++ [w]) { q with writing := [], count := q.count + 1 } := by
  have hreads : q.outstanding = [] := h.order.resolve_left (by simp [hwriting])
  refine ⟨h.sent, ?_, ?_, h.place, h.queuedPlaces, h.readPlaces, h.reads, Or.inl rfl,
    fun hlookup => ?_⟩
  · rw [h.writes, hwriting, List.append_nil]
  · rw [h.count, List.length_append, List.length_singleton]
  · rw [← h.answers hlookup, hreads]
    rfl

/-- The oldest outstanding read gets what it is going to get. -/
theorem answer {place : Nat} {r : PendingRead} {outstanding : List (Nat × PendingRead)}
    (h : Books content sent taken applied q) (value : Option Bytes)
    (houtstanding : q.outstanding = (place, r) :: outstanding)
    (hvalue : q.lookup = true → value = r.valueAfter content (applied ++ q.before place)) :
    Books content sent taken applied
      { q with outstanding, answers := q.answers ++ [(r.token, value)] } := by
  have hmem : ∀ x ∈ outstanding, x ∈ q.outstanding := fun x hx => by
    rw [houtstanding]
    exact List.mem_cons_of_mem _ hx
  refine ⟨h.sent, h.writes, h.count, h.place, h.queuedPlaces,
    fun x hx => h.readPlaces x (hmem x hx), fun x hx => h.reads x (hmem x hx), ?_,
    fun hlookup => ?_⟩
  · exact h.order.imp_right fun hnone => by rw [houtstanding] at hnone; cases hnone
  · rw [← h.answers hlookup, houtstanding, List.map_cons, hvalue hlookup, List.append_assoc]
    rfl

end Books

namespace System

variable {S W : Type} {s : System S W} {content : String → CacheContent}
  {applied : List PendingWrite} {place : Nat} {read : PendingRead} {task : Task}

theorem queuedWrite_eq (s : System S W) (task : Task) (place : Nat) (read : PendingRead) :
    s.keeper.queuedWrite place read =
      ((s.queues task).before place).reverse.find? (·.targets read.cache read.key) := by
  unfold Keeper.queuedWrite Queues.before
  rw [← List.map_reverse, List.find?_map, ← List.filter_reverse, List.find?_filter]
  have hconcerns : (fun x : Nat × PendingWrite => decide (decide (x.1 < place) = true ∧
      ((fun w => w.targets read.cache read.key) ∘ fun x => x.2) x = true)) =
      fun x => x.1 < place && x.2.targets read.cache read.key := by
    funext x
    simp
  rw [hconcerns]
  rfl

theorem valueAfter_of_queuedValue {value : Option Bytes}
    (h : s.keeper.queuedValue place read = some value) (content : String → CacheContent)
    (applied : List PendingWrite) (task : Task) :
    value = read.valueAfter content (applied ++ (s.queues task).before place) := by
  unfold Keeper.queuedValue at h
  split at h
  · obtain ⟨w, hw, rfl⟩ := Option.map_eq_some_iff.mp h
    rw [PendingRead.valueAfter_append, ← queuedWrite_eq s task place read, hw]
  · cases h

theorem valueAfter_of_not_queued (h : s.keeper.queuedValue place read = none)
    (hlookup : s.keeper.pendingLookup = true) (content : String → CacheContent)
    (applied : List PendingWrite) (task : Task) :
    read.valueAfter content (applied ++ (s.queues task).before place) =
      read.valueAfter content applied := by
  unfold Keeper.queuedValue at h
  rw [if_pos hlookup, Option.map_eq_none_iff] at h
  rw [PendingRead.valueAfter_append, ← queuedWrite_eq s task place read, h]

end System

end HistoryKeeper
