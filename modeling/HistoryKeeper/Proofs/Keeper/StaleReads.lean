import HistoryKeeper.Proofs.Keeper.Closing
import HistoryKeeper.Proofs.Store.PlainNames

/-!
# Reads without the lookup

A keeper that does not look into the queued writes answers a read from its store, which may be behind.
`System.Recorded` is a run that notes, for each answer, how many writes were applied when it was
given. The notes grow along the reads, and each answer is what its key has after as many writes as were
noted, all of them sent before the read (`System.Stale`). The invariant that carries this is that the
reads without an answer are the last ones that were sent, and that no write behind one of them is
applied.
-/

namespace HistoryKeeper

namespace Request

/-- The reads among requests, each with the number of the writes before it. -/
def reads : (before : Nat) → List Request → List (Nat × PendingRead)
  | _, [] => []
  | before, .read r :: requests => (before, r) :: reads before requests
  | before, .write _ :: requests => reads (before + 1) requests
  | before, .stop :: requests => reads before requests

theorem reads_append (before : Nat) (xs ys : List Request) :
    reads before (xs ++ ys) = reads before xs ++ reads (before + (writes xs).length) ys := by
  induction xs generalizing before with
  | nil => rfl
  | cons request xs ih =>
    cases request with
    | read r => exact congrArg ((before, r) :: ·) (ih before)
    | write w =>
      have hlength : before + (writes (.write w :: xs)).length =
          before + 1 + (writes xs).length := by
        simp [writes]
        omega
      rw [hlength]
      exact ih (before + 1)
    | stop => exact ih before

theorem map_reads (before : Nat) (requests : List Request) :
    (reads before requests).map (·.2) = (reads 0 requests).map (·.2) := by
  have hsame : ∀ m n, (reads m requests).map (·.2) = (reads n requests).map (·.2) := by
    induction requests with
    | nil => exact fun _ _ => rfl
    | cons request requests ih =>
      intro m n
      cases request with
      | read r => exact congrArg (r :: ·) (ih m n)
      | write w => exact ih (m + 1) (n + 1)
      | stop => exact ih m n
  exact hsame before 0

theorem le_of_mem_reads {before : Nat} {requests : List Request} {x : Nat × PendingRead}
    (h : x ∈ reads before requests) : before ≤ x.1 := by
  induction requests generalizing before with
  | nil => cases h
  | cons request requests ih =>
    cases request with
    | read r =>
      rcases List.mem_cons.mp h with rfl | h
      · exact Nat.le_refl _
      · exact ih h
    | write w =>
      exact (Nat.le_succ before).trans (ih h)
    | stop => exact ih h

end Request

/-- The value that a key has in the entries of a cache after writes. -/
def PendingRead.Finds (content : String → CacheContent) (ws : List PendingWrite) (read : PendingRead)
    (value : Option Bytes) : Prop :=
  ∃ entries, PendingWrite.contentAfter content ws read.cache.name = .ok entries ∧
    value = entries.get? read.key

namespace Stage

variable {S W : Type}

/-- Requests can still be served. -/
def Serves : Stage S W → Prop
  | .opening _ => True
  | .working _ task => task.InLoop
  | _ => False

end Stage

namespace System

variable {S W : Type}

/-- The reads without an answer, in the order in which they were sent. -/
def awaiting (s : System S W) : List PendingRead :=
  (s.stage.reading ++ s.keeper.reads).map (·.2) ++
    (Request.reads 0 (s.stage.received ++ s.inbox.queue)).map (·.2)

/-- How many writes were applied, for each answer that a step has given. -/
def noted (s s' : System S W) : List Nat :=
  List.replicate (s'.answers.length - s.answers.length) s.keeper.tally.writesApplied

theorem noted_quiet {s s' : System S W} (h : s'.answers = s.answers) : s.noted s' = [] := by
  unfold noted
  rw [h, Nat.sub_self, List.replicate_zero]

theorem noted_answer {s s' : System S W} {answer : Token × Option Bytes}
    (h : s'.answers = s.answers ++ [answer]) : s.noted s' = [s.keeper.tally.writesApplied] := by
  unfold noted
  rw [h, List.length_append, List.length_singleton, Nat.add_sub_cancel_left, List.replicate_one]

/-- A run that notes for each answer how many writes were applied when it was given. -/
inductive Recorded [Store S W] (around : Surroundings S W) (start : System S W) :
    List Request → List Nat → System S W → Prop
  | start : Recorded around start [] [] start
  | step {sent seen s s' interference} : Recorded around start sent seen s →
      around.steps s interference → s.step interference = some s' →
      Recorded around start sent (seen ++ s.noted s') s'
  | send {sent seen s s' request} : Recorded around start sent seen s → s.send request = some s' →
      Recorded around start (sent ++ [request]) seen s'
  | tick {sent seen s} (nanos : Nat) : Recorded around start sent seen s →
      Recorded around start sent seen (s.tick nanos)
  | disconnect {sent seen s} : Recorded around start sent seen s →
      Recorded around start sent seen s.disconnect
  | change {sent seen s} (world : W) : Recorded around start sent seen s →
      around.others s.world world → Recorded around start sent seen { s with world }
  | note {sent seen s} (status : Status) (startedAt : Instant) : Recorded around start sent seen s →
      Recorded around start sent seen { s with status, startedAt }

section
variable [Store S W] {around : Surroundings S W} {start s : System S W} {sent : List Request}
  {seen : List Nat}

theorem Recorded.run (h : Recorded around start sent seen s) : Run around start sent s := by
  induction h with
  | start => exact .start
  | step _ hsteps hstep ih => exact ih.step hsteps hstep
  | send _ hsend ih => exact ih.send hsend
  | tick nanos _ ih => exact ih.tick nanos
  | disconnect _ ih => exact ih.disconnect
  | change world _ hchange ih => exact ih.change world hchange
  | note status startedAt _ ih => exact ih.note status startedAt

theorem Run.recorded (h : Run around start sent s) : ∃ seen, Recorded around start sent seen s := by
  induction h with
  | start => exact ⟨[], .start⟩
  | step _ hsteps hstep ih => exact ih.imp' _ fun _ h => h.step hsteps hstep
  | send _ hsend ih => exact ih.imp fun _ h => h.send hsend
  | tick nanos _ ih => exact ih.imp fun _ h => h.tick nanos
  | disconnect _ ih => exact ih.imp fun _ h => h.disconnect
  | change world _ hchange ih => exact ih.imp fun _ h => h.change world hchange
  | note status startedAt _ ih => exact ih.imp fun _ h => h.note status startedAt

end

/-! ### What an answer has seen -/

section
variable {s s' : System S W} {store store' : S} {initial : String → CacheContent}
  {sent : List Request} {seen : List Nat}

/-- What is known of a run in which no answer comes from the queued writes. -/
structure Stale (initial : String → CacheContent) (sent : List Request) (seen : List Nat)
    (s : System S W) : Prop where
  length : seen.length = s.answers.length
  grows : seen.Pairwise (· ≤ ·)
  bound : ∀ n ∈ seen, n ≤ s.keeper.tally.writesApplied
  answered : ∀ {i : Nat} {token : Token} {value : Option Bytes}, s.answers[i]? = some (token, value) →
    ∃ n x, seen[i]? = some n ∧ (Request.reads 0 sent)[i]? = some x ∧ n ≤ x.1 ∧
      token = x.2.token ∧ x.2.Finds initial ((Request.writes sent).take n) value
  /-- The reads without an answer are the last ones. -/
  rest : s.stage.Serves → ((Request.reads 0 sent).drop s.answers.length).map (·.2) = s.awaiting
  /-- No write behind one of them is applied. -/
  unapplied : s.stage.Serves → ∀ x ∈ (Request.reads 0 sent).drop s.answers.length,
    s.keeper.tally.writesApplied ≤ x.1

theorem stale_start {keeper : Keeper} {opener : Opener S W} {world : W} {status : Status}
    {clock : Instant} (hreads : keeper.reads = []) :
    Stale initial [] [] (System.start keeper opener world .empty status clock) := by
  refine ⟨rfl, .nil, nofun, nofun, fun _ => ?_, nofun⟩
  show [] = (keeper.reads.map (·.2) ++ [] : List PendingRead)
  rw [hreads]
  rfl

theorem Stale.quiet (h : Stale initial sent seen s) (hanswers : s'.answers = s.answers)
    (hcount : s'.keeper.tally.writesApplied = s.keeper.tally.writesApplied)
    (hawaiting : s'.stage.Serves → s.stage.Serves ∧ s'.awaiting = s.awaiting) :
    Stale initial sent (seen ++ s.noted s') s' := by
  rw [noted_quiet hanswers, List.append_nil]
  refine ⟨hanswers ▸ h.length, h.grows, hcount ▸ h.bound, fun ha => h.answered (hanswers ▸ ha),
    fun hserves => ?_, fun hserves => ?_⟩
  · obtain ⟨hserves, hsame⟩ := hawaiting hserves
    rw [hanswers, hsame]
    exact h.rest hserves
  · rw [hanswers, hcount]
    exact h.unapplied (hawaiting hserves).1

/-- A request that is taken in keeps its place among the reads without an answer. -/
theorem reads_enqueue (k : Keeper) (request : Request) (requests : List Request) :
    (k.enqueue request).reads.map (·.2) ++ (Request.reads 0 requests).map (·.2) =
      k.reads.map (·.2) ++ (Request.reads 0 (request :: requests)).map (·.2) := by
  cases request with
  | read r => simp [Keeper.enqueue, Request.reads]
  | write w => exact congrArg (k.reads.map (·.2) ++ ·) (Request.map_reads 1 requests).symm
  | stop => rfl

theorem Stale.answered_concat (h : Stale initial sent seen s) {x : Nat × PendingRead} {n i : Nat}
    {value found : Option Bytes} {token : Token}
    (hx : (Request.reads 0 sent)[s.answers.length]? = some x) (hle : n ≤ x.1)
    (hfinds : x.2.Finds initial ((Request.writes sent).take n) value)
    (hi : (s.answers ++ [(x.2.token, value)])[i]? = some (token, found)) :
    ∃ m y, (seen ++ [n])[i]? = some m ∧ (Request.reads 0 sent)[i]? = some y ∧ m ≤ y.1 ∧
      token = y.2.token ∧ y.2.Finds initial ((Request.writes sent).take m) found := by
  by_cases hold : i < s.answers.length
  · rw [List.getElem?_append_left hold] at hi
    rw [List.getElem?_append_left (h.length.symm ▸ hold)]
    exact h.answered hi
  · have hlast : i = s.answers.length := by
      have hlt := (List.getElem?_eq_some_iff.mp hi).1
      rw [List.length_append, List.length_singleton] at hlt
      omega
    subst hlast
    rw [List.getElem?_concat_length] at hi
    cases hi
    rw [← h.length, List.getElem?_concat_length, h.length]
    exact ⟨n, x, rfl, hx, hle, rfl, hfinds⟩

/-- The first of the reads without an answer gets one from the store. -/
theorem Stale.answer {place : Nat} {read : PendingRead} {value : Option Bytes}
    (h : Stale initial sent seen s) (hstage : s.stage = .working store (.answering place read))
    (hfinds : read.Finds initial ((Request.writes sent).take s.keeper.tally.writesApplied) value)
    (hstage' : s'.stage = .working store' .collecting)
    (hanswers : s'.answers = s.answers ++ [(read.token, value)])
    (hcount : s'.keeper.tally.writesApplied = s.keeper.tally.writesApplied)
    (hreads : s'.keeper.reads = s.keeper.reads) (hinbox : s'.inbox = s.inbox) :
    Stale initial sent (seen ++ s.noted s') s' := by
  rw [noted_answer hanswers]
  have hserves : s.stage.Serves := by
    rw [hstage]
    trivial
  have hawaiting : s.awaiting = read :: s'.awaiting := by
    simp only [awaiting, hstage, hstage', hreads, hinbox]
    rfl
  obtain ⟨x, rest, hdrop, hx, hrest⟩ := List.map_eq_cons_iff.mp ((h.rest hserves).trans hawaiting)
  have hbefore := h.unapplied hserves
  rw [hdrop] at hbefore
  have hdrop' : (Request.reads 0 sent).drop s'.answers.length = rest := by
    rw [hanswers, List.length_append, List.length_singleton, ← List.drop_drop, hdrop]
    rfl
  refine ⟨?_, ?_, fun n hn => ?_, fun {i token found} hi => ?_, fun _ => ?_, fun _ y hy => ?_⟩
  · rw [hanswers, List.length_append, List.length_append, h.length]
    rfl
  · refine List.pairwise_append.mpr ⟨h.grows, List.pairwise_singleton .., fun n hn m hm => ?_⟩
    rw [List.mem_singleton.mp hm]
    exact h.bound n hn
  · rw [hcount]
    rcases List.mem_append.mp hn with hn | hn
    · exact h.bound n hn
    · exact (List.mem_singleton.mp hn).le
  · have hx' : (Request.reads 0 sent)[s.answers.length]? = some x := by
      rw [← List.head?_drop, hdrop]
      rfl
    rw [hanswers, ← hx] at hi
    exact h.answered_concat hx' (hbefore x List.mem_cons_self) (hx ▸ hfinds) hi
  · rw [hdrop', hrest]
  · rw [hcount]
    rw [hdrop'] at hy
    exact hbefore y (List.mem_cons_of_mem _ hy)

/-- A write is applied only when the reads without an answer are all behind it. -/
theorem Stale.apply {taken : List Request} {applied : List PendingWrite} {write : PendingWrite}
    (h : Stale initial sent seen s) (hstage : s.stage = .working store (.applying write))
    (hbooks : Books initial sent taken applied (s.queues (.applying write)))
    (hstage' : s'.stage = .working store' .collecting) (hanswers : s'.answers = s.answers)
    (hcount : s'.keeper.tally.writesApplied = s.keeper.tally.writesApplied + 1)
    (hreads : s'.keeper.reads = s.keeper.reads) (hinbox : s'.inbox = s.inbox) :
    Stale initial sent (seen ++ s.noted s') s' := by
  rw [noted_quiet hanswers, List.append_nil]
  have hserves : s.stage.Serves := by
    rw [hstage]
    trivial
  have hawaiting : s'.awaiting = s.awaiting := by
    simp only [awaiting, hstage, hstage', hreads, hinbox]
    rfl
  have hnone : s.keeper.reads = [] := hbooks.order.resolve_left nofun
  have hsent : sent = taken ++ s.inbox.queue := by
    rw [hbooks.sent]
    exact congrArg (· ++ s.inbox.queue) (List.append_nil taken)
  -- so the reads without an answer are those in the inbox
  have hbehind : (Request.reads 0 sent).drop s.answers.length =
      Request.reads (Request.writes taken).length s.inbox.queue := by
    have hsame : ((Request.reads 0 sent).drop s.answers.length).length =
        (Request.reads (Request.writes taken).length s.inbox.queue).length := by
      have hmap := congrArg List.length (h.rest hserves)
      have hmap' := congrArg List.length (Request.map_reads (Request.writes taken).length s.inbox.queue)
      simp only [List.length_map] at hmap hmap'
      rw [hmap, hmap']
      simp [awaiting, hstage, hnone, Stage.reading, Task.reading, Stage.received, Task.received]
    refine (List.suffix_of_suffix_length_le (List.drop_suffix ..) ?_ hsame.le).eq_of_length hsame
    rw [hsent, Request.reads_append, Nat.zero_add]
    exact List.suffix_append ..
  have hlt : s.keeper.tally.writesApplied < (Request.writes taken).length := by
    rw [hbooks.writes, show s.keeper.tally.writesApplied = applied.length from hbooks.count]
    simp [queues, Task.writing]
  refine ⟨hanswers ▸ h.length, h.grows, fun n hn => ?_, fun hi => h.answered (hanswers ▸ hi),
    fun _ => ?_, fun _ x hx => ?_⟩
  · have := h.bound n hn
    omega
  · rw [hanswers, hawaiting]
    exact h.rest hserves
  · rw [hanswers, hbehind] at hx
    have := Request.le_of_mem_reads hx
    omega

theorem Stale.length_le (h : Stale initial sent seen s) :
    s.answers.length ≤ (Request.reads 0 sent).length := by
  by_contra hlt
  have hlast : (Request.reads 0 sent).length < s.answers.length := by omega
  obtain ⟨-, x, -, hx, -⟩ := h.answered (List.getElem?_eq_getElem hlast)
  have hbound := (List.getElem?_eq_some_iff.mp hx).1
  omega

theorem Stale.send {request : Request} (h : Stale initial sent seen s)
    (hcount : s.keeper.tally.writesApplied ≤ (Request.writes sent).length)
    (hsend : s.send request = some s') : Stale initial (sent ++ [request]) seen s' := by
  obtain ⟨inbox, hinbox, rfl⟩ := Option.map_eq_some_iff.mp hsend
  have hqueue : inbox.queue = s.inbox.queue ++ [request] := by
    unfold Inbox.send at hinbox
    split at hinbox <;> cases hinbox
    rfl
  have hreads : Request.reads 0 (sent ++ [request]) =
      Request.reads 0 sent ++ Request.reads (Request.writes sent).length [request] := by
    rw [Request.reads_append, Nat.zero_add]
  refine ⟨h.length, h.grows, h.bound, fun {i token value} hi => ?_, fun hserves => ?_,
    fun hserves x hx => ?_⟩
  · obtain ⟨n, x, hn, hx, hle, htoken, hfinds⟩ := h.answered hi
    refine ⟨n, x, hn, ?_, hle, htoken, ?_⟩
    · rw [hreads, List.getElem?_append_left (List.getElem?_eq_some_iff.mp hx).1]
      exact hx
    · rw [Request.writes_append, List.take_append_of_le_length
        ((h.bound n (List.mem_of_getElem? hn)).trans hcount)]
      exact hfinds
  · have hafter : ∀ requests, (Request.reads 0 (requests ++ [request])).map (·.2) =
        (Request.reads 0 requests).map (·.2) ++ (Request.reads 0 [request]).map (·.2) := by
      intro requests
      rw [Request.reads_append, List.map_append, Request.map_reads (0 + _)]
    rw [hreads, List.drop_append_of_le_length h.length_le, List.map_append, h.rest hserves,
      Request.map_reads (Request.writes sent).length]
    simp only [awaiting, hqueue]
    rw [← List.append_assoc s.stage.received, hafter, List.append_assoc]
  · rw [hreads, List.drop_append_of_le_length h.length_le] at hx
    rcases List.mem_append.mp hx with hx | hx
    · exact h.unapplied hserves x hx
    · exact hcount.trans (Request.le_of_mem_reads hx)

theorem Stale.congr (h : Stale initial sent seen s) (hstage : s'.stage = s.stage)
    (hkeeper : s'.keeper = s.keeper) (hqueue : s'.inbox.queue = s.inbox.queue)
    (hanswers : s'.answers = s.answers) : Stale initial sent seen s' := by
  have hawaiting : s'.awaiting = s.awaiting := by
    simp only [awaiting, hstage, hkeeper, hqueue]
  refine ⟨hanswers ▸ h.length, h.grows, hkeeper ▸ h.bound, fun hi => h.answered (hanswers ▸ hi),
    fun hserves => ?_, fun hserves => ?_⟩
  · rw [hanswers, hawaiting]
    exact h.rest (hstage ▸ hserves)
  · rw [hanswers, hkeeper]
    exact h.unapplied (hstage ▸ hserves)

end

/-! ### Runs without the lookup -/

section
variable [Store S W] {around : Surroundings S W} {start s s' : System S W} {store store' : S}
  {task : Task} {view : StoreView S W} {initial : String → CacheContent} {Ready : W → Prop}
  {sent : List Request} {seen : List Nat} {interference : Option Interference}

theorem awaiting_awakes {received : Option (Option Request)} {waited : Duration}
    {lockReleased : Bool} {s₁ : System S W} {tally : Tally}
    (hstage : s.stage = .working store task)
    (hawakes : Awakes s store task received waited lockReleased s₁ store') :
    ({ s₁ with keeper := { s₁.keeper with tally }.hear received }.go store' .collecting).awaiting =
      s.awaiting := by
  cases hawakes with
  | request hreceive =>
    simp only [awaiting, hstage, (Inbox.queue_of_receive hreceive).1]
    exact reads_enqueue ..
  | disconnected | deadline =>
    simp only [awaiting, hstage]
    rfl
  | @reacquired received =>
    simp only [awaiting, hstage]
    cases received with
    | some request => exact reads_enqueue ..
    | none => rfl

theorem Stale.step (hview : view.Faithful) (hnamed : ∀ r ∈ sent, r.Names view.Named)
    (hconsistent : Consistent view initial Ready sent s)
    (hlookup : s.keeper.pendingLookup = false) (h : Stale initial sent seen s)
    (hstep : s.step interference = some s') :
    Stale initial sent (seen ++ s.noted s') s' := by
  cases moves_of_step hstep with
  | opened hstage | entered hstage | tookAll hstage | sawEnd hstage | releases hstage | rests hstage
  | released hstage | brokenReleased hstage | sawEndReleased hstage =>
    refine h.quiet rfl rfl fun _ => ⟨hstage ▸ trivial, ?_⟩
    simp only [awaiting, hstage]
    rfl
  | unopened | broken | failed | crashed | exited | reacquiredBroken | left | leftFailed | closed | letGo
  | drainedAll | finished | parted =>
    exact h.quiet rfl rfl False.elim
  | took hstage hreceive =>
    refine h.quiet rfl (congrArg _ (tally_enqueue ..)) fun _ => ⟨hstage ▸ trivial, ?_⟩
    simp only [awaiting, hstage, (Inbox.queue_of_receive hreceive).1]
    exact reads_enqueue ..
  | tookReleased hstage _ hreceive =>
    refine h.quiet rfl rfl fun _ => ⟨hstage ▸ trivial, ?_⟩
    simp only [awaiting, hstage, (Inbox.queue_of_receive hreceive).1]
    rfl
  | pickedRead hstage hreads | pickedWrite hstage hreads =>
    refine h.quiet rfl rfl fun _ => ⟨hstage ▸ trivial, ?_⟩
    simp only [awaiting, hstage, hreads]
    rfl
  | @openedCache _ task _ _ _ _ hstage =>
    refine h.quiet rfl rfl fun hserves => ⟨hstage ▸ hserves, ?_⟩
    simp only [awaiting, hstage]
    rfl
  | awoke hstage hawakes htally =>
    refine h.quiet ?_ ?_ fun _ => ⟨?_, awaiting_awakes hstage hawakes⟩
    · cases hawakes <;> rfl
    · exact (congrArg _ (tally_hear ..)).trans (served_of_recordIdle htally).2
    · rw [hstage]
      cases hawakes <;> trivial
  | overflowed _ hawakes =>
    cases hawakes <;> exact h.quiet rfl rfl False.elim
  | @drained _ request inbox hstage =>
    refine h.quiet rfl (congrArg _ (tally_enqueue ..)) fun hserves => ?_
    rw [hstage] at hserves
    exact hserves.elim
  | answeredFromWrites hstage hvalue =>
    unfold Keeper.queuedValue at hvalue
    rw [hlookup] at hvalue
    cases hvalue
  | @answeredFromStore _ _ read _ value _ _ hstage _ _ hc hget =>
    obtain ⟨taken, applied, hw⟩ := hconsistent.inLoop hstage trivial
    have hname : view.Named read.cache.name :=
      hnamed _ (hw.books.outstanding_sent (x := (_, read)) List.mem_cons_self)
    have hfinds := hview.get hw.sound hname (hw.caches hc) read.key
    rw [hget] at hfinds
    obtain ⟨-, entries, hentries, rfl⟩ := hfinds
    rw [hw.content _ hname, ← applied_eq_take hw.books] at hentries
    exact h.answer hstage ⟨entries, hentries, rfl⟩ rfl rfl rfl rfl rfl
  | applied hstage =>
    obtain ⟨taken, applied, hw⟩ := hconsistent.inLoop hstage trivial
    exact h.apply hstage hw.books rfl rfl rfl rfl rfl

theorem Recorded.stale (hview : view.Faithful)
    (hothers : ∀ w w', around.others w w' → view.others w w')
    (hordered : ∀ {name entries}, initial name = .ok entries → entries.Ordered)
    (hstart : Consistent view initial Ready [] start) (hlookup : start.keeper.pendingLookup = false)
    (hstale : Stale initial [] [] start) (h : Recorded around start sent seen s)
    (hnamed : ∀ r ∈ sent, r.Names view.Named) : Stale initial sent seen s := by
  have hconsistent : ∀ {sent s}, Run around start sent s → (∀ r ∈ sent, r.Names view.Named) →
      Consistent view initial Ready sent s := fun hrun =>
    hrun.consistent hview hothers hordered hstart
  induction h with
  | start => exact hstale
  | step h _ hstep ih =>
    exact (ih hnamed).step hview hnamed (hconsistent h.run hnamed)
      (h.run.pendingLookup.trans hlookup) hstep
  | send h hsend ih =>
    have hnamed' := Consistent.named hnamed
    exact (ih hnamed').send (hconsistent h.run hnamed').past.count hsend
  | tick _ _ ih | disconnect _ ih | change _ _ _ ih | note _ _ _ ih =>
    exact (ih hnamed).congr rfl rfl rfl rfl

end

section
open CacheFile (kept)

variable {around : Surroundings AnyStore Site} {names : String → Prop} {kind : StoreKind}
  {dir : Path} {timeout interval : Duration} {now clock : Instant} {site : Site} {status : Status}
  {sent : List Request} {start s : System AnyStore Site}

/-- Without the lookup, too, reads are answered in order. Each gets what its key has after the first
writes, never fewer of them than a read before it and none from behind it. If the keeper has been
stopped, all writes that it had taken in are in its store. -/
theorem Run.answers_behind (hfiles : AnyStore.DistinctFiles kind dir names site)
    (hothers : ∀ w w', around.others w w' →
      w'.disk.nodes = w.disk.nodes ∧ w'.disk.home = w.disk.home)
    (hstart : start = .start (.new interval false now) (.of (AnyStore.openStore kind dir timeout))
      site .empty status clock)
    (hrun : Run around start sent s) (hnamed : ∀ r ∈ sent, r.Names names) :
    (∃ seen, Recorded around start sent seen s ∧ seen.length = s.answers.length ∧
      seen.Pairwise (· ≤ ·) ∧ ∀ (i : Nat) token value, s.answers[i]? = some (token, value) →
        ∃ n x, seen[i]? = some n ∧ (Request.reads 0 sent)[i]? = some x ∧ n ≤ x.1 ∧
          token = x.2.token ∧
          x.2.Finds (AnyStore.initial kind dir site) ((Request.writes sent).take n) value) ∧
    (s.hasEnded = true → s.log = [] → ∃ earlier later left store, sent = earlier ++ later ∧
      Run around start earlier left ∧ left.stage = .working store (.leaving none) ∧
      Run around left later s ∧
      Bequest kind dir names site (Request.writes (left.collected earlier)) store left s) := by
  refine ⟨?_, hrun.stopped hfiles hothers hstart hnamed⟩
  obtain ⟨seen, hrecorded⟩ := hrun.recorded
  subst hstart
  have hstale := hrecorded.stale (AnyStore.faithful_view dir names) hothers AnyStore.ordered_initial
    (consistentAt_start hfiles) rfl (stale_start rfl) hnamed
  exact ⟨seen, hrecorded, hstale.length, hstale.grows, fun _ _ _ hi => hstale.answered hi⟩

/-- A read behind a write is answered before the write is applied, and does not see it. -/
theorem Run.answers_behind_of_put :
    let put : PendingWrite := ⟨⟨"tasks", "str", "utf8"⟩, "1", .put [97]⟩
    let read : PendingRead := ⟨⟨0⟩, ⟨"tasks", "str", "utf8"⟩, "1"⟩
    let sent : List Request := [.write put, .read read, .stop]
    let start : System AnyStore Site := .start (.new .zero false ⟨0⟩)
      (.of (AnyStore.openStore .file ⟨"store"⟩ .zero)) { disk := .empty ["home"] 1, probe := {} }
      .empty {} ⟨0⟩
    ∃ s seen, s.answers = [(⟨0⟩, none)] ∧
      Recorded ⟨fun _ _ => True, fun w w' => w' = w⟩ start sent seen s ∧ seen.length = 1 ∧
      kept (cachePath ⟨"store"⟩ "tasks") s.world.disk = .ok [("1", [97])] := by
  intro put read sent start
  let begun : System AnyStore Site := { start with inbox := { start.inbox with queue := sent } }
  have hseen : (begun.proceed 25).answers = [(⟨0⟩, none)] ∧ (begun.proceed 25).hasEnded = true ∧
      (begun.proceed 25).log = [] ∧ (begun.proceed 25).keeper.tally.writesApplied = 1 := by
    decide +kernel
  have hentries : PendingWrite.contentAfter (AnyStore.initial .file ⟨"store"⟩
      { disk := .empty ["home"] 1, probe := {} }) [put] "tasks" = .ok [("1", [97])] := by
    decide +kernel
  have hstart : Run ⟨fun _ _ => True, fun w w' => w' = w⟩ start [] start := .start
  have hrun : Run _ start sent (begun.proceed 25) :=
    (hstart.sendAll rfl sent).proceed 25 fun _ _ => trivial
  generalize begun.proceed 25 = s at hseen hrun
  obtain ⟨hanswers, hended, hlog, hcount⟩ := hseen
  have hfiles : AnyStore.DistinctFiles .file ⟨"store"⟩ (· = "tasks")
      { disk := .empty ["home"] 1, probe := {} } :=
    AnyStore.distinctFiles_of_plain .file (Disk.wellFormed_empty ..) (by decide) fun n hn => by
      rw [hn]
      decide
  have hnamed : ∀ r ∈ sent, r.Names (· = "tasks") := by
    intro r hr
    simp only [sent, List.mem_cons, List.not_mem_nil, or_false] at hr
    rcases hr with rfl | rfl | rfl <;> trivial
  have hothers : ∀ w w' : Site, w' = w → w'.disk.nodes = w.disk.nodes ∧ w'.disk.home = w.disk.home := by
    rintro w w' rfl
    exact ⟨rfl, rfl⟩
  obtain ⟨⟨seen, hrecorded, hlength, -⟩, hstopped⟩ :=
    hrun.answers_behind hfiles hothers rfl hnamed
  obtain ⟨earlier, later, left, store, hsent, -, -, -, hleft⟩ := hstopped hended hlog
  have hwrites : Request.writes (left.collected earlier) = [put] := by
    have htaken : left.collected earlier <+: sent :=
      hsent ▸ (List.take_prefix ..).trans (List.prefix_append ..)
    have hfirst := Request.take_writes htaken
    rw [← hleft.count, hcount] at hfirst
    exact hfirst.symm
  refine ⟨s, seen, hanswers, hrecorded, by rw [hlength, hanswers]; rfl, ?_⟩
  rw [hleft.files rfl "tasks" rfl, hwrites]
  exact hentries

/-- Two names that mean one file get two copies of it, and the last one to be written back wins. -/
theorem Run.overwritten :
    ¬ ∀ (site : Site) (sent : List Request) (s : System AnyStore Site) (w : PendingWrite),
      Run ⟨fun _ _ => True, fun w w' => w' = w⟩ (.start (.new .zero false ⟨0⟩)
        (.of (AnyStore.openStore .file ⟨"store"⟩ .zero)) site .empty {} ⟨0⟩) sent s →
      s.hasEnded = true → s.log = [] → w ∈ (Request.writes sent).take s.keeper.tally.writesApplied →
      (∀ other ∈ Request.writes sent, other.key = w.key → other = w) →
      ∃ entries, kept (cachePath ⟨"store"⟩ w.cache.name) s.world.disk = .ok entries ∧
        entries.get? w.key = w.visibleValue := by
  intro h
  let early : PendingWrite := ⟨⟨"b", "str", "utf8"⟩, "1", .put [97]⟩
  let late : PendingWrite := ⟨⟨"x/../b", "str", "utf8"⟩, "2", .put [98]⟩
  let sent : List Request := [.write early, .write late, .stop]
  let site : Site :=
    { disk := (endState (Disk.createDirs ⟨"store/x"⟩ (.empty ["home"] 1))), probe := {} }
  let start : System AnyStore Site := .start (.new .zero false ⟨0⟩)
    (.of (AnyStore.openStore .file ⟨"store"⟩ .zero)) site .empty {} ⟨0⟩
  let begun : System AnyStore Site := { start with inbox := { start.inbox with queue := sent } }
  have hseen : (begun.proceed 25).hasEnded = true ∧ (begun.proceed 25).log = [] ∧
      (begun.proceed 25).keeper.tally.writesApplied = 2 ∧
      kept (cachePath ⟨"store"⟩ "b") (begun.proceed 25).world.disk = .ok [("2", [98])] := by
    decide +kernel
  have hstart : Run ⟨fun _ _ => True, fun w w' => w' = w⟩ start [] start := .start
  have hrun : Run _ start sent (begun.proceed 25) :=
    (hstart.sendAll rfl sent).proceed 25 fun _ _ => trivial
  generalize begun.proceed 25 = s at hseen hrun
  obtain ⟨hended, hlog, hcount, hkept⟩ := hseen
  have happlied : early ∈ (Request.writes sent).take s.keeper.tally.writesApplied := by
    rw [hcount]
    exact List.mem_cons_self
  obtain ⟨entries, hentries, hvalue⟩ := h site sent s early hrun hended hlog happlied (by decide)
  rw [show kept (cachePath ⟨"store"⟩ early.cache.name) s.world.disk = _ from hkept] at hentries
  cases hentries
  cases hvalue

end

end System

end HistoryKeeper
