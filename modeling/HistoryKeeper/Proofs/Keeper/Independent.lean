import HistoryKeeper.Proofs.Keeper.Handles
import HistoryKeeper.Proofs.Keeper.StaleReads

/-!
# Caches keep out of one another's way

Of all writes, only those on the cache of a read matter to what the read gets
(`PendingWrite.contentAfter_on`, `PendingRead.valueAfter_on`). So writes on another cache can be left
out of what is sent, or put in, without any change to the answer (`Request.answersInOrder_without`).
`System.Observed.independent` says so of any two runs: if writes on one cache make a difference to a
read on another, the two are one cache, and their handles have the same types.
-/

namespace HistoryKeeper

variable {name other : String} {ws ws' : List PendingWrite}

namespace PendingWrite

/-- The writes on the cache of a name. -/
def on (name : String) (ws : List PendingWrite) : List PendingWrite :=
  ws.filter (·.cache.name = name)

theorem on_cons (name : String) (w : PendingWrite) (ws : List PendingWrite) :
    on name (w :: ws) = if w.cache.name = name then w :: on name ws else on name ws := by
  by_cases h : w.cache.name = name <;> simp [on, h]

theorem on_concat (name : String) (ws : List PendingWrite) (w : PendingWrite) :
    on name (ws ++ [w]) = if w.cache.name = name then on name ws ++ [w] else on name ws := by
  by_cases h : w.cache.name = name <;> simp [on, h]

theorem contentAfter_on (content : String → CacheContent) (ws : List PendingWrite) (name : String) :
    contentAfter content (on name ws) name = contentAfter content ws name := by
  induction ws using List.reverseRecOn with
  | nil => rfl
  | append_singleton ws w ih =>
    rw [on_concat, contentAfter_concat]
    by_cases h : w.cache.name = name
    · rw [if_pos h, if_pos h, contentAfter_concat, if_pos h, ih]
    · rw [if_neg h, if_neg h, ih]

theorem on_take_eq (h : on name ws = on name ws') {n n' : Nat}
    (hlength : (on name (ws.take n)).length = (on name (ws'.take n')).length) :
    on name (ws.take n) = on name (ws'.take n') := by
  have hfirst : on name (ws.take n) <+: on name ws := (List.take_prefix n ws).filter _
  have hfirst' : on name (ws'.take n') <+: on name ws := h ▸ (List.take_prefix n' ws').filter _
  exact (List.prefix_of_prefix_length_le hfirst hfirst' hlength.le).eq_of_length hlength

end PendingWrite

open PendingWrite (on on_cons on_concat)

namespace PendingRead

variable {content : String → CacheContent} {read : PendingRead} {value value' : Option Bytes}

theorem valueAfter_on (content : String → CacheContent) (ws : List PendingWrite) (read : PendingRead) :
    read.valueAfter content (on read.cache.name ws) = read.valueAfter content ws := by
  induction ws using List.reverseRecOn with
  | nil => rfl
  | append_singleton ws w ih =>
    rw [on_concat, valueAfter_concat]
    by_cases h : w.cache.name = read.cache.name
    · rw [if_pos h, valueAfter_concat, ih]
    · have hmisses : ¬ w.targets read.cache read.key = true :=
        fun ht => h (PendingWrite.targets_iff.mp ht).2
      rw [if_neg h, if_neg hmisses, ih]

/-- What is found after writes depends on those on the cache only. -/
theorem Finds.unique (h : read.Finds content ws value) (h' : read.Finds content ws' value')
    (hon : on read.cache.name ws = on read.cache.name ws') : value = value' := by
  obtain ⟨entries, hentries, rfl⟩ := h
  obtain ⟨entries', hentries', rfl⟩ := h'
  rw [← PendingWrite.contentAfter_on, hon, PendingWrite.contentAfter_on, hentries'] at hentries
  cases hentries
  rfl

end PendingRead

namespace Request

/-- Requests, less the writes on the cache of a name. -/
def without (name : String) (requests : List Request) : List Request :=
  requests.filter fun
    | .write w => w.cache.name ≠ name
    | _ => true

theorem without_write (name : String) (w : PendingWrite) (requests : List Request) :
    without name (.write w :: requests) =
      if w.cache.name = name then without name requests else .write w :: without name requests := by
  by_cases h : w.cache.name = name <;> simp [without, h]

theorem on_writes_without (h : other ≠ name) (requests : List Request) :
    on other (writes (without name requests)) = on other (writes requests) := by
  induction requests with
  | nil => rfl
  | cons request requests ih =>
    cases request with
    | read r => exact ih
    | stop => exact ih
    | write w =>
      rw [without_write, show writes (.write w :: requests) = w :: writes requests from rfl, on_cons]
      by_cases hname : w.cache.name = name
      · rw [if_pos hname, ih, if_neg fun hother => h (hother.symm.trans hname)]
      · rw [if_neg hname, ← ih]
        exact on_cons ..

theorem reads_without (name : String) (requests : List Request) :
    (reads 0 (without name requests)).map (·.2) = (reads 0 requests).map (·.2) := by
  induction requests with
  | nil => rfl
  | cons request requests ih =>
    cases request with
    | read r => exact congrArg (r :: ·) ih
    | stop => exact ih
    | write w =>
      have hwrite : ∀ requests, (reads 0 (.write w :: requests)).map (·.2) =
          (reads 0 requests).map (·.2) := map_reads 1
      rw [without_write, hwrite]
      split
      · exact ih
      · rw [hwrite, ih]

theorem answersInOrder_without (content : String → CacheContent) {name : String}
    {before i : Nat} {x : Nat × PendingRead} {requests : List Request} :
    ∀ {earlier earlier' : List PendingWrite},
      (∀ other, other ≠ name → on other earlier' = on other earlier) →
      (reads before requests)[i]? = some x → x.2.cache.name ≠ name →
      (answersInOrder content earlier' (without name requests))[i]? =
        (answersInOrder content earlier requests)[i]? := by
  induction requests generalizing before i with
  | nil => exact fun _ hx => nomatch hx
  | cons request requests ih =>
    intro earlier earlier' hsame hx hother
    cases request with
    | stop => exact ih hsame hx hother
    | read r =>
      cases i with
      | zero =>
        cases hx
        show some (r.token, r.valueAfter content earlier') = some (r.token, r.valueAfter content earlier)
        rw [← r.valueAfter_on, hsame _ hother, r.valueAfter_on]
      | succ i => exact ih hsame hx hother
    | write w =>
      rw [without_write]
      by_cases hname : w.cache.name = name
      · rw [if_pos hname]
        refine ih (fun other hne => ?_) hx hother
        rw [on_concat, if_neg fun h => hne (h.symm.trans hname)]
        exact hsame other hne
      · rw [if_neg hname]
        refine ih (fun other hne => ?_) hx hother
        rw [on_concat, on_concat, hsame other hne]

theorem tokens_reads (before : Nat) (requests : List Request) :
    (reads before requests).map (·.2.token) = readTokens requests := by
  induction requests generalizing before with
  | nil => rfl
  | cons request requests ih =>
    cases request with
    | read r => exact congrArg (r.token :: ·) (ih before)
    | write w => exact ih (before + 1)
    | stop => exact ih before

end Request

/-! ### Two runs -/

namespace System

variable {kind : StoreKind} {dir : Path} {names : String → Prop} {site : Site} {lookup : Bool}
  {around around' : Surroundings AnyStore Site} {start start' s s' : System AnyStore Site}
  {sent sent' : List Request} {seen seen' : List Nat} {i : Nat} {x : Nat × PendingRead}
  {token token' : Token} {value value' : Option Bytes}

/-- A keeper that is about to open a store of a kind. -/
def Begins (kind : StoreKind) (dir : Path) (site : Site) (lookup : Bool)
    (s : System AnyStore Site) : Prop :=
  ∃ timeout interval now status clock, s = .start (.new interval lookup now)
    (.of (AnyStore.openStore kind dir timeout)) site .empty status clock

/-- A run of a keeper on files of its own, with its requests and what was noted of its answers. -/
structure Observed (kind : StoreKind) (dir : Path) (names : String → Prop) (site : Site)
    (lookup : Bool) (sent : List Request) (seen : List Nat) (s : System AnyStore Site) : Prop where
  recorded : ∃ around start, Begins kind dir site lookup start ∧
    (∀ w w', around.others w w' → w'.disk.nodes = w.disk.nodes ∧ w'.disk.home = w.disk.home) ∧
    Recorded around start sent seen s
  named : ∀ request ∈ sent, request.Names names

/-- With the lookup, answers are those of a service in order. -/
theorem Observed.answered (hfiles : AnyStore.DistinctFiles kind dir names site)
    (h : Observed kind dir names site true sent seen s) (hi : s.answers[i]? = some (token, value)) :
    (Request.answersInOrder (AnyStore.initial kind dir site) [] sent)[i]? = some (token, value) := by
  obtain ⟨⟨around, start, ⟨timeout, interval, now, status, clock, rfl⟩, hothers, hrecorded⟩, hnamed⟩ := h
  have hrun := hrecorded.run
  have hconsistent := hrun.consistentAt hothers (consistentAt_start hfiles) hnamed
  obtain ⟨rest, hrest⟩ := hconsistent.past.answers hrun.pendingLookup
  rw [← hrest, List.getElem?_append_left (List.getElem?_eq_some_iff.mp hi).1]
  exact hi

theorem Observed.stale (hfiles : AnyStore.DistinctFiles kind dir names site)
    (h : Observed kind dir names site false sent seen s) :
    Stale (AnyStore.initial kind dir site) sent seen s := by
  obtain ⟨⟨around, start, ⟨timeout, interval, now, status, clock, rfl⟩, hothers, hrecorded⟩, hnamed⟩ := h
  exact hrecorded.stale (AnyStore.faithful_view dir names) hothers AnyStore.ordered_initial
    (consistentAt_start hfiles) rfl (stale_start rfl) hnamed

theorem Observed.token_eq (hfiles : AnyStore.DistinctFiles kind dir names site)
    (h : Observed kind dir names site lookup sent seen s)
    (hx : (Request.reads 0 sent)[i]? = some x) (hi : s.answers[i]? = some (token, value)) :
    token = x.2.token := by
  cases lookup with
  | true =>
    have htokens := congrArg (·[i]?)
      (Request.tokens_answersInOrder (AnyStore.initial kind dir site) [] sent)
    rw [← Request.tokens_reads 0] at htokens
    simp only [List.getElem?_map, hx, h.answered hfiles hi, Option.map_some] at htokens
    exact Option.some.inj htokens
  | false =>
    obtain ⟨-, y, -, hy, -, htoken, -⟩ := (h.stale hfiles).answered hi
    rw [hx] at hy
    cases hy
    exact htoken

theorem read_of_without (hsame : Request.without name sent' = Request.without name sent)
    (hx : (Request.reads 0 sent)[i]? = some x) :
    ∃ x', (Request.reads 0 sent')[i]? = some x' ∧ x'.2 = x.2 := by
  have hreads : (Request.reads 0 sent').map (·.2) = (Request.reads 0 sent).map (·.2) := by
    rw [← Request.reads_without name sent', hsame, Request.reads_without]
  have hread := congrArg (·[i]?) hreads
  simp only [List.getElem?_map, hx, Option.map_some] at hread
  exact Option.map_eq_some_iff.mp hread

/-- As many writes on the cache of a read were applied in two runs when the read was answered. -/
def SameSeen (name : String) (sent sent' : List Request) (seen seen' : List Nat) (i : Nat) : Prop :=
  ∃ n n', seen[i]? = some n ∧ seen'[i]? = some n' ∧
    (on name ((Request.writes sent').take n')).length = (on name ((Request.writes sent).take n)).length

theorem Observed.value_eq (hfiles : AnyStore.DistinctFiles kind dir names site)
    (h : Observed kind dir names site lookup sent seen s)
    (h' : Observed kind dir names site lookup sent' seen' s')
    (hsame : Request.without name sent' = Request.without name sent)
    (hx : (Request.reads 0 sent)[i]? = some x) (hother : x.2.cache.name ≠ name)
    (hseen : lookup = true ∨ SameSeen x.2.cache.name sent sent' seen seen' i)
    (hi : s.answers[i]? = some (token, value)) (hi' : s'.answers[i]? = some (token', value')) :
    value' = value := by
  obtain ⟨x', hx', hread⟩ := read_of_without hsame hx
  cases lookup with
  | true =>
    have hnone : ∀ other, other ≠ name → on other [] = on other [] := fun _ _ => rfl
    have hleft := Request.answersInOrder_without (AnyStore.initial kind dir site) hnone hx hother
    have hleft' := Request.answersInOrder_without (AnyStore.initial kind dir site) hnone hx'
      (hread ▸ hother)
    rw [h.answered hfiles hi] at hleft
    rw [h'.answered hfiles hi', hsame, hleft] at hleft'
    cases hleft'
    rfl
  | false =>
    obtain ⟨n, n', hn, hn', hlength⟩ := hseen.resolve_left nofun
    obtain ⟨m, y, hm, hy, -, -, hfinds⟩ := (h.stale hfiles).answered hi
    obtain ⟨m', y', hm', hy', -, -, hfinds'⟩ := (h'.stale hfiles).answered hi'
    rw [hn] at hm
    rw [hn'] at hm'
    rw [hx] at hy
    rw [hx'] at hy'
    cases hm
    cases hm'
    cases hy
    cases hy'
    rw [hread] at hfinds'
    refine hfinds'.unique hfinds (PendingWrite.on_take_eq ?_ hlength)
    rw [← Request.on_writes_without hother sent', hsame, Request.on_writes_without hother]

/-- Two runs whose requests differ in the writes on one cache only, and a read that both have
answered. The answers are for the same caller. If the read is on another cache, they are the same, as
long as either answers are looked for among the queued writes or both runs had applied as many writes
on the cache of the read. Answers that are not the same are from handles of the same types. -/
theorem Observed.independent {r : Registry} {key key' : ValueType} {codec codec' : Codec}
    {h : Handle key codec} {g : Handle key' codec'} (hh : h.Declared r) (hg : g.Declared r)
    (hfiles : AnyStore.DistinctFiles kind dir names site)
    (hrun : Observed kind dir names site lookup sent seen s)
    (hrun' : Observed kind dir names site lookup sent' seen' s')
    (hsame : Request.without h.identity.name sent' = Request.without h.identity.name sent)
    (hx : (Request.reads 0 sent)[i]? = some x) (hcache : x.2.cache = g.identity)
    (hseen : lookup = true ∨ SameSeen g.identity.name sent sent' seen seen' i)
    (hi : s.answers[i]? = some (token, value)) (hi' : s'.answers[i]? = some (token', value')) :
    token' = token ∧ (g.identity.name ≠ h.identity.name → value' = value) ∧
      (value' ≠ value → key' = key ∧ codec' = codec) := by
  have hvalue : g.identity.name ≠ h.identity.name → value' = value := by
    intro hother
    rw [← hcache] at hother hseen
    exact hrun.value_eq hfiles hrun' hsame hx hother hseen hi hi'
  refine ⟨?_, hvalue, fun hne => ?_⟩
  · obtain ⟨x', hx', hread⟩ := read_of_without hsame hx
    rw [hrun.token_eq hfiles hx hi, hrun'.token_eq hfiles hx' hi', hread]
  · have hname : g.identity.name = h.identity.name := by
      by_contra hother
      exact hne (hvalue hother)
    exact hh.same_types hg hname

/-- A run in which others leave the site alone can be observed. -/
theorem Run.observed (hstart : Begins kind dir site lookup start)
    (hrun : Run ⟨fun _ _ => True, fun w w' => w' = w⟩ start sent s)
    (hnamed : ∀ request ∈ sent, request.Names names) :
    ∃ seen, Observed kind dir names site lookup sent seen s := by
  obtain ⟨seen, hrecorded⟩ := hrun.recorded
  refine ⟨seen, ⟨_, start, hstart, ?_, hrecorded⟩, hnamed⟩
  rintro w w' rfl
  exact ⟨rfl, rfl⟩

/-- A read behind a write on its cache, with and without a write on another cache before them. -/
theorem Observed.independent_of_put :
    let site : Site := { disk := .empty ["home"] 1, probe := {} }
    let tasks : Handle .keyText .utf8 := ⟨Handle.requested "tasks" .keyText .utf8⟩
    let files : Handle .keyText .utf8 := ⟨Handle.requested "files" .keyText .utf8⟩
    let sent : List Request :=
      [.write ⟨files.identity, "1", .put [98]⟩, .read ⟨⟨0⟩, files.identity, "1"⟩]
    let sent' : List Request := .write ⟨tasks.identity, "1", .put [97]⟩ :: sent
    ∃ names seen seen' s s' value value',
      Observed .file ⟨"store"⟩ names site true sent seen s ∧
      Observed .file ⟨"store"⟩ names site true sent' seen' s' ∧
      s.answers = [(⟨0⟩, value)] ∧ s'.answers = [(⟨0⟩, value')] ∧ value' = value := by
  intro site tasks files sent sent'
  let names (n : String) : Prop := n = "tasks" ∨ n = "files"
  let start : System AnyStore Site := .start (.new .zero true ⟨0⟩)
    (.of (AnyStore.openStore .file ⟨"store"⟩ .zero)) site .empty {} ⟨0⟩
  let begun : System AnyStore Site := { start with inbox := { start.inbox with queue := sent } }
  let begun' : System AnyStore Site := { start with inbox := { start.inbox with queue := sent' } }
  have hseen : (begun.proceed 12).answers = [(⟨0⟩, some [98])] ∧
      (begun'.proceed 12).answers = [(⟨0⟩, some [98])] := by decide +kernel
  have hnamed : (∀ request ∈ sent, request.Names names) ∧ ∀ request ∈ sent', request.Names names := by
    simp [sent, sent', names, Request.Names, tasks, files, Handle.requested]
  have hstart : Run ⟨fun _ _ => True, fun w w' => w' = w⟩ start [] start := .start
  have hbegins : start.Begins .file ⟨"store"⟩ site true := ⟨_, _, _, _, _, rfl⟩
  obtain ⟨seen, hrun⟩ := ((hstart.sendAll rfl sent).proceed 12 fun _ _ => trivial).observed hbegins
    hnamed.1
  obtain ⟨seen', hrun'⟩ := ((hstart.sendAll rfl sent').proceed 12 fun _ _ => trivial).observed hbegins
    hnamed.2
  have hfiles : AnyStore.DistinctFiles .file ⟨"store"⟩ names site := by
    refine AnyStore.distinctFiles_of_plain .file (Disk.wellFormed_empty ..) (by decide) ?_
    rintro n (rfl | rfl) <;> decide
  let r : Registry := [("files", files.identity), ("tasks", tasks.identity)]
  have htasks : tasks.Declared r := ⟨rfl, by decide⟩
  have hdeclared : files.Declared r := ⟨rfl, by decide⟩
  have hanswer : (begun.proceed 12).answers[0]? = some (⟨0⟩, some [98]) := by
    rw [hseen.1]
    rfl
  have hanswer' : (begun'.proceed 12).answers[0]? = some (⟨0⟩, some [98]) := by
    rw [hseen.2]
    rfl
  obtain ⟨-, hvalue, -⟩ := hrun.independent htasks hdeclared hfiles hrun' (by decide) rfl rfl
    (Or.inl rfl) hanswer hanswer'
  exact ⟨names, seen, seen', _, _, _, _, hrun, hrun', hseen.1, hseen.2, hvalue (by decide)⟩

/-- Two names that a store in memory takes for one: what is put through one handle is read through the
other, and the types of the two are not the same. -/
theorem Observed.shared_entries :
    let site : Site := { disk := .empty ["home"] 1, probe := {} }
    let h : Handle .keyText (.json .natural64) := ⟨Handle.requested "./a" .keyText (.json .natural64)⟩
    let g : Handle .keyText .utf8 := ⟨Handle.requested "a" .keyText .utf8⟩
    let read : Request := .read ⟨⟨0⟩, g.identity, "1"⟩
    let put : Request := .write ⟨h.identity, "1", .put [53]⟩
    ∃ r names seen seen' s s', h.Declared r ∧ g.Declared r ∧ g.identity.name ≠ h.identity.name ∧
      Observed .memory ⟨"memory"⟩ names site true [read] seen s ∧
      Observed .memory ⟨"memory"⟩ names site true [put, read] seen' s' ∧
      s.answers = [(⟨0⟩, none)] ∧ s'.answers = [(⟨0⟩, some [53])] := by
  intro site h g read put
  let start : System AnyStore Site := .start (.new .zero true ⟨0⟩)
    (.of (AnyStore.openStore .memory ⟨"memory"⟩ .zero)) site .empty {} ⟨0⟩
  let waiting : System AnyStore Site :=
    { start with inbox := { start.inbox with queue := [put] } }.proceed 10
  let s : System AnyStore Site := { start with inbox := { start.inbox with queue := [read] } }.proceed 10
  let s' : System AnyStore Site :=
    { waiting with inbox := { waiting.inbox with queue := waiting.inbox.queue ++ [read] } }.proceed 10
  have hseen : s.answers = [(⟨0⟩, none)] ∧ s'.answers = [(⟨0⟩, some [53])] ∧
      waiting.inbox.hasReceiver = true := by decide +kernel
  obtain ⟨hanswers, hanswers', hreceives⟩ := hseen
  have hstart : Run ⟨fun _ _ => True, fun w w' => w' = w⟩ start [] start := .start
  have hbegins : start.Begins .memory ⟨"memory"⟩ site true := ⟨_, _, _, _, _, rfl⟩
  have hnamed : ∀ requests : List Request, ∀ request ∈ requests, request.Names fun _ => True := by
    rintro requests (r | w | -) - <;> trivial
  have hwaiting : Run _ start [put] waiting := (hstart.sendAll rfl [put]).proceed 10 fun _ _ => trivial
  obtain ⟨seen, hrun⟩ := ((hstart.sendAll rfl [read]).proceed 10 fun _ _ => trivial).observed hbegins
    (hnamed _)
  obtain ⟨seen', hrun'⟩ := ((hwaiting.sendAll hreceives [read]).proceed 10 fun _ _ => trivial).observed
    hbegins (hnamed _)
  let r : Registry := [("./a", h.identity), ("a", g.identity)]
  exact ⟨r, _, seen, seen', s, s', ⟨rfl, by decide⟩, ⟨rfl, by decide⟩, by decide, hrun, hrun', hanswers,
    hanswers'⟩

end System

end HistoryKeeper
