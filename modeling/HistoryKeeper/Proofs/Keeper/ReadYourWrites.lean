import HistoryKeeper.Proofs.Keeper.Opening

/-!
# Callers read what they wrote

`System.Run.answers_in_order`: whatever a keeper's callers send and whenever it arrives, the reads
are answered as if every request waited for those before it, although the keeper serves reads before
writes. The files that the disk has to begin with must be found through the paths of their caches
(`System.Run.answers_removed`).
-/

namespace HistoryKeeper.System

variable {around : Surroundings AnyStore Site} {names : String → Prop} {kind : StoreKind}
  {dir : Path} {timeout interval : Duration} {now clock : Instant} {site : Site} {status : Status}
  {sent : List Request} {s : System AnyStore Site}

/-- Every read that was answered got what its key has after all writes before it, and no others. -/
theorem Run.answers_in_order (hfiles : AnyStore.DistinctFiles kind dir names site)
    (hothers : ∀ w w', around.others w w' →
      w'.disk.nodes = w.disk.nodes ∧ w'.disk.home = w.disk.home)
    (hrun : Run around (.start (.new interval true now) (.of (AnyStore.openStore kind dir timeout))
      site .empty status clock) sent s)
    (hnamed : ∀ r ∈ sent, r.Names names) :
    s.answers <+: Request.answersInOrder (AnyStore.initial kind dir site) [] sent := by
  have hstart : Consistent (AnyStore.view dir names) (AnyStore.initial kind dir site)
      (AnyStore.Ready kind dir names site) []
      (.start (.new interval true now) (.of (AnyStore.openStore kind dir timeout)) site .empty status
        clock) :=
    .opening _ rfl (AnyStore.opens kind dir timeout names site) (AnyStore.ready hfiles) rfl
      (Books.start _ true)
  have hconsistent := hrun.consistent (AnyStore.faithful_view dir names) hothers
    AnyStore.ordered_initial hstart hnamed
  exact hconsistent.past.answers hrun.pendingLookup

/-- A read behind a write, on an empty disk: the write is still queued when the read is answered. -/
theorem Run.answers_in_order_of_put :
    let put : Request := .write ⟨⟨"tasks", "str", "utf8"⟩, "1", .put [97]⟩
    let get : Request := .read ⟨⟨0⟩, ⟨"tasks", "str", "utf8"⟩, "1"⟩
    let site : Site := { disk := .empty ["home"] 1, probe := {} }
    ∃ s : System AnyStore Site, s.answers = [(⟨0⟩, some [97])] ∧
      s.answers <+: Request.answersInOrder (AnyStore.initial .file ⟨"store"⟩ site) [] [put, get] := by
  intro put get site
  let start : System AnyStore Site :=
    .start (.new .zero true ⟨0⟩) (.of (AnyStore.openStore .file ⟨"store"⟩ .zero)) site .empty {} ⟨0⟩
  have hstart : Run ⟨fun _ _ => True, fun w w' => w' = w⟩ start [] start := .start
  have hrun := (hstart.sendAll rfl [put, get]).proceed 8 fun _ _ => trivial
  have hfiles : AnyStore.DistinctFiles .file ⟨"store"⟩ (· = "tasks") site :=
    ⟨Disk.wellFormed_empty .., fun n hn => Disk.shows_of_no_up (Disk.wellFormed_empty ..) (hn ▸ by decide),
      fun m n hm hn _ => hm.trans hn.symm⟩
  refine ⟨_, ?_, hrun.answers_in_order hfiles ?_ ?_⟩
  · decide +kernel
  · rintro w w' rfl
    exact ⟨rfl, rfl⟩
  · intro r hr
    simp only [put, get, List.mem_cons, List.not_mem_nil, or_false] at hr
    rcases hr with rfl | rfl <;> rfl

/-- A file that is there is not found through a missing directory. What was removed there is back once the
directory is made for another cache. -/
theorem Run.answers_removed :
    ¬ ∀ (names : String → Prop) (site : Site) (sent : List Request) (s : System AnyStore Site),
      site.disk.WellFormed →
      (∀ m n, names m → names n → (cachePath ⟨"store"⟩ m).location site.disk.home =
        (cachePath ⟨"store"⟩ n).location site.disk.home → m = n) →
      Run ⟨fun _ _ => True, fun w w' => w' = w⟩ (.start (.new .zero true ⟨0⟩)
        (.of (AnyStore.openStore .file ⟨"store"⟩ .zero)) site .empty {} ⟨0⟩) sent s →
      (∀ r ∈ sent, r.Names names) → s.hasEnded = true → s.log = [] →
      s.answers <+: Request.answersInOrder (AnyStore.initial .file ⟨"store"⟩ site) [] sent := by
  intro hclaim
  let remove : Request := .write ⟨⟨"x/../a", "str", "utf8"⟩, "k", .remove⟩
  let put : Request := .write ⟨⟨"x/b", "str", "utf8"⟩, "k", .put [97]⟩
  let get : Request := .read ⟨⟨0⟩, ⟨"x/../a", "str", "utf8"⟩, "k"⟩
  let site : Site := { disk := FileStore.stocked, probe := {} }
  let start : System AnyStore Site := .start (.new .zero true ⟨0⟩)
    (.of (AnyStore.openStore .file ⟨"store"⟩ .zero)) site .empty {} ⟨0⟩
  let begun : System AnyStore Site :=
    { start with inbox := { start.inbox with queue := [remove, put] } }
  -- the keeper is idle and has given the lock up as the get comes
  let idle := begun.proceed 13
  let asked : System AnyStore Site :=
    { idle with inbox := { idle.inbox with queue := idle.inbox.queue ++ [get, .stop] } }
  have hseen : idle.inbox.hasReceiver = true ∧ (asked.proceed 30).hasEnded = true ∧
      (asked.proceed 30).log = [] ∧ (asked.proceed 30).answers = [(⟨0⟩, some [118])] := by
    decide +kernel
  obtain ⟨hreceives, hended, hlog, hanswers⟩ := hseen
  have hstart : Run ⟨fun _ _ => True, fun w w' => w' = w⟩ start [] start := .start
  have hidle : Run _ start [remove, put] idle :=
    (hstart.sendAll rfl [remove, put]).proceed 13 fun _ _ => trivial
  have hrun : Run _ start ([remove, put] ++ [get, .stop]) (asked.proceed 30) :=
    (hidle.sendAll hreceives [get, .stop]).proceed 30 fun _ _ => trivial
  have hnamed : ∀ r ∈ [remove, put] ++ [get, .stop], r.Names FileStore.astray := by
    intro r hr
    simp only [remove, put, get, List.cons_append, List.nil_append, List.mem_cons, List.not_mem_nil,
      or_false] at hr
    rcases hr with rfl | rfl | rfl | rfl
    exacts [.inl rfl, .inr rfl, .inl rfl, trivial]
  have hanswered := hclaim _ site _ _ FileStore.wellFormed_stocked FileStore.distinct_astray hrun hnamed
    hended hlog
  rw [hanswers] at hanswered
  revert hanswered
  decide +kernel

end HistoryKeeper.System
