import Mathlib.Algebra.Group.Prod
import HistoryKeeper.Proofs.Keeper.Books
import HistoryKeeper.Proofs.Keeper.Departure
import HistoryKeeper.Store.Site

/-!
# The counts of a summary

A request that a keeper has received is in a queue or in hand, or it has been served
(`System.account`). A run fails at most once, and what is in hand then is lost: `Course` tells what it
was. So the counts of the summary tell how many requests were received, but for those that were lost
(`Run.conserves`).
-/

namespace HistoryKeeper

namespace Request

/-- How many reads and how many writes there are among requests. -/
def counts (requests : List Request) : Nat × Nat :=
  ((readTokens requests).length, (writes requests).length)

@[simp] theorem counts_nil : counts [] = (0, 0) := rfl

@[simp] theorem counts_append (xs ys : List Request) : counts (xs ++ ys) = counts xs + counts ys := by
  simp [counts, readTokens_append, writes_append]

end Request

open Request (counts)

namespace Keeper

variable {k : Keeper}

/-- The reads and the writes that were served or are queued. -/
def counted (k : Keeper) : Nat × Nat :=
  (k.tally.readsServed + k.reads.length, k.tally.writesApplied + k.writes.length)

theorem counted_enqueue (k : Keeper) (request : Request) :
    (k.enqueue request).counted = k.counted + counts [request] := by
  cases request <;> simp [enqueue, requestStop, counted, counts, Request.readTokens, Request.writes] <;>
    omega

theorem counted_hear (k : Keeper) (received : Option (Option Request)) :
    (k.hear received).counted = k.counted + counts received.join.toList := by
  rcases received with _ | _ | request
  · rfl
  · rfl
  · exact counted_enqueue k request

theorem counted_of_recordIdle {tally : Tally} {waited : Duration} {lockReleased : Bool}
    (h : k.tally.recordIdle waited lockReleased = some tally) :
    ({ k with tally } : Keeper).counted = k.counted := by
  simp [counted, System.served_of_recordIdle h]

end Keeper

namespace Task

/-- The request that is being served. -/
def serving : Task → List Request
  | .answering _ read => [.read read]
  | .applying write => [.write write]
  | _ => []

end Task

namespace Stage

variable {S W : Type}

def serving : Stage S W → List Request
  | .working _ task => task.serving
  | _ => []

def hand (stage : Stage S W) : List Request :=
  stage.serving ++ stage.received

end Stage

namespace System

variable {S W : Type}

/-- The reads and the writes that were received and are not lost. -/
def account (s : System S W) : Nat × Nat :=
  s.keeper.counted + counts s.stage.hand

section
variable [Store S W] {around : Surroundings S W} {start s s' : System S W}
  {sent later more : List Request} {interference : Option Interference}

theorem breaks_step (hs : ¬ s.Fails) (h : s.step interference = some s') (hs' : s'.Fails) :
    s'.keeper.counted = s.keeper.counted ∧ s'.stage.hand = [] := by
  cases moves_of_step h with
  | broken | failed | crashed | unopened | reacquiredBroken | leftFailed => exact ⟨rfl, rfl⟩
  | overflowed _ hawakes => cases hawakes <;> exact ⟨rfl, rfl⟩
  | letGo hstage => exact absurd (Or.inr (by rw [hstage]; trivial)) hs
  | drained => exact absurd hs' hs
  | @openedCache _ task _ _ _ _ _ _ hcache =>
    cases task with
    | answering _ _ | applying _ => exact absurd (Or.inl (hs'.resolve_right id)) hs
    | _ => cases hcache
  | awoke _ hawakes => cases hawakes <;> exact absurd (Or.inl (hs'.resolve_right id)) hs
  | _ => exact absurd (Or.inl (hs'.resolve_right id)) hs

omit [Store S W] in
theorem received_eq_nil {received : List Request}
    (hreceived : s.inbox.queue = received ++ s'.inbox.queue) (hinbox : s'.inbox = s.inbox) :
    received = [] := by
  rw [hinbox] at hreceived
  simpa using hreceived

omit [Store S W] in
theorem received_eq_singleton {received : List Request} {request : Request}
    (hreceived : s.inbox.queue = received ++ s'.inbox.queue)
    (hreceive : s.inbox.receive = .request request s'.inbox) : received = [request] := by
  rw [(Inbox.queue_of_receive hreceive).1] at hreceived
  have hsame : [request] ++ s'.inbox.queue = received ++ s'.inbox.queue := hreceived
  exact (List.append_cancel_right hsame).symm

omit [Store S W] in
theorem leaving_of_fails {store : S} {task : Task} (hlog : s.log ≠ [] → s.IsOver) (h : s.Fails)
    (hstage : s.stage = .working store task) : ∃ e, task = .leaving (some e) := by
  rcases h with h | h
  · have hover := hlog h
    unfold IsOver at hover
    rw [hstage] at hover
    exact hover.elim
  · rw [hstage] at h
    cases task with
    | leaving failure =>
      cases failure with
      | some e => exact ⟨e, rfl⟩
      | none => exact h.elim
    | _ => exact h.elim

/-- What ends an idle time was in hand, or it has just been received. -/
theorem heard_of_awakes {store store₁ : S} {task : Task} {heard : Option (Option Request)}
    {waited : Duration} {lockReleased : Bool} {s₁ : System S W} {received : List Request}
    (hawakes : Awakes s store task heard waited lockReleased s₁ store₁)
    (hreceived : s.inbox.queue = received ++ s₁.inbox.queue) :
    (s₁.keeper.reads = s.keeper.reads ∧ s₁.keeper.writes = s.keeper.writes ∧
      s₁.keeper.tally = s.keeper.tally) ∧
      task.serving = [] ∧ heard.join.toList = task.received ++ received := by
  cases hawakes with
  | request hreceive =>
    obtain rfl := received_eq_singleton hreceived hreceive
    exact ⟨⟨rfl, rfl, rfl⟩, rfl, rfl⟩
  | disconnected | deadline =>
    obtain rfl := received_eq_nil hreceived rfl
    exact ⟨⟨rfl, rfl, rfl⟩, rfl, rfl⟩
  | @reacquired heard =>
    obtain rfl := received_eq_nil hreceived rfl
    cases heard <;> exact ⟨⟨rfl, rfl, rfl⟩, rfl, rfl⟩

theorem account_step (hlog : s.log ≠ [] → s.IsOver) (hparting : s.stage ≠ .parting)
    (hfails : s'.Fails → s.Fails) (h : s.step interference = some s') {received : List Request}
    (hreceived : s.inbox.queue = received ++ s'.inbox.queue) :
    s'.account = s.account + counts received := by
  cases moves_of_step h with
  | opened hstage | unopened hstage | entered hstage | tookAll hstage | sawEnd hstage
  | exited hstage | releases hstage | rests hstage | released hstage | brokenReleased hstage
  | sawEndReleased hstage | reacquiredBroken hstage | left hstage | leftFailed hstage
  | closed hstage | letGo hstage | drainedAll hstage | finished hstage =>
    obtain rfl := received_eq_nil hreceived rfl
    unfold account
    rw [hstage]
    rfl
  | parted hstage => exact absurd hstage hparting
  | @took store request inbox hstage hreceive =>
    obtain rfl := received_eq_singleton hreceived hreceive
    have henqueue := Keeper.counted_enqueue s.keeper request
    simpa [account, hstage, Stage.hand, Stage.serving, Stage.received, Task.serving, Task.received,
      Prod.mk_zero_zero, go] using henqueue
  | @drained failed request inbox hstage hreceive =>
    obtain rfl := received_eq_singleton hreceived hreceive
    have henqueue := Keeper.counted_enqueue s.keeper request
    simpa [account, hstage, Stage.hand, Stage.serving, Stage.received, Prod.mk_zero_zero] using henqueue
  | tookReleased hstage _ hreceive =>
    obtain rfl := received_eq_singleton hreceived hreceive
    simp [account, hstage, Stage.hand, Stage.serving, Stage.received, Task.serving, Task.received, go]
  | pickedRead hstage hreads =>
    obtain rfl := received_eq_nil hreceived rfl
    simp [account, hstage, hreads, Stage.hand, Stage.serving, Stage.received, Task.serving,
      Task.received, go, Keeper.counted, counts, Request.readTokens, Request.writes]
    omega
  | pickedWrite hstage _ hwrites =>
    obtain rfl := received_eq_nil hreceived rfl
    simp [account, hstage, hwrites, Stage.hand, Stage.serving, Stage.received, Task.serving,
      Task.received, go, Keeper.counted, counts, Request.readTokens, Request.writes]
    omega
  | answeredFromWrites hstage | answeredFromStore hstage =>
    obtain rfl := received_eq_nil hreceived rfl
    simp [account, hstage, Stage.hand, Stage.serving, Stage.received, Task.serving, Task.received,
      go, reply, Keeper.counted, counts, Request.readTokens, Request.writes]
    omega
  | applied hstage =>
    obtain rfl := received_eq_nil hreceived rfl
    simp [account, hstage, Stage.hand, Stage.serving, Stage.received, Task.serving, Task.received,
      go, Keeper.counted, counts, Request.readTokens, Request.writes]
    omega
  | openedCache hstage =>
    obtain rfl := received_eq_nil hreceived rfl
    unfold account
    rw [hstage]
    rfl
  | @awoke store task heard _ _ s₁ store₁ tally hstage hawakes htally =>
    obtain ⟨⟨hreads, hwrites, hsame⟩, hserving, hheard⟩ := heard_of_awakes hawakes hreceived
    rw [← hsame] at htally
    have hcounted : s₁.keeper.counted = s.keeper.counted := by
      rw [Keeper.counted, hreads, hwrites, hsame, Keeper.counted]
    calc ({ s₁.keeper with tally }.hear heard).counted + 0
        = s.keeper.counted + counts heard.join.toList := by
          rw [add_zero, Keeper.counted_hear, Keeper.counted_of_recordIdle htally, hcounted]
      _ = s.account + counts received := by
          rw [hheard, Request.counts_append, account, hstage, Stage.hand, Stage.serving, Stage.received,
            hserving, List.nil_append, add_assoc]
  | broken hstage _ hinside =>
    obtain ⟨e, rfl⟩ := leaving_of_fails hlog (hfails (Or.inr trivial)) hstage
    cases hinside
  | failed hstage | crashed hstage =>
    obtain ⟨e, rfl⟩ := leaving_of_fails hlog (hfails (Or.inr trivial)) hstage
    obtain rfl := received_eq_nil hreceived rfl
    unfold account
    rw [hstage]
    rfl
  | overflowed hstage hawakes =>
    obtain ⟨e, rfl⟩ := leaving_of_fails hlog (hfails (Or.inr trivial)) hstage
    cases hawakes

/-! ### Runs -/

/-- The requests that were received are those of the account, but for some that were lost. In the end
the keeper lets go of everything. -/
def Balanced (lost sent : List Request) (s : System S W) : Prop :=
  s.stage = .ended ∨
    ∃ taken, sent = taken ++ s.inbox.queue ∧ counts taken = s.account + counts lost

omit [Store S W] in
theorem Balanced.congr {lost : List Request} (h : Balanced lost sent s) (hstage : s'.stage = s.stage)
    (hkeeper : s'.keeper = s.keeper) (hinbox : s'.inbox.queue = s.inbox.queue ++ more) :
    Balanced lost (sent ++ more) s' := by
  refine h.imp hstage.trans fun ⟨taken, hsent, hcounts⟩ => ⟨taken, ?_, ?_⟩
  · rw [hinbox, hsent, List.append_assoc]
  · rw [account, hkeeper, hstage]
    exact hcounts

theorem step_of_ended (h : s.stage = .ended) : s.step interference = none := by
  unfold System.step
  rw [h]

theorem Balanced.step {lost : List Request} (hlog : s.log ≠ [] → s.IsOver)
    (hfails : s'.Fails → s.Fails) (h : Balanced lost sent s) (hstep : s.step interference = some s') :
    Balanced lost sent s' := by
  rcases h with hended | ⟨taken, hsent, hcounts⟩
  · rw [step_of_ended hended] at hstep
    cases hstep
  by_cases hparting : s.stage = .parting
  · left
    unfold System.step at hstep
    rw [hparting] at hstep
    cases hstep
    rfl
  · obtain ⟨received, hreceived⟩ := (inbox_step hstep).1
    have haccount := account_step hlog hparting hfails hstep hreceived.symm
    refine Or.inr ⟨taken ++ received, ?_, ?_⟩
    · rw [hsent, ← hreceived, List.append_assoc]
    · rw [Request.counts_append, hcounts, haccount]
      exact add_right_comm ..

theorem Balanced.breaks {received : List Request} (hs : ¬ s.Fails) (hs' : s'.Fails)
    (h : Balanced [] sent s) (hstep : s.step interference = some s')
    (hreceived : s.inbox.queue = received ++ s'.inbox.queue) :
    Balanced (s.stage.hand ++ received) sent s' := by
  rcases h with hended | ⟨taken, hsent, hcounts⟩
  · rw [step_of_ended hended] at hstep
    cases hstep
  · obtain ⟨hcounted, hhand⟩ := breaks_step hs hstep hs'
    refine Or.inr ⟨taken ++ received, ?_, ?_⟩
    · rw [hsent, hreceived, List.append_assoc]
    · rw [Request.counts_append, Request.counts_append, hcounts, account, account, hcounted, hhand,
        Request.counts_nil, Prod.mk_zero_zero, add_zero, add_zero, add_assoc]

theorem isOver_of_log (hlog : s.log ≠ [] → s.IsOver) (h : s.step interference = some s')
    (hne : s'.log ≠ []) : s'.IsOver := by
  by_cases hs : s.log = []
  · cases moves_of_step h with
    | letGo => trivial
    | awoke _ hawakes => cases hawakes <;> exact absurd hs hne
    | overflowed _ hawakes => cases hawakes <;> exact absurd hs hne
    | _ => exact absurd hs hne
  · exact (winds_of_step (hlog hs) h).isOver

theorem Run.isOver_of_log (hlog : start.log ≠ [] → start.IsOver) (hrun : Run around start sent s) :
    s.log ≠ [] → s.IsOver := by
  induction hrun with
  | start => exact hlog
  | step _ _ hstep ih => exact System.isOver_of_log ih hstep
  | send _ hsend ih =>
    obtain ⟨inbox, -, rfl⟩ := Option.map_eq_some_iff.mp hsend
    exact ih
  | tick _ _ ih | disconnect _ ih | change _ _ _ ih | note _ _ _ ih => exact ih

theorem Run.balanced {lost : List Request} (hlog : start.log ≠ [] → start.IsOver)
    (hstart : Balanced lost sent start) (hrun : Run around start later s)
    (hfails : start.Fails ∨ ¬ s.Fails) : Balanced lost (sent ++ later) s := by
  induction hrun with
  | start =>
    rw [List.append_nil]
    exact hstart
  | @step later s s' _ hrun _ hstep ih =>
    have hbefore : s'.Fails → s.Fails := fun h =>
      hrun.fails (hfails.resolve_right fun hnot => hnot h)
    exact (ih (hfails.imp_right fun hnot h => hnot (h.step hstep))).step (hrun.isOver_of_log hlog)
      hbefore hstep
  | @send later s s' request hrun hsend ih =>
    obtain ⟨inbox, hinbox, rfl⟩ := Option.map_eq_some_iff.mp hsend
    unfold Inbox.send at hinbox
    split at hinbox
    · cases hinbox
      rw [← List.append_assoc]
      exact (ih hfails).congr rfl rfl rfl
    · cases hinbox
  | tick _ _ ih | disconnect _ ih | change _ _ _ ih | note _ _ _ ih => exact ih hfails

/-- How a run went. If it failed, then `serving` was being served, and `lost` had been received in idle
time and not been taken in. -/
inductive Course (around : Surroundings S W) (start : System S W) (sent : List Request)
    (s : System S W) : (serving lost : List Request) → Prop
  | smooth : Run around start sent s → ¬ s.Fails → Course around start sent s [] []
  | broken {earlier later : List Request} {t t' : System S W} {interference : Option Interference}
      {received : List Request} : sent = earlier ++ later → Run around start earlier t → ¬ t.Fails →
      around.steps t interference → t.step interference = some t' → t'.Fails →
      t.inbox.queue = received ++ t'.inbox.queue → Run around t' later s →
      Course around start sent s t.stage.serving (t.stage.received ++ received)

theorem Course.extend {serving lost : List Request} (h : Course around start sent s serving lost)
    (hfails : s'.Fails → s.Fails)
    (hrun : ∀ {t later}, Run around t later s → Run around t (later ++ more) s') :
    Course around start (sent ++ more) s' serving lost := by
  cases h with
  | smooth h hnot => exact .smooth (hrun h) fun hs' => hnot (hfails hs')
  | broken hsent hbefore hnot hsteps hstep hbreaks hreceived hafter =>
    refine .broken ?_ hbefore hnot hsteps hstep hbreaks hreceived (hrun hafter)
    rw [hsent, List.append_assoc]

theorem Run.course (hstart : ¬ start.Fails) (hrun : Run around start sent s) :
    ∃ serving lost, Course around start sent s serving lost := by
  have hsame : ∀ {sent s s'}, (∃ serving lost, Course around start sent s serving lost) →
      (s'.Fails → s.Fails) → (∀ {t later}, Run around t later s → Run around t later s') →
        ∃ serving lost, Course around start sent s' serving lost := by
    intro sent s s' ⟨serving, lost, hcourse⟩ hfails hrun
    have hextended : Course around start (sent ++ []) s' serving lost :=
      hcourse.extend hfails fun h => by
        rw [List.append_nil]
        exact hrun h
    rw [List.append_nil] at hextended
    exact ⟨serving, lost, hextended⟩
  induction hrun with
  | start => exact ⟨[], [], .smooth .start hstart⟩
  | @step sent s s' _ hrun hsteps hstep ih =>
    by_cases hs : s.Fails
    · exact hsame ih (fun _ => hs) fun h => h.step hsteps hstep
    · by_cases hs' : s'.Fails
      · obtain ⟨received, hreceived⟩ := (inbox_step hstep).1
        exact ⟨_, _, .broken (List.append_nil sent).symm hrun hs hsteps hstep hs' hreceived.symm .start⟩
      · exact ⟨[], [], .smooth (hrun.step hsteps hstep) hs'⟩
  | send _ hsend ih =>
    obtain ⟨serving, lost, hcourse⟩ := ih
    refine ⟨serving, lost, hcourse.extend (fun h => ?_) fun h => h.send hsend⟩
    obtain ⟨inbox, -, rfl⟩ := Option.map_eq_some_iff.mp hsend
    exact h
  | tick nanos _ ih => exact hsame ih id fun h => h.tick nanos
  | disconnect _ ih => exact hsame ih id Run.disconnect
  | change world _ hchange ih => exact hsame ih id fun h => h.change world hchange
  | note status startedAt _ ih => exact hsame ih id fun h => h.note status startedAt

theorem Course.balanced {serving lost : List Request} (hlog : start.log ≠ [] → start.IsOver)
    (hstart : Balanced [] [] start) (h : Course around start sent s serving lost) :
    Balanced (serving ++ lost) sent s := by
  cases h with
  | smooth hrun hnot => exact hrun.balanced hlog hstart (Or.inr hnot)
  | broken hsent hbefore hnot _ hstep hbreaks hreceived hafter =>
    have hbalanced := hbefore.balanced hlog hstart (Or.inr hnot)
    have hbroken := hbalanced.breaks hnot hbreaks hstep hreceived
    rw [hsent, ← List.append_assoc]
    exact hafter.balanced (System.isOver_of_log (hbefore.isOver_of_log hlog) hstep) hbroken
      (Or.inl hbreaks)

theorem Course.length_serving_le {serving lost : List Request}
    (h : Course around start sent s serving lost) : serving.length ≤ 1 := by
  have hstage : ∀ stage : Stage S W, stage.serving.length ≤ 1 := by
    intro stage
    unfold Stage.serving Task.serving
    split
    · split <;> simp
    · simp
  cases h with
  | smooth => exact Nat.zero_le 1
  | broken => exact hstage _

end

/-! ### Two runs that lose a read -/

/-- Others take and free locks, and any call may fail. -/
def amidLocks : Surroundings AnyStore Site where
  steps _ _ := True
  others w w' := w'.disk.nodes = w.disk.nodes ∧ w'.disk.home = w.disk.home

section
variable {S W : Type} {s : System S W}

/-- What a run is failing of. -/
def cause? (s : System S W) : Option Failure :=
  match s.stage with
  | .working _ (.leaving failure) => failure.map .store
  | .failing _ cause => some cause
  | _ => none

/-- Whether a run that is about to leave its summary has failed. -/
def finishes? (s : System S W) : Option Bool :=
  match s.stage with
  | .finishing failed => some failed
  | _ => none

/-- The counts of the reads and of the writes in a summary. -/
def told? (s : System S W) : Option (Nat × Nat) :=
  s.status.summary.map fun summary =>
    (summary.readsServed + summary.outstandingReads, summary.writesApplied + summary.outstandingWrites)

theorem fails_of_cause {cause : Failure} (h : s.cause? = some cause) : s.Fails := by
  unfold cause? at h
  right
  split at h
  · rename_i store failure hstage
    obtain ⟨e, rfl, -⟩ := Option.map_eq_some_iff.mp h
    rw [hstage]
    trivial
  · rename_i hstage
    rw [hstage]
    trivial
  · cases h

theorem not_fails_of_cause (hlog : s.log = []) (h : s.cause? = none) : ¬ s.Fails := by
  rintro (hne | hstage)
  · exact hne hlog
  · unfold cause? at h
    split at hstage
    · rename_i hleaving
      rw [hleaving] at h
      cases h
    · rename_i hfailing
      rw [hfailing] at h
      cases h
    · exact hstage

theorem stage_of_finishes {failed : Bool} (h : s.finishes? = some failed) :
    s.stage = .finishing failed := by
  unfold finishes? at h
  split at h
  · rename_i hstage
    rw [hstage, Option.some.inj h]
  · cases h

theorem step_of_isSome [Store S W] (h : (s.step none).isSome = true) :
    s.step none = some (s.proceed 1) := by
  obtain ⟨s', hs'⟩ := Option.isSome_iff_exists.mp h
  rw [hs', proceed, hs']
  rfl

/-- Requests are on their way. -/
def receiving (s : System S W) (requests : List Request) : System S W :=
  { s with inbox := { s.inbox with queue := s.inbox.queue ++ requests } }

end

/-- A keeper on a disk that gives the lock up whenever it is idle. -/
def keeperOn (disk : Disk) : System AnyStore Site :=
  .start (.new .zero true ⟨0⟩) (.of (AnyStore.openStore .file ⟨"store"⟩ .zero))
    { disk, probe := {} } .empty {} ⟨0⟩

/-! A read fails, and then the writing back fails as well. -/

namespace Obstructed

/-- There is a file where a cache `sub/a` would have its directory, and the file of a cache `b` is
corrupt. -/
def disk : Disk :=
  let root := Disk.empty ["home"] 1
  { root with
    nodes := ((root.nodes.insert ["home", "store"] .directory).insert ["home", "store", "b.bin"]
      (.file 0 [120])).insert ["home", "store", "sub"] (.file 1 [])
    nextId := 2 }

def put : PendingWrite := ⟨⟨"sub/a", "str", "utf8"⟩, "k", .put [118]⟩

def get : PendingRead := ⟨⟨0⟩, ⟨"b", "str", "utf8"⟩, "k"⟩

/-- The write has been applied. -/
def applied : System AnyStore Site := ((keeperOn disk).receiving [.write put]).proceed 7

/-- The read is in hand. -/
def reading : System AnyStore Site := (applied.receiving [.read get]).proceed 4

/-- The read has failed. -/
def failed : System AnyStore Site := reading.proceed 1

/-- The writing back has failed. -/
def finishing : System AnyStore Site := failed.proceed 3

/-- How the read fails. -/
def corrupt : StoreError := .corrupt ⟨"store/b.bin"⟩ "expected value"

theorem seen :
    applied.inbox.hasReceiver = true ∧
    (reading.inbox.queue = [] ∧ reading.log = [] ∧ reading.cause? = none ∧
      reading.stage.serving = [.read get] ∧ reading.stage.received = [] ∧
      (reading.step none).isSome = true) ∧
    (failed.inbox.queue = [] ∧ failed.cause? = some (.store corrupt)) ∧
    (finishing.log = [.store (.io .exists)] ∧ finishing.finishes? = some true ∧
      (finishing.step none).isSome = true) ∧
    ((finishing.proceed 1).inbox.queue = [] ∧ (finishing.proceed 1).told? = some (0, 1)) := by
  decide +kernel

theorem run_reading : Run amidLocks (keeperOn disk) [.write put, .read get] reading := by
  have hstart : Run amidLocks (keeperOn disk) [] (keeperOn disk) := .start
  have happlied : Run amidLocks (keeperOn disk) [.write put] applied :=
    (hstart.sendAll rfl [.write put]).proceed 7 fun _ _ => trivial
  exact (happlied.sendAll seen.1 [.read get]).proceed 4 fun _ _ => trivial

theorem run_finishing : Run amidLocks failed [] finishing :=
  Run.start.proceed 3 fun _ _ => trivial

theorem run : Run amidLocks (keeperOn disk) [.write put, .read get] finishing :=
  (run_reading.proceed 1 fun _ _ => trivial).trans run_finishing

theorem course :
    Course amidLocks (keeperOn disk) [.write put, .read get] finishing [.read get] [] := by
  obtain ⟨-, ⟨hqueue, hlog, hnone, hserving, hreceived, hsome⟩, ⟨hqueue', hcause⟩, -⟩ := seen
  have hcourse : Course amidLocks (keeperOn disk) [.write put, .read get] finishing
      reading.stage.serving (reading.stage.received ++ []) :=
    .broken rfl run_reading (not_fails_of_cause hlog hnone) trivial (step_of_isSome hsome)
      (fails_of_cause hcause) (hqueue.trans hqueue'.symm) run_finishing
  rwa [hserving, hreceived] at hcourse

end Obstructed

/-! A read is received while another process has the lock, which then cannot be had again. -/

namespace LockedOut

def disk : Disk := .empty ["home"] 1

def get : PendingRead := ⟨⟨0⟩, ⟨"b", "str", "utf8"⟩, "k"⟩

def idle : System AnyStore Site := (keeperOn disk).proceed 5

/-- Another process takes the lock. -/
def taken : System AnyStore Site :=
  { idle with world := { idle.world with disk := idle.world.disk.lock 0 } }

/-- The read was received. -/
def holding : System AnyStore Site := (taken.receiving [.read get]).proceed 1

def failed : System AnyStore Site := holding.proceed 1

def finishing : System AnyStore Site := failed.proceed 3

theorem seen :
    idle.inbox.hasReceiver = true ∧
    (holding.inbox.queue = [] ∧ holding.log = [] ∧ holding.cause? = none ∧
      holding.stage.serving = [] ∧ holding.stage.received = [.read get] ∧
      (holding.step none).isSome = true) ∧
    (failed.inbox.queue = [] ∧ failed.cause? = some (.store (.lock (.timeout .zero)))) ∧
    (finishing.log = [.store (.lock (.timeout .zero))] ∧ finishing.finishes? = some true ∧
      (finishing.step none).isSome = true) ∧
    ((finishing.proceed 1).inbox.queue = [] ∧ (finishing.proceed 1).told? = some (0, 0)) := by
  decide +kernel

theorem course : Course amidLocks (keeperOn disk) [.read get] finishing [] [.read get] := by
  obtain ⟨hreceives, ⟨hqueue, hlog, hnone, hserving, hreceived, hsome⟩, ⟨hqueue', hcause⟩, -⟩ := seen
  have hstart : Run amidLocks (keeperOn disk) [] (keeperOn disk) := .start
  have hidle : Run amidLocks (keeperOn disk) [] idle := hstart.proceed 5 fun _ _ => trivial
  have htaken : Run amidLocks (keeperOn disk) [] taken := hidle.change taken.world ⟨rfl, rfl⟩
  have hholding : Run amidLocks (keeperOn disk) [.read get] holding :=
    (htaken.sendAll hreceives [.read get]).proceed 1 fun _ _ => trivial
  have hfinishing : Run amidLocks failed [] finishing := Run.start.proceed 3 fun _ _ => trivial
  have hcourse : Course amidLocks (keeperOn disk) [.read get] finishing
      holding.stage.serving (holding.stage.received ++ []) :=
    .broken rfl hholding (not_fails_of_cause hlog hnone) trivial (step_of_isSome hsome)
      (fails_of_cause hcause) (hqueue.trans hqueue'.symm) hfinishing
  rwa [hserving, hreceived] at hcourse

end LockedOut

/-! ### The summary -/

section
variable {S W : Type} [Store S W] {around : Surroundings S W} {start s s' : System S W}
  {sent : List Request} {interference : Option Interference}

/-- The requests that were received are those that the summary counts, and one more if the run failed
while it was served; unless a request was lost that was received in idle time. -/
theorem Run.conserves {opener : Opener S W} {world : W} {interval : Duration} {lookup failed : Bool}
    {now clock : Instant} {status : Status}
    (hstart : start = .start (.new interval lookup now) opener world .empty status clock)
    (hrun : Run around start sent s) (hstage : s.stage = .finishing failed)
    (hstep : s.step interference = some s') :
    (∃ serving lost, Course around start sent s serving lost) ∧
      ∃ summary taken, s'.status.summary = some summary ∧ sent = taken ++ s'.inbox.queue ∧
        ∀ serving, Course around start sent s serving [] → serving.length ≤ 1 ∧
          (Request.readTokens taken).length = summary.readsServed + summary.outstandingReads +
            (Request.readTokens serving).length ∧
          (Request.writes taken).length = summary.writesApplied + summary.outstandingWrites +
            (Request.writes serving).length := by
  have hnot : ¬ start.Fails := by
    rw [hstart]
    exact fun h => h.elim (fun hne => hne rfl) id
  have hlog : start.log ≠ [] → start.IsOver := fun hne => absurd (by rw [hstart]; rfl) hne
  have hbalanced : Balanced [] [] start := by
    rw [hstart]
    exact Or.inr ⟨[], rfl, rfl⟩
  have htaken : ∀ {serving lost}, Course around start sent s serving lost →
      ∃ taken, sent = taken ++ s.inbox.queue ∧
        counts taken = s.keeper.counted + counts (serving ++ lost) := by
    intro serving lost hcourse
    rcases hcourse.balanced hlog hbalanced with hended | ⟨taken, hsent, hcounts⟩
    · rw [hstage] at hended
      cases hended
    · rw [account, hstage] at hcounts
      exact ⟨taken, hsent, hcounts⟩
  unfold System.step at hstep
  rw [hstage] at hstep
  cases hstep
  obtain ⟨serving, lost, hcourse⟩ := hrun.course hnot
  obtain ⟨taken, hsent, -⟩ := htaken hcourse
  refine ⟨⟨serving, lost, hcourse⟩, _, taken, rfl, hsent, fun serving hcourse => ?_⟩
  obtain ⟨taken', hsent', hcounts⟩ := htaken hcourse
  obtain rfl : taken' = taken := List.append_cancel_right (hsent'.symm.trans hsent)
  rw [List.append_nil, Prod.ext_iff] at hcounts
  exact ⟨hcourse.length_serving_le, hcounts.1, hcounts.2⟩

end

/-- The run of which a read fails, and then the writing back as well. -/
theorem Run.conserves_of_failed_read :
    Course amidLocks (keeperOn Obstructed.disk) [.write Obstructed.put, .read Obstructed.get]
        Obstructed.finishing [.read Obstructed.get] [] ∧
      Obstructed.finishing.log = [.store (.io .exists)] ∧
      ∃ summary, (Obstructed.finishing.proceed 1).status.summary = some summary ∧
        1 = summary.readsServed + summary.outstandingReads + 1 ∧
        1 = summary.writesApplied + summary.outstandingWrites := by
  obtain ⟨-, -, -, ⟨hlog, hfinishes, hsome⟩, hqueue, -⟩ := Obstructed.seen
  obtain ⟨-, summary, taken, hsummary, hsent, hcounts⟩ := Run.conserves rfl Obstructed.run
    (stage_of_finishes hfinishes) (step_of_isSome hsome)
  rw [hqueue, List.append_nil] at hsent
  subst hsent
  obtain ⟨-, hreads, hwrites⟩ := hcounts _ Obstructed.course
  exact ⟨Obstructed.course, hlog, summary, hsummary, hreads, hwrites⟩

/-- What a run ends of need not be what lost a request. If the writing back after a failed read fails
in its turn, the run ends of that, and the read is in no count. Nor is a read that is received while the
lock is given up, if then the lock cannot be had again. -/
theorem Run.uncounted :
    (∃ (read : PendingRead) (sent : List Request) (start t t' s s' : System AnyStore Site),
      Run amidLocks start sent t ∧ t.stage.serving = [.read read] ∧ t.step none = some t' ∧
        t'.cause? = some (.store Obstructed.corrupt) ∧ Run amidLocks t' [] s ∧
        s.log = [.store (.io .exists)] ∧ s.finishes? = some true ∧ s.step none = some s' ∧
        s'.inbox.queue = [] ∧ (Request.readTokens sent).length = 1 ∧ s'.told? = some (0, 1)) ∧
    ∃ (read : PendingRead) (start s s' : System AnyStore Site),
      Course amidLocks start [.read read] s [] [.read read] ∧
        s.log = [.store (.lock (.timeout .zero))] ∧ s.finishes? = some true ∧
        s.step none = some s' ∧ s'.inbox.queue = [] ∧ s'.told? = some (0, 0) := by
  constructor
  · obtain ⟨-, ⟨-, -, -, hserving, -, hsome⟩, ⟨-, hcause⟩, ⟨hlog, hfinishes, hsome'⟩, hqueue, htold⟩ :=
      Obstructed.seen
    exact ⟨Obstructed.get, [.write Obstructed.put, .read Obstructed.get], keeperOn Obstructed.disk,
      Obstructed.reading, Obstructed.failed, Obstructed.finishing, Obstructed.finishing.proceed 1,
      Obstructed.run_reading, hserving, step_of_isSome hsome, hcause, Obstructed.run_finishing, hlog,
      hfinishes, step_of_isSome hsome', hqueue, rfl, htold⟩
  · obtain ⟨-, -, -, ⟨hlog, hfinishes, hsome⟩, hqueue, htold⟩ := LockedOut.seen
    exact ⟨LockedOut.get, keeperOn LockedOut.disk, LockedOut.finishing, LockedOut.finishing.proceed 1,
      LockedOut.course, hlog, hfinishes, step_of_isSome hsome, hqueue, htold⟩

end System

end HistoryKeeper
