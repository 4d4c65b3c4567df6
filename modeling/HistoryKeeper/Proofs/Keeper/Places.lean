import HistoryKeeper.Proofs.Keeper.InOrder
import HistoryKeeper.Proofs.Keeper.Toil

/-!
# Where reads are

A read that was sent is at one of five places (`System.Place`): on its way, queued, in hand, answered
or dropped. Steps of the keeper move reads from place to place and neither lose nor multiply them
(`copies_step`), however they end. When the keeper has ended, nothing is left but answered and
dropped reads (`Parted`).
-/

namespace HistoryKeeper

/-- The reads in hand. -/
def Stage.inHand {S W : Type} : Stage S W → List Token
  | .working _ task => task.tokens
  | _ => []

theorem Keeper.tokens_enqueue (k : Keeper) (request : Request) :
    (k.enqueue request).reads.map (·.2.token) =
      k.reads.map (·.2.token) ++ Request.readTokens [request] := by
  cases request with
  | read r => exact List.map_append
  | write w => exact (List.append_nil _).symm
  | stop => exact (List.append_nil _).symm

theorem Keeper.tokens_hear (k : Keeper) (received : Option (Option Request)) :
    (k.hear received).reads.map (·.2.token) =
      k.reads.map (·.2.token) ++ Request.readTokens received.join.toList := by
  rcases received with _ | _ | request
  · exact (List.append_nil _).symm
  · exact (List.append_nil _).symm
  · exact k.tokens_enqueue request

namespace System

variable {S W : Type}

/-- Where a read can be. -/
inductive Place where
  | inbox
  | queue
  | hand
  | answered
  | dropped
  deriving DecidableEq, Repr

/-- The reads at a place. -/
def tokensAt (s : System S W) : Place → List Token
  | .inbox => Request.readTokens s.inbox.queue
  | .queue => s.keeper.reads.map (·.2.token)
  | .hand => s.stage.inHand
  | .answered => s.answers.map (·.1)
  | .dropped => s.dropped

/-- How often a read is anywhere. -/
def copies (s : System S W) (t : Token) : Nat :=
  (Request.readTokens s.inbox.queue).count t + (s.keeper.reads.map (·.2.token)).count t +
    s.stage.inHand.count t + (s.answers.map (·.1)).count t + s.dropped.count t

theorem existsUnique_place {s : System S W} {t : Token} (h : s.copies t = 1) :
    ∃! place, t ∈ s.tokensAt place := by
  have hcount : ∀ place, t ∈ s.tokensAt place ↔ 0 < (s.tokensAt place).count t :=
    fun _ => List.count_pos_iff.symm
  have hsum : (s.tokensAt .inbox).count t + (s.tokensAt .queue).count t +
      (s.tokensAt .hand).count t + (s.tokensAt .answered).count t +
        (s.tokensAt .dropped).count t = 1 := h
  obtain ⟨place, hplace⟩ : ∃ place, 0 < (s.tokensAt place).count t := by
    by_contra hnone
    have hzero : ∀ place, (s.tokensAt place).count t = 0 := fun place => by
      have hnot := not_exists.mp hnone place
      omega
    rw [hzero, hzero, hzero, hzero, hzero] at hsum
    cases hsum
  refine ⟨place, (hcount place).mpr hplace, fun other hother => ?_⟩
  have hother := (hcount other).mp hother
  cases place <;> cases other <;> first | rfl | omega

theorem count_tokensAt_le {s : System S W} {t : Token} (place : Place) :
    (s.tokensAt place).count t ≤ s.copies t := by
  cases place <;> simp only [tokensAt, copies] <;> omega

theorem Rests.tokensAt {s : System S W} (h : s.Rests) (hidles : s.Idles) :
    s.tokensAt .inbox = [] ∧ s.tokensAt .queue = [] ∧ s.tokensAt .hand = [] := by
  obtain ⟨hqueue, -, hstage⟩ := h
  have hidle : ∃ store task, s.stage = .working store task ∧ task.IsIdle ∧ task.tokens = [] := by
    split at hstage
    · rename_i hwaiting
      exact ⟨_, _, hwaiting, trivial, rfl⟩
    · rename_i hreleased
      exact ⟨_, _, hreleased, trivial, rfl⟩
    · exact hstage.elim
  obtain ⟨store, task, hworking, hidle, htokens⟩ := hidle
  refine ⟨?_, ?_, ?_⟩
  · rw [System.tokensAt, hqueue]
    rfl
  · rw [System.tokensAt, (hidles.empty hworking hidle).1]
    rfl
  · rw [System.tokensAt, hworking]
    exact htokens

section
variable {s s' : System S W}

theorem copies_congr (hinbox : s'.inbox.queue = s.inbox.queue) (hreads : s'.keeper.reads = s.keeper.reads)
    (hstage : s'.stage.inHand = s.stage.inHand) (hanswers : s'.answers = s.answers)
    (hdropped : s'.dropped = s.dropped) (t : Token) : s'.copies t = s.copies t := by
  unfold copies
  rw [hinbox, hreads, hstage, hanswers, hdropped]

theorem count_inbox {inbox rest : Inbox} {request : Request}
    (h : inbox.receive = .request request rest) (t : Token) :
    (Request.readTokens inbox.queue).count t =
      (Request.readTokens [request]).count t + (Request.readTokens rest.queue).count t := by
  rw [(Inbox.queue_of_receive h).1, ← List.count_append, ← Request.readTokens_append]
  rfl

theorem copies_send {request : Request} (h : s.send request = some s') (t : Token) :
    s'.copies t = s.copies t + (Request.readTokens [request]).count t := by
  obtain ⟨inbox, hinbox, rfl⟩ := Option.map_eq_some_iff.mp h
  unfold Inbox.send at hinbox
  split at hinbox
  · cases hinbox
    simp only [copies, Request.readTokens_append, List.count_append]
    omega
  · cases hinbox

variable [Store S W] {interference : Option Interference} {store store₁ : S} {task : Task}
  {received : Option (Option Request)} {waited : Duration} {lockReleased : Bool} {s₁ : System S W}

theorem count_awakes (hawakes : Awakes s store task received waited lockReleased s₁ store₁)
    (t : Token) : (Request.readTokens s₁.inbox.queue).count t +
      (Request.readTokens received.join.toList).count t =
        (Request.readTokens s.inbox.queue).count t + task.tokens.count t := by
  cases hawakes with
  | request hreceive =>
    rw [count_inbox hreceive, Nat.add_comm]
    rfl
  | @reacquired received _ _ _ => cases received <;> rfl
  | _ => rfl

theorem kept_awakes (hawakes : Awakes s store task received waited lockReleased s₁ store₁) :
    s₁.keeper.reads = s.keeper.reads ∧ s₁.answers = s.answers ∧ s₁.dropped = s.dropped := by
  cases hawakes <;> exact ⟨rfl, rfl, rfl⟩

theorem copies_step (h : s.step interference = some s') (t : Token) : s'.copies t = s.copies t := by
  cases moves_of_step h with
  | opened hstage | unopened hstage | entered hstage | tookAll hstage | sawEnd hstage | exited hstage
  | releases hstage | rests hstage | applied hstage | released hstage | brokenReleased hstage
  | sawEndReleased hstage | reacquiredBroken hstage | left hstage | leftFailed hstage
  | closed hstage | letGo hstage | drainedAll hstage | finished hstage | pickedWrite hstage
  | openedCache hstage =>
    refine copies_congr (by rfl) (by rfl) ?_ (by rfl) (by rfl) t
    rw [hstage]
    rfl
  | @failed _ task _ _ _ hstage _ houtside =>
    refine copies_congr (by rfl) (by rfl) ?_ (by rfl) (by rfl) t
    rw [hstage]
    cases task with
    | entering | leaving _ | closing => rfl
    | _ => cases houtside
  | broken hstage | crashed hstage =>
    simp only [copies, go, fail, hstage, Stage.inHand, Task.tokens, List.count_append, List.count_nil]
    omega
  | took hstage hreceive | drained hstage hreceive =>
    simp only [copies, go, hstage, Stage.inHand, Task.tokens, count_inbox hreceive,
      Keeper.tokens_enqueue, List.count_append]
    omega
  | pickedRead hstage hreads =>
    simp only [copies, go, hstage, hreads, Stage.inHand, Task.tokens, List.map_cons, List.count_cons,
      List.count_nil]
    omega
  | answeredFromWrites hstage | answeredFromStore hstage =>
    simp only [copies, go, reply, hstage, Stage.inHand, Task.tokens, List.map_append,
      List.map_cons, List.map_nil, List.count_append, List.count_nil]
    omega
  | tookReleased hstage _ hreceive =>
    simp only [copies, go, hstage, Stage.inHand, Task.tokens, count_inbox hreceive, List.count_nil]
    omega
  | @awoke _ _ received _ _ _ _ _ hstage hawakes =>
    have hcount := count_awakes hawakes t
    have hnone : Task.collecting.tokens = [] := rfl
    obtain ⟨hreads, hanswers, hdropped⟩ := kept_awakes hawakes
    simp only [copies, go, hstage, Stage.inHand, hnone, Keeper.tokens_hear, hreads, hanswers,
      hdropped, List.count_append, List.count_nil]
    omega
  | overflowed hstage hawakes =>
    have hcount := count_awakes hawakes t
    obtain ⟨hreads, hanswers, -⟩ := kept_awakes hawakes
    simp only [copies, fail, hstage, Stage.inHand, hreads, hanswers, List.count_append,
      List.count_nil]
    omega
  | parted hstage =>
    simp only [copies, hstage, Stage.inHand, Inbox.close, List.map_nil, List.count_append,
      List.count_nil]
    have hnone : (Request.readTokens []).count t = 0 := rfl
    omega

/-- Once the keeper has ended, no read is left that will be dealt with. -/
structure Parted (s : System S W) : Prop where
  inbox : s.inbox.queue = []
  reads : s.keeper.reads = []
  closed : s.inbox.hasReceiver = false

theorem parted_step (h : s.step interference = some s') (hended : s'.stage = .ended) : s'.Parted := by
  cases moves_of_step h with
  | parted => exact ⟨rfl, rfl, rfl⟩
  | drained hstage =>
    rw [hstage] at hended
    cases hended
  | _ => cases hended

omit [Store S W] in
theorem Parted.congr (h : s.Parted) (hinbox : s'.inbox = s.inbox) (hkeeper : s'.keeper = s.keeper) :
    s'.Parted := by
  refine ⟨?_, ?_, ?_⟩
  · rw [hinbox, h.inbox]
  · rw [hkeeper, h.reads]
  · rw [hinbox, h.closed]

omit [Store S W] in
theorem Parted.place (h : s.Parted) (hended : s.stage = .ended) {t : Token} {place : Place}
    (ht : t ∈ s.tokensAt place) : place = .answered ∨ place = .dropped := by
  cases place with
  | answered => exact Or.inl rfl
  | dropped => exact Or.inr rfl
  | inbox =>
    rw [tokensAt, h.inbox] at ht
    cases ht
  | queue =>
    rw [tokensAt, h.reads] at ht
    cases ht
  | hand =>
    rw [tokensAt, hended] at ht
    cases ht

end

end System

end HistoryKeeper
