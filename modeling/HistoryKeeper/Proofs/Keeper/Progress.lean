import Mathlib.Algebra.Ring.Nat
import HistoryKeeper.Proofs.Keeper.Calls
import HistoryKeeper.Proofs.Keeper.Toil

/-!
# Calls come to their ends

Every step of a call and every step of a keeper that does not rest leaves less to do
(`Service.toil_callStep`, `Service.toil_keeperStep`). So a call that is seen through stops only where
it has returned or has to wait for good.
-/

namespace HistoryKeeper

/-- How much a call counts among what is left to do: its steps, and what they give the keeper to do. -/
def Call.toil : Call → Nat
  | .asking _ => 19
  | .sending _ => 18
  | .awaiting _ _ => 1
  | .starting => 4
  | .spawning => 3
  | .registering => 2
  | .marking => 1
  | .stopping => 22
  | .claiming => 21
  | .requestingStop => 20
  | .sendingStop => 19
  | .joining => 2
  | .finishing => 1
  | .returned _ => 0

theorem Call.toil_le (call : Call) : call.toil ≤ 22 := by
  cases call <;> exact Nat.le_of_ble_eq_true rfl

theorem sum_set {l : List Nat} {i x : Nat} (h : l[i]? = some x) (y : Nat) :
    (l.set i y).sum + x = l.sum + y := by
  induction l generalizing i with
  | nil => cases h
  | cons z l ih =>
    cases i with
    | zero =>
      cases h
      simp only [List.set_cons_zero, List.sum_cons]
      omega
    | succ i =>
      have hrest := ih h
      simp only [List.set_cons_succ, List.sum_cons]
      omega

namespace System

variable {S W : Type}

theorem toil_send (s : System S W) {request : Request} {inbox : Inbox}
    (h : s.inbox.send request = some inbox) :
    ({ s with inbox } : System S W).toil = s.toil + 16 := by
  unfold Inbox.send at h
  split at h
  · cases h
    unfold toil Keeper.backlog
    rw [List.length_append, List.length_singleton]
    show 16 * (s.inbox.queue.length + 1) + 5 * (s.keeper.reads.length + s.keeper.writes.length) +
      (if s.keeper.stopRequested then 0 else 6) + s.stage.toil s.keeper.caches = _
    omega
  · cases h

end System

namespace Service

variable {S W : Type}

/-- A bound on the steps until nobody has anything left to do. -/
def toil (s : Service S W) : Nat :=
  s.system.toil + (s.calls.map Call.toil).sum

variable {s s' : Service S W} {i : CallId}

theorem calls_of_result? {result : Except CacheError Reply} (hlength : s.calls.length = 1)
    (h : s.result? 0 = some result) : s.calls = [.returned result] := by
  obtain ⟨call, hcalls⟩ := List.length_eq_one_iff.mp hlength
  rw [result?_eq_some_iff, hcalls] at h
  cases h
  exact hcalls

theorem call_toil_le {call : Call} (h : s.calls = [call]) : call.toil ≤ s.toil := by
  unfold toil
  rw [h]
  exact Nat.le_add_left ..

theorem toil_lt {call call' : Call} (hcall : s.calls[i]? = some call)
    (hcalls : s'.calls = s.calls.set i call')
    (h : s'.system.toil + call'.toil < s.system.toil + call.toil) : s'.toil < s.toil := by
  have hsum := sum_set (l := s.calls.map Call.toil) (i := i)
    (by rw [List.getElem?_map, hcall]; rfl) call'.toil
  unfold toil
  rw [hcalls, List.map_set]
  omega

theorem toil_sent {call call' : Call} {request : Request} {inbox : Inbox}
    (hcall : s.calls[i]? = some call) (hsend : s.system.inbox.send request = some inbox)
    (h : 16 + call'.toil < call.toil) :
    ({ s with system := { s.system with inbox } }.become i call').toil < s.toil := by
  refine toil_lt hcall rfl ?_
  show ({ s.system with inbox } : System S W).toil + _ < _
  rw [s.system.toil_send hsend]
  omega

theorem toil_callStep (h : s.callStep i = some s') : s'.toil < s.toil := by
  cases acts_of_callStep h with
  | sentRead hcall hsend | sent hcall _ hsend | sentStop hcall hsend =>
    exact toil_sent hcall hsend (Nat.le_of_ble_eq_true rfl)
  | refused hcall | unencoded hcall | accepted hcall | unsent hcall | got hcall | tooLate hcall
  | launches hcall | spawned hcall | registered hcall | started hcall | tooEarly hcall | stops hcall
  | claimed hcall | reported hcall | unreported hcall | requestedStop hcall | unsentStop hcall
  | joined hcall | stopped hcall | abandoned hcall =>
    exact toil_lt hcall rfl (Nat.add_lt_add_left (Nat.le_of_ble_eq_true rfl) _)

theorem toil_le_effort_of_sum {n : Nat} (hn : n ≤ 22) (h : (s.calls.map Call.toil).sum = n) :
    s.toil ≤ s.effort + 16 := by
  have hstage := s.system.stage.toil_le s.system.keeper.caches
  unfold toil effort System.toil Keeper.backlog
  rw [h]
  dsimp only
  split <;> omega

theorem toil_le_effort {call : Call} (h : s.calls = [call]) : s.toil ≤ s.effort + 16 :=
  toil_le_effort_of_sum call.toil_le (by rw [h]; rfl)

section
variable [Store S W]

theorem toil_keeperStep {interference : Option Interference} (hidles : s.system.Idles)
    (hrests : ¬ s.system.Rests) (h : s.keeperStep interference = some s') : s'.toil < s.toil := by
  obtain ⟨-, system, hsystem, rfl⟩ := keeperStep_eq_some h
  exact Nat.add_lt_add_right (System.toil_step hidles hrests hsystem) _

theorem completeWithin_rule {P : Service S W → Prop}
    (hcall : ∀ s s', P s → s.callStep i = some s' → P s')
    (hkeeper : ∀ s s', P s → s.keeperTurn = some s' → P s') (n : Nat) (h : P s) :
    P (s.completeWithin n i) := by
  induction n generalizing s with
  | zero => exact h
  | succ n ih =>
    unfold completeWithin
    cases hstep : s.callStep i with
    | some s' => exact ih (hcall s s' h hstep)
    | none =>
      simp only
      split
      · exact h
      · exact h
      · cases hturn : s.keeperTurn with
        | some s' => exact ih (hkeeper s s' h hturn)
        | none => exact h

theorem completeWithin_returned {result : Except CacheError Reply}
    (h : s.calls[i]? = some (.returned result)) (n : Nat) : s.completeWithin n i = s := by
  cases n with
  | zero => rfl
  | succ n =>
    have hstep : s.callStep i = none := by
      unfold callStep
      rw [h]
    unfold completeWithin
    rw [hstep, h]

theorem completeWithin_call (h : s.callStep i = some s') (n : Nat) :
    s.completeWithin (n + 1) i = s'.completeWithin n i := by
  rw [completeWithin, h]

theorem completeWithin_turn {call : Call} (hcall : s.calls[i]? = some call)
    (hreturned : ∀ result, call ≠ .returned result) (hstep : s.callStep i = none)
    (hturn : s.keeperTurn = some s') (n : Nat) :
    s.completeWithin (n + 1) i = s'.completeWithin n i := by
  rw [completeWithin, hstep, hcall]
  cases call with
  | returned result => exact absurd rfl (hreturned result)
  | _ => simp only [hturn]

end

end Service

end HistoryKeeper
