import HistoryKeeper.Proofs.Keeper.Calls
import HistoryKeeper.Proofs.Keeper.Run

/-!
# Runs of a service

`Service.Run` is everything that can happen to a keeper and to the calls on it: the calls act, from
any number of threads, the keeper acts, time passes and the world changes, in any order. A call has
begun when it first acts; the calls that are ever made are there from the start. For the keeper's
system it is a run (`Run.system`).
-/

namespace HistoryKeeper

namespace Call

/-- What a caller can begin with. The keeper is stopped by a call of its own. -/
def IsNew : Call → Prop
  | .asking request => request ≠ .ok .stop
  | .starting | .stopping => True
  | _ => False

/-- The read that the call is about to send. -/
def unsent : Call → List Token
  | .asking (.ok (.read read)) | .sending (.read read) => [read.token]
  | _ => []

end Call

namespace Service

variable {S W : Type}

/-- What the next step of a call sends. -/
def sends (s : Service S W) (i : CallId) : List Request :=
  match s.calls[i]? with
  | some (.sending request) => if s.system.inbox.hasReceiver then [request] else []
  | some .sendingStop => if s.system.inbox.hasReceiver then [.stop] else []
  | _ => []

/-- A keeper on which calls are going to be made. -/
def facing (system : System S W) (calls : List Call) : Service S W :=
  { new system with calls }

/-- Calls that nobody has begun, each read with a token of its own. -/
structure Fresh (calls : List Call) : Prop where
  new : ∀ call ∈ calls, call.IsNew
  tokens : (calls.flatMap Call.unsent).Nodup

/-- A run, with the requests that were sent in it, the oldest first. -/
inductive Run [Store S W] (around : System.Surroundings S W) (first : Service S W) :
    List Request → Service S W → Prop
  | first : Run around first [] first
  | call {sent s s'} (i : CallId) : Run around first sent s → s.callStep i = some s' →
      Run around first (sent ++ s.sends i) s'
  | keeper {sent s s' interference} : Run around first sent s →
      around.steps s.system interference → s.keeperStep interference = some s' →
      Run around first sent s'
  | tick {sent s} (nanos : Nat) : Run around first sent s →
      Run around first sent { s with system := s.system.tick nanos }
  | change {sent s} (world : W) : Run around first sent s → around.others s.system.world world →
      Run around first sent { s with system := { s.system with world } }

theorem Run.trans [Store S W] {around : System.Surroundings S W} {first s s' : Service S W}
    {sent later : List Request} (h : Run around first sent s) (h' : Run around s later s') :
    Run around first (sent ++ later) s' := by
  induction h' with
  | first =>
    rw [List.append_nil]
    exact h
  | call i _ hstep ih =>
    rw [← List.append_assoc]
    exact ih.call i hstep
  | keeper _ hsteps hstep ih => exact ih.keeper hsteps hstep
  | tick nanos _ ih => exact ih.tick nanos
  | change world _ hchange ih => exact ih.change world hchange

/-- Who acts next, a call or the keeper. -/
inductive Turn where
  | call (i : CallId)
  | keeper
  deriving DecidableEq, Repr

/-- Everyone acts when it is their turn, if they can, and the keeper if it is `ready` to; with the
requests that are sent. -/
def follow [Store S W] (ready : System S W → Bool) :
    List Turn → List Request × Service S W → Option (List Request × Service S W)
  | [], x => some x
  | .call i :: turns, (sent, s) =>
    (s.callStep i).bind fun s' => follow ready turns (sent ++ s.sends i, s')
  | .keeper :: turns, (sent, s) =>
    if ready s.system then (s.keeperStep none).bind fun s' => follow ready turns (sent, s') else none

theorem Run.follow [Store S W] {around : System.Surroundings S W} {first : Service S W}
    {ready : System S W → Bool} (hready : ∀ s, ready s = true → around.steps s none)
    {turns : List Turn} {x x' : List Request × Service S W} (h : Run around first x.1 x.2)
    (hfollow : Service.follow ready turns x = some x') :
    Run around first x'.1 x'.2 := by
  induction turns generalizing x with
  | nil =>
    cases hfollow
    exact h
  | cons turn turns ih =>
    cases turn with
    | call i =>
      obtain ⟨s', hstep, hrest⟩ := Option.bind_eq_some_iff.mp hfollow
      exact ih (x := (x.1 ++ x.2.sends i, s')) (h.call i hstep) hrest
    | keeper =>
      unfold Service.follow at hfollow
      split at hfollow
      · obtain ⟨s', hstep, hrest⟩ := Option.bind_eq_some_iff.mp hfollow
        exact ih (x := (x.1, s')) (h.keeper (hready _ ‹_›) hstep) hrest
      · cases hfollow

section
variable {s s' : Service S W} {i : CallId}

theorem sends_sending {request : Request} {inbox : Inbox}
    (hcall : s.calls[i]? = some (.sending request))
    (hsend : s.system.inbox.send request = some inbox) : s.sends i = [request] := by
  unfold Inbox.send at hsend
  unfold sends
  rw [hcall]
  split at hsend
  · exact if_pos ‹_›
  · cases hsend

theorem sends_stop {inbox : Inbox} (hcall : s.calls[i]? = some .sendingStop)
    (hsend : s.system.inbox.send .stop = some inbox) : s.sends i = [.stop] := by
  unfold Inbox.send at hsend
  unfold sends
  rw [hcall]
  split at hsend
  · exact if_pos ‹_›
  · cases hsend

theorem sends_closed (h : s.system.inbox.hasReceiver = false) : s.sends i = [] := by
  unfold sends
  rw [h]
  split <;> rfl

theorem hasReceiver_of_send {inbox : Inbox} {request : Request} (h : inbox.send request = none) :
    inbox.hasReceiver = false := by
  unfold Inbox.send at h
  split at h
  · cases h
  · exact Bool.eq_false_iff.mpr ‹_›

/-- For the keeper's system, a step of a call is a request that is sent, or a mark that is left. -/
theorem system_callStep (h : s.callStep i = some s') :
    (s.sends i = [] ∧ ∃ status startedAt, s'.system = { s.system with status, startedAt }) ∨
      ∃ request, s.sends i = [request] ∧ s.system.send request = some s'.system := by
  cases acts_of_callStep h with
  | sentRead hcall hsend =>
    refine Or.inr ⟨_, sends_sending hcall hsend, ?_⟩
    rw [System.send, hsend]
    rfl
  | sent hcall _ hsend =>
    refine Or.inr ⟨_, sends_sending hcall hsend, ?_⟩
    rw [System.send, hsend]
    rfl
  | sentStop hcall hsend =>
    refine Or.inr ⟨_, sends_stop hcall hsend, ?_⟩
    rw [System.send, hsend]
    rfl
  | unsent _ hsend | unsentStop _ hsend =>
    exact Or.inl ⟨sends_closed (hasReceiver_of_send hsend), _, _, rfl⟩
  | refused hcall | unencoded hcall | accepted hcall | got hcall | tooLate hcall | launches hcall
  | spawned hcall | registered hcall | started hcall | tooEarly hcall | stops hcall | claimed hcall
  | reported hcall | unreported hcall | requestedStop hcall | joined hcall | stopped hcall
  | abandoned hcall =>
    refine Or.inl ⟨?_, _, _, rfl⟩
    rw [sends, hcall]

/-- A step takes a call further, and a read that it sends is none that it still has to send. -/
theorem calls_callStep (h : s.callStep i = some s') : ∃ call call', s.calls[i]? = some call ∧
    s'.calls = s.calls.set i call' ∧
    (Request.readTokens (s.sends i) ++ call'.unsent).Sublist call.unsent ∧
    ∀ t since, call' = .awaiting t since → t ∈ Request.readTokens (s.sends i) := by
  cases acts_of_callStep h with
  | @accepted request hcall =>
    have hsends : s.sends i = [] := by rw [sends, hcall]
    refine ⟨_, _, hcall, rfl, ?_, nofun⟩
    rw [hsends]
    cases request <;> exact List.Sublist.refl _
  | @sentRead read inbox hcall hsend =>
    refine ⟨_, _, hcall, rfl, ?_, ?_⟩
    · rw [sends_sending hcall hsend]
      exact List.Sublist.refl _
    · rintro t since h
      cases h
      rw [sends_sending hcall hsend]
      exact List.mem_singleton_self _
  | @sent request inbox hcall hwrite hsend =>
    refine ⟨_, _, hcall, rfl, ?_, nofun⟩
    rw [sends_sending hcall hsend]
    cases request with
    | read read => exact absurd rfl (hwrite read)
    | write _ | stop => exact List.nil_sublist _
  | sentStop hcall hsend =>
    refine ⟨_, _, hcall, rfl, ?_, nofun⟩
    rw [sends_stop hcall hsend]
    exact List.nil_sublist _
  | unsent hcall hsend | unsentStop hcall hsend =>
    refine ⟨_, _, hcall, rfl, ?_, nofun⟩
    rw [sends_closed (hasReceiver_of_send hsend)]
    exact List.nil_sublist _
  | refused hcall | unencoded hcall | got hcall | tooLate hcall | launches hcall
  | spawned hcall | registered hcall | started hcall | tooEarly hcall | stops hcall | claimed hcall
  | reported hcall | unreported hcall | requestedStop hcall | joined hcall | stopped hcall
  | abandoned hcall =>
    refine ⟨_, _, hcall, rfl, ?_, nofun⟩
    rw [sends, hcall]
    exact List.nil_sublist _

theorem Run.system [Store S W] {around : System.Surroundings S W} {first : Service S W}
    {sent : List Request} (h : Run around first sent s) :
    System.Run around first.system sent s.system := by
  induction h with
  | first => exact .start
  | call i _ hstep ih =>
    rcases system_callStep hstep with ⟨hsends, status, startedAt, hsystem⟩ | ⟨request, hsends, hsend⟩
    · rw [hsends, List.append_nil, hsystem]
      exact ih.note status startedAt
    · rw [hsends]
      exact ih.send hsend
  | keeper _ hsteps hstep ih =>
    obtain ⟨-, system, hsystem, rfl⟩ := keeperStep_eq_some hstep
    exact ih.step hsteps hsystem
  | tick nanos _ ih => exact ih.tick nanos
  | change world _ hchange ih => exact ih.change world hchange

end

end Service

end HistoryKeeper
