import Mathlib.Logic.Relation
import HistoryKeeper.Proofs.Keeper.ServiceRun

/-!
# Whose the thread of a keeper is

The thread of a keeper passes through few hands: a start launches it, puts it into its place and
marks the keeper as started; a stop claims it, asks it to stop, joins it and leaves the summary
(`Service.Phase.Next`). A phase says how far each call can have come (`Phase.Permits`), so a call
that acts on the thread does so in a phase of its own.

Every step of a service leaves the phase as it is or leads to the next one (`Service.At.callStep`,
`Service.At.keeperStep`). There is no way back (`Service.Run.reaches`).
-/

namespace HistoryKeeper

namespace System

variable {S W : Type} {s s' : System S W}

/-- A keeper does not go without a summary. -/
def LeavesSummary (s : System S W) : Prop :=
  s.stage = .parting ∨ s.stage = .ended → s.status.summary.isSome = true

theorem LeavesSummary.step [Store S W] {interference : Option Interference} (h : s.LeavesSummary)
    (hstep : s.step interference = some s') : s'.LeavesSummary := by
  cases moves_of_step hstep with
  | finished => exact fun _ => rfl
  | parted hstage => exact fun _ => h (Or.inl hstage)
  | drained hstage =>
    unfold LeavesSummary
    rw [hstage]
    rintro (h | h) <;> cases h
  | _ =>
    rintro (h | h) <;> cases h

end System

namespace Service

variable {S W : Type}

/-- Whose the thread is. -/
inductive Phase where
  | unlaunched
  /-- A start is making the thread. -/
  | launching (starter : CallId)
  /-- The thread is in its place, but nobody knows yet. -/
  | placed (starter : CallId)
  | marked (starter : CallId)
  | claimed (starter stop : CallId)
  /-- No more requests are accepted, and the stop waits for the keeper's end. -/
  | asked (starter stop : CallId)
  | joined (starter stop : CallId)
  | finished (starter : CallId) (summary : Summary)

namespace Phase

/-- The start that took the launch. -/
def starter : Phase → Option CallId
  | unlaunched => none
  | launching i | placed i | marked i | claimed i _ | asked i _ | joined i _ | finished i _ => some i

/-- The stop that holds the place of the thread. -/
def holder : Phase → Option CallId
  | claimed _ i | asked _ i | joined _ i => some i
  | _ => none

def inPlace : Phase → Bool
  | placed _ | marked _ => true
  | _ => false

def started : Phase → Bool
  | unlaunched | launching _ | placed _ => false
  | _ => true

def stopRequested : Phase → Bool
  | asked _ _ | joined _ _ | finished _ _ => true
  | _ => false

/-- The thread has been joined. -/
def isJoined : Phase → Bool
  | joined _ _ | finished _ _ => true
  | _ => false

def rank : Phase → Nat
  | unlaunched => 0
  | launching _ => 1
  | placed _ => 2
  | marked _ => 3
  | claimed _ _ => 4
  | asked _ _ => 5
  | joined _ _ => 6
  | finished _ _ => 7

/-- What a call can do to the thread. -/
inductive Next (i : CallId) : Phase → Phase → Prop
  | launch : Next i unlaunched (launching i)
  | place : Next i (launching i) (placed i)
  | mark : Next i (placed i) (marked i)
  | claim {starter} : Next i (marked starter) (claimed starter i)
  | ask {starter} : Next i (claimed starter i) (asked starter i)
  | join {starter} : Next i (asked starter i) (joined starter i)
  | finish {starter} (summary : Summary) : Next i (joined starter i) (finished starter summary)

/-- What any calls can make of it, one after the other. -/
def Leads : Phase → Phase → Prop :=
  Relation.ReflTransGen fun phase phase' => ∃ i, Next i phase phase'

variable {phase phase' : Phase} {i j : CallId}

theorem Next.rank (h : Next i phase phase') : phase'.rank = phase.rank + 1 := by
  cases h <;> rfl

theorem Leads.rank_le (h : phase.Leads phase') : phase.rank ≤ phase'.rank := by
  induction h with
  | refl => exact Nat.le_refl _
  | tail _ hnext ih =>
    obtain ⟨i, hnext⟩ := hnext
    rw [hnext.rank]
    exact Nat.le_succ_of_le ih

theorem Leads.eq_of_finished {starter : CallId} {summary : Summary}
    (h : (finished starter summary).Leads phase) : phase = finished starter summary := by
  induction h with
  | refl => rfl
  | tail _ hnext ih =>
    obtain ⟨i, hnext⟩ := hnext
    rw [ih] at hnext
    cases hnext

/-- With the thread neither in its place nor held, a keeper that was started is over. -/
theorem exists_eq_finished (hstarted : phase.started = true) (hplace : phase.inPlace = false)
    (hholder : phase.holder = none) : ∃ starter summary, phase = finished starter summary := by
  cases phase with
  | finished starter summary => exact ⟨starter, summary, rfl⟩
  | unlaunched | launching _ | placed _ => cases hstarted
  | marked _ => cases hplace
  | claimed _ _ | asked _ _ | joined _ _ => cases hholder

theorem exists_eq_marked (hstarted : phase.started = true) (hplace : phase.inPlace = true) :
    ∃ starter, phase = marked starter := by
  cases phase with
  | marked starter => exact ⟨starter, rfl⟩
  | unlaunched | launching _ | placed _ => cases hstarted
  | claimed _ _ | asked _ _ | joined _ _ | finished _ _ => cases hplace

theorem eq_unlaunched (h : phase.starter = none) : phase = unlaunched := by
  cases phase with
  | unlaunched => rfl
  | _ => cases h

/-! ### What the calls can be at -/

/-- What a call can have returned that began like this. -/
def Returns (phase : Phase) (i : CallId) (result : Except CacheError Reply) : Call → Prop
  | .starting =>
    result = .ok .done ∧ phase.starter = some i ∧ phase.started = true ∨
      result = .error .alreadyStarted ∧ phase.starter.isSome = true ∧ phase.starter ≠ some i
  | .stopping =>
    result = .error .notStarted ∨
      ∃ starter summary, phase = finished starter summary ∧ result = .ok (.summary summary)
  | _ => ∀ summary, result ≠ .ok (.summary summary)

/-- How far a call can have come that began like this. -/
def Permits (phase : Phase) (i : CallId) (first : Call) : Call → Prop
  | .asking request => first = .asking request
  | .sending _ | .awaiting _ _ => ∃ request, first = .asking request
  | .starting => first = .starting ∧ phase.starter ≠ some i
  | .spawning | .registering => first = .starting ∧ phase = launching i
  | .marking => first = .starting ∧ phase = placed i
  | .stopping => first = .stopping
  | .claiming => first = .stopping ∧ phase.started = true
  | .requestingStop => first = .stopping ∧ ∃ starter, phase = claimed starter i
  | .sendingStop | .joining => first = .stopping ∧ ∃ starter, phase = asked starter i
  | .finishing => first = .stopping ∧ ∃ starter, phase = joined starter i
  | .returned result => phase.Returns i result first

theorem Next.starter (h : Next i phase phase') (hj : j ≠ i) :
    phase'.starter = some j ↔ phase.starter = some j := by
  cases h with
  | launch => exact iff_of_false (fun h => hj (Option.some_inj.mp h).symm) nofun
  | _ => exact Iff.rfl

theorem Next.starter_isSome (h : Next i phase phase') : phase'.starter.isSome = true := by
  cases h <;> rfl

theorem Next.started (h : Next i phase phase') (hstarted : phase.started = true) :
    phase'.started = true := by
  cases h with
  | claim | ask | join | finish => rfl
  | _ => cases hstarted

theorem Leads.started (h : phase.Leads phase') (hstarted : phase.started = true) :
    phase'.started = true := by
  induction h with
  | refl => exact hstarted
  | tail _ hnext ih =>
    obtain ⟨i, hnext⟩ := hnext
    exact hnext.started ih

theorem Next.permits {first call : Call} (h : Next i phase phase') (hj : j ≠ i)
    (hpermits : phase.Permits j first call) : phase'.Permits j first call := by
  cases call with
  | asking | sending | awaiting | stopping => exact hpermits
  | starting => exact ⟨hpermits.1, mt (h.starter hj).mp hpermits.2⟩
  | claiming => exact ⟨hpermits.1, h.started hpermits.2⟩
  -- it is their turn, and nobody else's
  | spawning | registering | marking =>
    obtain ⟨-, rfl⟩ := hpermits
    cases h
    exact absurd rfl hj
  | requestingStop | sendingStop | joining | finishing =>
    obtain ⟨-, starter, rfl⟩ := hpermits
    cases h
    exact absurd rfl hj
  | returned result =>
    cases first with
    | starting =>
      rcases hpermits with ⟨hresult, hstarter, hstarted⟩ | ⟨hresult, -, hstarter⟩
      · exact Or.inl ⟨hresult, (h.starter hj).mpr hstarter, h.started hstarted⟩
      · exact Or.inr ⟨hresult, h.starter_isSome, mt (h.starter hj).mp hstarter⟩
    | stopping =>
      rcases hpermits with hresult | ⟨starter, summary, rfl, -⟩
      · exact Or.inl hresult
      · cases h
    | _ => exact hpermits

/-- A start has not begun, or has the launch and is about to mark the keeper, or has returned. -/
theorem Permits.of_starting {call : Call} (h : phase.Permits i .starting call) :
    call = .starting ∧ phase.starter ≠ some i ∨ phase.starter = some i ∧ phase.started = false ∨
      ∃ result, call = .returned result ∧ phase.Returns i result .starting := by
  cases call with
  | starting => exact Or.inl ⟨rfl, h.2⟩
  | spawning | registering | marking =>
    obtain ⟨-, rfl⟩ := h
    exact Or.inr (Or.inl ⟨rfl, rfl⟩)
  | returned result => exact Or.inr (Or.inr ⟨result, rfl, h⟩)
  | asking | stopping => cases h
  | sending | awaiting =>
    obtain ⟨request, hrequest⟩ := h
    cases hrequest
  | claiming | requestingStop | sendingStop | joining | finishing => cases h.1

/-- A stop has not begun, or knows of the start, or has returned. -/
theorem Permits.of_stopping {call : Call} (h : phase.Permits i .stopping call) :
    call = .stopping ∨ phase.started = true ∨
      ∃ result, call = .returned result ∧ phase.Returns i result .stopping := by
  cases call with
  | stopping => exact Or.inl rfl
  | claiming => exact Or.inr (Or.inl h.2)
  | requestingStop | sendingStop | joining | finishing =>
    obtain ⟨-, starter, rfl⟩ := h
    exact Or.inr (Or.inl rfl)
  | returned result => exact Or.inr (Or.inr ⟨result, rfl, h⟩)
  | asking => cases h
  | sending | awaiting =>
    obtain ⟨request, hrequest⟩ := h
    cases hrequest
  | starting | spawning | registering | marking => cases h.1

/-- Only a stop returns a summary, and only when all is over. -/
theorem Returns.summary {first : Call} {summary : Summary}
    (h : phase.Returns i (.ok (.summary summary)) first) :
    ∃ starter, phase = finished starter summary := by
  cases first with
  | starting => rcases h with ⟨h, -⟩ | ⟨h, -⟩ <;> cases h
  | stopping =>
    rcases h with h | ⟨starter, summary, rfl, h⟩
    · cases h
    · cases h
      exact ⟨starter, rfl⟩
  | _ => exact absurd rfl (h summary)

end Phase

/-- What can be seen of the phase. -/
structure Shows (phase : Phase) (s : Service S W) : Prop where
  launched : s.launched = phase.starter.isSome
  inPlace : s.threadInPlace = phase.inPlace
  holder : s.holder = phase.holder
  started : s.system.status.started = phase.started
  stopRequested : s.system.status.stopRequested = phase.stopRequested
  ended : phase.isJoined = true → s.system.stage = .ended
  finished : ∀ {starter summary}, phase = .finished starter summary →
    s.system.status.summary = some summary ∧ s.system.status.stopped = true
  leaves : s.system.LeavesSummary

/-- A service in a phase, with the calls that were going to be made on it. -/
structure At (calls : List Call) (phase : Phase) (s : Service S W) : Prop where
  shows : s.Shows phase
  starter : ∀ {i : CallId}, phase.starter = some i → calls[i]? = some .starting
  calls : ∀ i : CallId, Option.Rel (phase.Permits i) calls[i]? s.calls[i]?

section
variable {s s' : Service S W} {calls : List Call} {phase phase' : Phase} {i : CallId}
  {call call' first : Call}

theorem At.permits (h : s.At calls phase) (hcall : s.calls[i]? = some call) :
    ∃ first, calls[i]? = some first ∧ phase.Permits i first call := by
  have hrel := h.calls i
  rw [hcall] at hrel
  generalize calls[i]? = first at hrel ⊢
  cases hrel with
  | some hpermits => exact ⟨_, rfl, hpermits⟩

theorem At.now (h : s.At calls phase) (hfirst : calls[i]? = some first) :
    ∃ call, s.calls[i]? = some call ∧ phase.Permits i first call := by
  have hrel := h.calls i
  rw [hfirst] at hrel
  generalize s.calls[i]? = call at hrel ⊢
  cases hrel with
  | some hpermits => exact ⟨_, rfl, hpermits⟩

theorem At.set (h : s.At calls phase) (hcall : s.calls[i]? = some call)
    (hcalls : s'.calls = s.calls.set i call') (hshows : s'.Shows phase')
    (hstarter : ∀ {j : CallId}, phase'.starter = some j → calls[j]? = some .starting)
    (hothers : ∀ {j first other}, j ≠ i → phase.Permits j first other →
      phase'.Permits j first other)
    (hpermits : ∀ {first}, phase.Permits i first call → phase'.Permits i first call') :
    s'.At calls phase' := by
  refine ⟨hshows, hstarter, fun j => ?_⟩
  have hrel := h.calls j
  rw [hcalls]
  by_cases hij : i = j
  · subst hij
    obtain ⟨hi, -⟩ := List.getElem?_eq_some_iff.mp hcall
    obtain ⟨first, hfirst, hfirstPermits⟩ := h.permits hcall
    rw [List.getElem?_set_self hi, hfirst]
    exact .some (hpermits hfirstPermits)
  · rw [List.getElem?_set_ne hij]
    generalize calls[j]? = first, s.calls[j]? = other at hrel ⊢
    cases hrel with
    | some hother => exact .some (hothers (Ne.symm hij) hother)
    | none => exact .none

theorem At.quiet (h : s.At calls phase) (hcall : s.calls[i]? = some call)
    (hcalls : s'.calls = s.calls.set i call') (hlaunched : s'.launched = s.launched)
    (hplace : s'.threadInPlace = s.threadInPlace) (hholder : s'.holder = s.holder)
    (hstage : s'.system.stage = s.system.stage)
    (hstatus : ∃ blockedNanos, s'.system.status = { s.system.status with blockedNanos })
    (hpermits : ∀ {first}, phase.Permits i first call → phase.Permits i first call') :
    s'.At calls phase := by
  obtain ⟨blockedNanos, hstatus⟩ := hstatus
  refine h.set hcall hcalls ⟨hlaunched.trans h.shows.launched, hplace.trans h.shows.inPlace,
    hholder.trans h.shows.holder, ?_, ?_, fun hjoined => hstage.trans (h.shows.ended hjoined), ?_,
    ?_⟩ h.starter (fun _ => id) hpermits
  · rw [hstatus]
    exact h.shows.started
  · rw [hstatus]
    exact h.shows.stopRequested
  · rw [hstatus]
    exact h.shows.finished
  · unfold System.LeavesSummary
    rw [hstage, hstatus]
    exact h.shows.leaves

/-- A step of a call leaves the phase as it is, or is what comes next. -/
theorem At.callStep (h : s.At calls phase) (hstep : s.callStep i = some s') :
    s'.At calls phase ∨ ∃ phase', phase.Next i phase' ∧ s'.At calls phase' := by
  have hmoves : ∀ {s' : Service S W} {call call' : Call} {phase' : Phase},
      s.calls[i]? = some call → s'.calls = s.calls.set i call' → phase.Next i phase' →
      s'.Shows phase' → (∀ {j : CallId}, phase'.starter = some j → calls[j]? = some .starting) →
      (∀ {first}, phase.Permits i first call → phase'.Permits i first call') →
      s'.At calls phase ∨ ∃ phase', phase.Next i phase' ∧ s'.At calls phase' :=
    fun hcall hcalls hnext hshows hstarter hpermits =>
      Or.inr ⟨_, hnext, h.set hcall hcalls hshows hstarter hnext.permits hpermits⟩
  cases acts_of_callStep hstep with
  | refused hcall | unencoded hcall =>
    refine Or.inl (h.quiet hcall rfl rfl rfl rfl rfl ⟨_, rfl⟩ ?_)
    rintro first rfl
    exact nofun
  | accepted hcall =>
    exact Or.inl (h.quiet hcall rfl rfl rfl rfl rfl ⟨_, rfl⟩ fun hfirst => ⟨_, hfirst⟩)
  | unsent hcall | sent hcall =>
    refine Or.inl (h.quiet hcall rfl rfl rfl rfl rfl ⟨_, rfl⟩ ?_)
    rintro first ⟨request, rfl⟩
    exact nofun
  | sentRead hcall => exact Or.inl (h.quiet hcall rfl rfl rfl rfl rfl ⟨_, rfl⟩ id)
  | @got token since result hcall =>
    refine Or.inl (h.quiet hcall rfl rfl rfl rfl rfl ⟨_, rfl⟩ ?_)
    rintro first ⟨request, rfl⟩
    cases result <;> exact nofun
  | tooLate hcall hlaunched =>
    refine Or.inl (h.quiet hcall rfl rfl rfl rfl rfl ⟨_, rfl⟩ ?_)
    rintro first ⟨rfl, hstarter⟩
    exact Or.inr ⟨rfl, h.shows.launched ▸ hlaunched, hstarter⟩
  | spawned hcall => exact Or.inl (h.quiet hcall rfl rfl rfl rfl rfl ⟨_, rfl⟩ id)
  | tooEarly hcall =>
    refine Or.inl (h.quiet hcall rfl rfl rfl rfl rfl ⟨_, rfl⟩ ?_)
    rintro first rfl
    exact Or.inl rfl
  | stops hcall hstarted =>
    exact Or.inl (h.quiet hcall rfl rfl rfl rfl rfl ⟨_, rfl⟩ fun hfirst =>
      ⟨hfirst, h.shows.started ▸ hstarted⟩)
  | reported hcall hholder hplace hsummary =>
    refine Or.inl (h.quiet hcall rfl rfl rfl rfl rfl ⟨_, rfl⟩ ?_)
    rintro first ⟨rfl, hstarted⟩
    obtain ⟨starter, summary, hfinished⟩ := Phase.exists_eq_finished hstarted (h.shows.inPlace ▸ hplace)
      (h.shows.holder ▸ hholder)
    rw [(h.shows.finished hfinished).1] at hsummary
    cases hsummary
    exact Or.inr ⟨starter, _, hfinished, rfl⟩
  | unreported hcall hholder hplace hsummary =>
    obtain ⟨first, -, -, hstarted⟩ := h.permits hcall
    obtain ⟨starter, summary, hfinished⟩ := Phase.exists_eq_finished hstarted (h.shows.inPlace ▸ hplace)
      (h.shows.holder ▸ hholder)
    rw [(h.shows.finished hfinished).1] at hsummary
    cases hsummary
  | sentStop hcall | unsentStop hcall =>
    exact Or.inl (h.quiet hcall rfl rfl rfl rfl rfl ⟨_, rfl⟩ id)
  | launches hcall hlaunched =>
    obtain ⟨first, hfirst, rfl, -⟩ := h.permits hcall
    have hphase : phase = .unlaunched := Phase.eq_unlaunched <| by
      rw [← Option.isNone_iff_eq_none, ← Option.not_isSome, ← h.shows.launched, hlaunched]
      rfl
    subst hphase
    refine hmoves hcall rfl .launch ⟨rfl, h.shows.inPlace, h.shows.holder, h.shows.started,
      h.shows.stopRequested, nofun, nofun, h.shows.leaves⟩ ?_ fun hfirst => ⟨hfirst.1, rfl⟩
    rintro j ⟨⟩
    exact hfirst
  | registered hcall =>
    obtain ⟨first, -, rfl, rfl⟩ := h.permits hcall
    exact hmoves hcall rfl .place ⟨h.shows.launched, rfl, h.shows.holder, h.shows.started,
      h.shows.stopRequested, nofun, nofun, h.shows.leaves⟩ h.starter fun hfirst => ⟨hfirst.1, rfl⟩
  | started hcall =>
    obtain ⟨first, -, rfl, rfl⟩ := h.permits hcall
    refine hmoves hcall rfl .mark ⟨h.shows.launched, h.shows.inPlace, h.shows.holder, rfl,
      h.shows.stopRequested, nofun, nofun, h.shows.leaves⟩ h.starter ?_
    rintro first ⟨rfl, -⟩
    exact Or.inl ⟨rfl, rfl, rfl⟩
  | claimed hcall hholder hplace =>
    obtain ⟨first, -, rfl, hstarted⟩ := h.permits hcall
    obtain ⟨starter, rfl⟩ := Phase.exists_eq_marked hstarted (h.shows.inPlace ▸ hplace)
    exact hmoves hcall rfl .claim ⟨h.shows.launched, rfl, rfl, h.shows.started,
      h.shows.stopRequested, nofun, nofun, h.shows.leaves⟩ h.starter fun hfirst =>
        ⟨hfirst.1, starter, rfl⟩
  | requestedStop hcall =>
    obtain ⟨first, -, rfl, starter, rfl⟩ := h.permits hcall
    exact hmoves hcall rfl .ask ⟨h.shows.launched, h.shows.inPlace, h.shows.holder,
      h.shows.started, rfl, nofun, nofun, h.shows.leaves⟩ h.starter fun hfirst =>
        ⟨hfirst.1, starter, rfl⟩
  | joined hcall hended =>
    obtain ⟨first, -, rfl, starter, rfl⟩ := h.permits hcall
    exact hmoves hcall rfl .join ⟨h.shows.launched, h.shows.inPlace, h.shows.holder,
      h.shows.started, h.shows.stopRequested, fun _ => System.stage_of_hasEnded hended, nofun,
      h.shows.leaves⟩ h.starter fun hfirst => ⟨hfirst.1, starter, rfl⟩
  | @stopped summary hcall =>
    obtain ⟨first, -, rfl, starter, rfl⟩ := h.permits hcall
    refine hmoves hcall rfl (.finish { summary with blockedReads := s.system.status.blocked })
      ⟨h.shows.launched, h.shows.inPlace, rfl, h.shows.started, h.shows.stopRequested,
        fun _ => h.shows.ended rfl, ?_, fun _ => rfl⟩ h.starter ?_
    · rintro _ _ ⟨⟩
      exact ⟨rfl, rfl⟩
    · rintro first ⟨rfl, -⟩
      exact Or.inr ⟨starter, _, rfl, rfl⟩
  -- the keeper has left a summary
  | abandoned hcall hsummary =>
    obtain ⟨first, -, rfl, starter, rfl⟩ := h.permits hcall
    have hsome := h.shows.leaves (Or.inr (h.shows.ended rfl))
    rw [hsummary] at hsome
    cases hsome

theorem At.keeperStep [Store S W] {interference : Option Interference} (h : s.At calls phase)
    (hstep : s.keeperStep interference = some s') : s'.At calls phase := by
  obtain ⟨-, system, hsystem, rfl⟩ := keeperStep_eq_some hstep
  have hended : s.system.stage ≠ .ended := by
    intro hended
    rw [System.step, hended] at hsystem
    cases hsystem
  have hconstants := System.constants_step hsystem
  refine ⟨⟨h.shows.launched, h.shows.inPlace, h.shows.holder,
    (congrArg (·.1) hconstants).trans h.shows.started,
    (congrArg (·.2.1) hconstants).trans h.shows.stopRequested,
    fun hjoined => absurd (h.shows.ended hjoined) hended, ?_, h.shows.leaves.step hsystem⟩,
    h.starter, h.calls⟩
  rintro starter summary rfl
  exact absurd (h.shows.ended rfl) hended

theorem Run.reaches [Store S W] {around : System.Surroundings S W} {later : List Request}
    (hrun : Run around s later s') (h : s.At calls phase) :
    ∃ phase', phase.Leads phase' ∧ s'.At calls phase' := by
  induction hrun with
  | first => exact ⟨phase, .refl, h⟩
  | call _ _ hstep ih =>
    obtain ⟨phase', hleads, hat⟩ := ih
    rcases hat.callStep hstep with hat' | ⟨phase'', hnext, hat'⟩
    · exact ⟨phase', hleads, hat'⟩
    · exact ⟨phase'', hleads.tail ⟨_, hnext⟩, hat'⟩
  | keeper _ _ hstep ih =>
    obtain ⟨phase', hleads, hat⟩ := ih
    exact ⟨phase', hleads, hat.keeperStep hstep⟩
  | tick _ _ ih | change _ _ _ ih =>
    obtain ⟨phase', hleads, hat⟩ := ih
    exact ⟨phase', hleads, ⟨⟨hat.shows.launched, hat.shows.inPlace, hat.shows.holder,
      hat.shows.started, hat.shows.stopRequested, hat.shows.ended, hat.shows.finished,
      hat.shows.leaves⟩, hat.starter, hat.calls⟩⟩

end

end Service

end HistoryKeeper
