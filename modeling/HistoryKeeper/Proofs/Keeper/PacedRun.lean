import HistoryKeeper.Proofs.Keeper.Intervals
import HistoryKeeper.Proofs.Keeper.Run

/-!
# A keeper keeps to its pacing

A keeper touches its pacing in three ways: it starts it when it begins to serve, it gives the lock up
when that is due, and it has the lock back after it was given up (`System.Paces`). So the pacing of
a keeper is always one that a `Pacing.Run` leads to, whatever its store and its callers do, and the
lock is given up no more often than whole intervals fit into the time (`System.Run.pacing`).
-/

namespace HistoryKeeper

/-- The lock is about to be given up, or is so. -/
def Task.IsAway : Task → Prop
  | .releasing | .released | .reacquiring _ => True
  | _ => False

namespace System

variable {S W : Type} {s s' : System S W} {interference : Option Interference}

/-- What a step does to the pacing. -/
inductive Paces (s s' : System S W) : Prop
  | kept : s'.keeper.pacing = s.keeper.pacing → Paces s s'
  | started : s'.keeper.pacing = .start s.keeper.pacing.interval s.clock → Paces s s'
  | gaveUp : s.keeper.pacing.isReleaseDue s.clock = true →
      s'.keeper.pacing = s.keeper.pacing.release s.clock → Paces s s'
  | gotBack {store outcome} : s.stage = .working store (.reacquiring outcome) →
      s'.keeper.pacing = (s.keeper.pacing.reacquire s.clock).2 → Paces s s'

theorem paces_of_step [Store S W] (h : s.step interference = some s') : Paces s s' := by
  cases moves_of_step h with
  | entered => exact .started rfl
  | releases _ _ _ _ hdue => exact .gaveUp hdue rfl
  | awoke hstage hawakes =>
    cases hawakes with
    | reacquired => exact .gotBack hstage (pacing_hear ..)
    | _ => exact .kept (pacing_hear ..)
  | overflowed hstage hawakes =>
    cases hawakes with
    | reacquired => exact .gotBack hstage rfl
    | _ => exact .kept rfl
  | took | drained => exact .kept (pacing_enqueue ..)
  | _ => exact .kept rfl

/-- The pacing knows that the lock is given up. -/
def KnowsAway (s : System S W) : Prop :=
  ∀ store task, s.stage = .working store task → task.IsAway → s.keeper.pacing.isHeld = false

theorem KnowsAway.step [Store S W] (h : s.KnowsAway) (hstep : s.step interference = some s') :
    s'.KnowsAway := by
  cases moves_of_step hstep with
  | releases => exact fun _ _ _ _ => rfl
  | released hstage | brokenReleased hstage | tookReleased hstage | sawEndReleased hstage =>
    exact fun _ _ _ _ => h _ _ hstage trivial
  | openedCache hstage =>
    rintro _ _ ⟨⟩ haway
    exact h _ _ hstage haway
  | drained hstage =>
    intro store task htask
    cases hstage.symm.trans htask
  | _ => rintro _ _ ⟨⟩ ⟨⟩

theorem interval_of_paces (h : Paces s s') :
    s'.keeper.pacing.interval = s.keeper.pacing.interval := by
  cases h with
  | kept h => rw [h]
  | started h | gaveUp _ h | gotBack _ h =>
    rw [h]
    rfl

/-- The pacing of a run of a keeper. -/
structure Punctual (interval : Duration) (s : System S W) : Prop where
  same : s.keeper.pacing.interval = interval
  away : s.KnowsAway
  run : s.clock.nanos < Instant.limit → ∃ begun absences away,
    Pacing.Run (.start interval begun) begun absences away s.clock s.keeper.pacing

theorem Punctual.step [Store S W] {interval : Duration} (h : s.Punctual interval)
    (hstep : s.step interference = some s') : s'.Punctual interval := by
  have hpaces := paces_of_step hstep
  have hclock : s'.clock = s.clock := congrArg (·.2.2.2) (constants_step hstep)
  refine ⟨(interval_of_paces hpaces).trans h.same, h.away.step hstep, fun hlimit => ?_⟩
  rw [hclock] at hlimit ⊢
  obtain ⟨begun, absences, away, hrun⟩ := h.run hlimit
  cases hpaces with
  | kept hsame => exact ⟨begun, absences, away, hsame ▸ hrun⟩
  | started hstart =>
    rw [hstart, h.same]
    exact ⟨s.clock, [], _, .first hlimit⟩
  | gaveUp hdue hrelease => exact ⟨begun, absences, _, hrelease ▸ hrun.release hdue⟩
  | gotBack hstage hback =>
    have hheld := h.away _ _ hstage trivial
    cases away with
    | none =>
      rw [Pacing.isHeld, hrun.paced.state] at hheld
      cases hheld
    | some gone => exact ⟨begun, _, none, hback ▸ hrun.reacquire hheld⟩

theorem Punctual.congr {interval : Duration} (h : s.Punctual interval)
    (hkeeper : s'.keeper = s.keeper) (hstage : s'.stage = s.stage) (hclock : s'.clock = s.clock) :
    s'.Punctual interval := by
  refine ⟨hkeeper ▸ h.same, ?_, ?_⟩
  · unfold KnowsAway
    rw [hkeeper, hstage]
    exact h.away
  · rw [hkeeper, hclock]
    exact h.run

theorem Run.punctual [Store S W] {around : Surroundings S W} {start : System S W}
    {sent : List Request} {interval : Duration} (hstart : start.Punctual interval)
    (hrun : Run around start sent s) : s.Punctual interval := by
  induction hrun with
  | start => exact hstart
  | step _ _ hstep ih => exact ih.step hstep
  | send _ hsend ih =>
    obtain ⟨inbox, -, rfl⟩ := Option.map_eq_some_iff.mp hsend
    exact ih.congr rfl rfl rfl
  | @tick _ s nanos _ ih =>
    refine ⟨ih.same, ih.away, fun hlimit => ?_⟩
    have hle := Nat.le_add_right s.clock.nanos nanos
    obtain ⟨begun, absences, away, hrun⟩ := ih.run (Nat.lt_of_le_of_lt hle hlimit)
    exact ⟨begun, absences, away, hrun.pass _ hle hlimit⟩
  | disconnect _ ih | change _ _ _ ih | note _ _ _ ih => exact ih.congr rfl rfl rfl

/-- As long as the clock can show the time, the pacing of a keeper has been through a run of its own,
and the lock was given up once at most in every interval. -/
theorem Run.pacing [Store S W] {around : Surroundings S W} {interval : Duration} {lookup : Bool}
    {made clock : Instant} {opener : Opener S W} {world : W} {inbox : Inbox} {status : Status}
    {sent : List Request}
    (hrun : Run around (.start (.new interval lookup made) opener world inbox status clock) sent s)
    (hmade : made ≤ clock) (hlimit : s.clock.nanos < Instant.limit) :
    (∃ begun absences away,
      Pacing.Run (.start interval begun) begun absences away s.clock s.keeper.pacing) ∧
    s.keeper.pacing.releaseCount * interval.nanos ≤ s.clock.nanos := by
  have hstart : (System.start (.new interval lookup made) opener world inbox status clock :
      System S W).Punctual interval := by
    refine ⟨rfl, nofun, fun hlimit => ⟨made, [], none, ?_⟩⟩
    exact (Pacing.Run.first (Nat.lt_of_le_of_lt hmade hlimit)).pass clock hmade hlimit
  obtain ⟨begun, absences, away, hpacing⟩ := (hrun.punctual hstart).run hlimit
  refine ⟨⟨begun, absences, away, hpacing⟩, ?_⟩
  have hpaced := hpacing.paced
  have htimes := hpaced.times
  have hback := Instant.le_iff.mp hpaced.back
  cases haway : away with
  | none =>
    rw [haway] at htimes
    simp only [Option.getD_none] at htimes
    omega
  | some gone =>
    obtain ⟨-, hgone⟩ := hpaced.kept gone haway
    have hle := Instant.le_iff.mp hgone
    rw [haway] at htimes
    simp only [Option.getD_some] at htimes
    omega

end System

end HistoryKeeper
