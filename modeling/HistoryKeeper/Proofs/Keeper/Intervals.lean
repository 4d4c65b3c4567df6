import Mathlib.Algebra.Ring.Nat
import HistoryKeeper.Keeper.Pacing
import HistoryKeeper.Proofs.Time.Instant

/-!
# Once per interval

`Pacing.Run` is what can happen to a pacing: time goes on, the lock is given up when that is due, and
it comes back. A run keeps a list of the times for which the lock was away, each with what `reacquire`
told of it, and that list is all that a pacing depends on (`Paced`): the deadline is an interval after
the lock last came back.

As the lock goes away at a deadline or later, it has been kept for a whole interval each time, and all
these intervals and absences fit one after the other into the time since the start
(`Run.once_per_interval`).
-/

namespace HistoryKeeper

namespace Pacing

/-- The lock was away from one instant until another, and so long as was told of it. -/
structure Absence where
  gone : Instant
  back : Instant
  told : Duration

/-- What can happen to a pacing from some instant on, with the absences of the lock that are over, the
oldest first, since when it is away, if it is, and the time, which a clock can show. -/
inductive Run (first : Pacing) (begun : Instant) :
    List Absence → Option Instant → Instant → Pacing → Prop
  | first : begun.nanos < Instant.limit → Run first begun [] first.releasedSince begun first
  | pass {absences away now p} (later : Instant) : Run first begun absences away now p →
      now ≤ later → later.nanos < Instant.limit → Run first begun absences away later p
  | release {absences away now p} : Run first begun absences away now p →
      p.isReleaseDue now = true → Run first begun absences (some now) now (p.release now)
  | reacquire {absences gone now p} : Run first begun absences (some gone) now p →
      p.isHeld = false →
      Run first begun (absences ++ [⟨gone, now, (p.reacquire now).1⟩]) none now (p.reacquire now).2

/-- When the lock came back last, or else when it was there first. -/
def keptSince (created : Instant) (absences : List Absence) : Instant :=
  (absences.getLast?.map (·.back)).getD created

/-- How long the lock was away, as far as was told. -/
def told (absences : List Absence) : Nat :=
  (absences.map (·.told.nanos)).sum

variable {interval : Duration} {created begun now t t' : Instant} {absences : List Absence}
  {away : Option Instant} {p first : Pacing}

@[simp] theorem keptSince_concat (created : Instant) (absences : List Absence) (a : Absence) :
    keptSince created (absences ++ [a]) = a.back := by
  simp [keptSince]

@[simp] theorem told_concat (absences : List Absence) (a : Absence) :
    told (absences ++ [a]) = told absences + a.told.nanos := by
  simp [told]

theorem isReleaseDue_iff :
    p.isReleaseDue t = true ↔ p.isHeld = true ∧ ∃ d, p.deadline = some d ∧ d ≤ t := by
  unfold isReleaseDue
  cases p.deadline with
  | none => simp
  | some d => simp

theorem isReleaseDue_mono (h : t ≤ t') (hdue : p.isReleaseDue t = true) :
    p.isReleaseDue t' = true := by
  obtain ⟨hheld, d, hd, hle⟩ := isReleaseDue_iff.mp hdue
  exact isReleaseDue_iff.mpr ⟨hheld, d, hd, Nat.le_trans hle h⟩

theorem not_isReleaseDue_of_released (h : p.isHeld = false) (t : Instant) :
    p.isReleaseDue t = false := by
  unfold isReleaseDue
  rw [h, Bool.false_and]

theorem not_isReleaseDue_of_no_deadline (h : p.deadline = none) (t : Instant) :
    p.isReleaseDue t = false := by
  unfold isReleaseDue
  rw [h, Bool.and_false]

/-- The pacing of a run. -/
structure Paced (interval : Duration) (created : Instant) (absences : List Absence)
    (away : Option Instant) (now : Instant) (p : Pacing) : Prop where
  same : p.interval = interval
  state : p.releasedSince = away
  count : p.releaseCount = absences.length + away.toList.length
  deadline : p.deadline = (keptSince created absences).after? interval
  back : keptSince created absences ≤ now
  /-- The intervals for which the lock was kept, and then the absences. -/
  past : created.nanos + absences.length * interval.nanos + told absences ≤
    (keptSince created absences).nanos
  /-- The lock was kept for an interval before it went away. -/
  kept : ∀ gone, away = some gone →
    (keptSince created absences).nanos + interval.nanos ≤ gone.nanos ∧ gone ≤ now
  tells : ∀ a ∈ absences, a.gone ≤ a.back ∧ a.told.nanos = a.back.nanos - a.gone.nanos

theorem paced_start (interval : Duration) (created : Instant) :
    Paced interval created [] none created (.start interval created) := by
  refine ⟨rfl, rfl, rfl, rfl, Nat.le_refl _, ?_, nofun, nofun⟩
  simp [told, keptSince]

theorem Paced.pass (h : Paced interval created absences away now p) {later : Instant}
    (hlater : now ≤ later) : Paced interval created absences away later p := by
  refine { h with back := Nat.le_trans h.back hlater, kept := fun gone haway => ?_ }
  obtain ⟨hkept, hgone⟩ := h.kept gone haway
  exact ⟨hkept, Nat.le_trans hgone hlater⟩

theorem Paced.release (h : Paced interval created absences away now p)
    (hdue : p.isReleaseDue now = true) :
    Paced interval created absences (some now) now (p.release now) := by
  obtain ⟨hheld, d, hd, hle⟩ := isReleaseDue_iff.mp hdue
  have hnone : away = none := by
    rw [← h.state]
    exact Option.isNone_iff_eq_none.mp hheld
  have hcount := h.count
  rw [hnone] at hcount
  refine { h with state := rfl, count := ?_, kept := fun gone hgone => ?_ }
  · exact congrArg (· + 1) hcount
  · cases hgone
    rw [h.deadline] at hd
    have hdeadline := Instant.after?_nanos hd
    exact ⟨hdeadline ▸ hle, Nat.le_refl _⟩

theorem Paced.reacquire {gone : Instant} (h : Paced interval created absences (some gone) now p)
    (hnow : now.nanos < Instant.limit) :
    Paced interval created (absences ++ [⟨gone, now, (p.reacquire now).1⟩]) none now
      (p.reacquire now).2 := by
  obtain ⟨hkept, hgone⟩ := h.kept gone rfl
  have htold : (p.reacquire now).1.nanos = now.nanos - gone.nanos := by
    simp only [Pacing.reacquire, h.state]
    exact Instant.nanos_since hnow
  refine ⟨h.same, rfl, ?_, ?_, ?_, ?_, nofun, fun a ha => ?_⟩
  · simpa [Pacing.reacquire] using h.count
  · rw [keptSince_concat, ← h.same]
    rfl
  · rw [keptSince_concat]
    exact Nat.le_refl _
  · -- the absences so far, the interval before this one, and this one
    have hpast := h.past
    have hle := Instant.le_iff.mp hgone
    simp only [keptSince_concat, told_concat, List.length_append, List.length_singleton, htold,
      Nat.add_mul, Nat.one_mul]
    omega
  · rcases List.mem_append.mp ha with ha | ha
    · exact h.tells a ha
    · cases List.mem_singleton.mp ha
      exact ⟨hgone, htold⟩

theorem Run.now_lt (hrun : Run first begun absences away now p) : now.nanos < Instant.limit := by
  induction hrun with
  | first h => exact h
  | pass _ _ _ hlater => exact hlater
  | release _ _ ih | reacquire _ _ ih => exact ih

theorem Run.paced (hrun : Run (.start interval created) created absences away now p) :
    Paced interval created absences away now p := by
  induction hrun with
  | first => exact paced_start interval created
  | pass later _ hle _ ih => exact ih.pass hle
  | release _ hdue ih => exact ih.release hdue
  | reacquire hrun _ ih => exact ih.reacquire hrun.now_lt

/-! ### Without a deadline -/

/-- Without a deadline nothing more happens, but that time goes on. -/
theorem Run.of_no_deadline (hrun : Run first begun absences away now p)
    (hdeadline : first.deadline = none) (hheld : first.isHeld = true) :
    p = first ∧ absences = [] := by
  induction hrun with
  | first => exact ⟨rfl, rfl⟩
  | pass _ _ _ _ ih => exact ih
  | release _ hdue ih =>
    rw [ih.1, not_isReleaseDue_of_no_deadline hdeadline] at hdue
    cases hdue
  | reacquire _ hreleased ih =>
    rw [ih.1, hheld] at hreleased
    cases hreleased

theorem Paced.held_of_no_deadline (h : Paced interval created absences away now p)
    (hnow : now.nanos < Instant.limit) (hdeadline : p.deadline = none) : p.isHeld = true := by
  cases haway : away with
  | none =>
    rw [isHeld, h.state, haway]
    rfl
  | some gone =>
    obtain ⟨hkept, hgone⟩ := h.kept gone haway
    have hle := Instant.le_iff.mp hgone
    rw [h.deadline, Instant.after?, if_pos (by omega)] at hdeadline
    cases hdeadline

theorem Paced.times (h : Paced interval created absences away now p) :
    created.nanos + p.releaseCount * interval.nanos + told absences ≤
      (away.getD (keptSince created absences)).nanos := by
  have hpast := h.past
  rw [h.count]
  cases haway : away with
  | none => simpa using hpast
  | some gone =>
    obtain ⟨hkept, -⟩ := h.kept gone haway
    simp only [Option.toList_some, List.length_singleton, Nat.add_mul, Nat.one_mul, Option.getD_some]
    omega

/-- The lock goes away at most once per interval for which it was kept, at a deadline that is an
interval after it last came back, or never, if the clock cannot show that; and what is told of an
absence is its length. -/
theorem Run.once_per_interval
    (hrun : Run (.start interval created) created absences away now p) :
    (∀ d, p.deadline = some d ↔
      d.nanos = (keptSince created absences).nanos + interval.nanos ∧ d.nanos < Instant.limit) ∧
    (p.deadline = none → ∀ absences' away' later p', Run p now absences' away' later p' →
      absences' = [] ∧ ∀ t, p'.isReleaseDue t = false) ∧
    (∀ t t', t ≤ t' → p.isReleaseDue t = true → p.isReleaseDue t' = true) ∧
    p.isHeld = away.isNone ∧ (p.isHeld = false → ∀ t, p.isReleaseDue t = false) ∧
    p.releaseCount = absences.length + away.toList.length ∧
    (∀ a ∈ absences, a.gone ≤ a.back ∧ a.told.nanos = a.back.nanos - a.gone.nanos) ∧
    created ≤ keptSince created absences ∧ keptSince created absences ≤ now ∧
    p.releaseCount * interval.nanos + (absences.map (·.told.nanos)).sum ≤
      (away.getD (keptSince created absences)).nanos - created.nanos := by
  have h := hrun.paced
  refine ⟨fun d => ?_, fun hnone absences' away' later p' hrun' => ?_, fun t t' hle => ?_, ?_,
    not_isReleaseDue_of_released, h.count, h.tells, ?_, h.back, ?_⟩
  · rw [h.deadline]
    exact Instant.after?_eq_some_iff
  · have hheld := h.held_of_no_deadline hrun.now_lt hnone
    obtain ⟨rfl, rfl⟩ := hrun'.of_no_deadline hnone hheld
    exact ⟨rfl, not_isReleaseDue_of_no_deadline hnone⟩
  · exact isReleaseDue_mono hle
  · rw [isHeld, h.state]
  · have hpast := h.past
    rw [Instant.le_iff]
    omega
  · have htimes := h.times
    unfold told at htimes
    omega

/-- Shortly before the clock ends, the lock goes away once, for five seconds; the next deadline is
beyond what the clock can show. -/
theorem Run.once_per_interval_of_late_start :
    let before (seconds : Nat) : Instant := ⟨Instant.limit - seconds * nanosPerSecond⟩
    ∃ p, Run (.start (.ofSeconds 2) (before 10)) (before 10)
        [⟨before 7, before 2, .ofSeconds 5⟩] none (before 1) p ∧
      p.deadline = none ∧ p.isReleaseDue (before 1) = false ∧ p.releaseCount = 1 ∧
      (Duration.ofSeconds 2).nanos + (Duration.ofSeconds 5).nanos ≤
        (before 2).nanos - (before 10).nanos := by
  intro before
  let first : Pacing := .start (.ofSeconds 2) (before 10)
  have hgone : Run first (before 10) [] (some (before 7)) (before 7) (first.release (before 7)) :=
    .release (.pass _ (.first (by decide)) (by decide) (by decide)) (by decide)
  have hback := (hgone.pass (before 2) (by decide) (by decide)).reacquire (by decide)
  have htold : ((first.release (before 7)).reacquire (before 2)).1 = .ofSeconds 5 := by decide
  rw [htold] at hback
  have hrun := hback.pass (before 1) (by decide) (by decide)
  have hdeadline : ((first.release (before 7)).reacquire (before 2)).2.deadline = none := by decide
  obtain ⟨-, hnever, -, -, -, hcount, -, -, -, htimes⟩ := hrun.once_per_interval
  refine ⟨_, hrun, hdeadline, (hnever hdeadline _ _ _ _ (.first hrun.now_lt)).2 _, hcount, ?_⟩
  rw [hcount] at htimes
  simpa [keptSince] using htimes

end Pacing

end HistoryKeeper
