import Mathlib.Algebra.Ring.Nat
import Mathlib.Data.List.Induction
import HistoryKeeper.Keeper.Tally
import HistoryKeeper.Proofs.Time.Duration

/-!
# The two totals of idle time

A wait is added to `idle` and, if the lock was given up, to `lockReleased`. `Tally.addWait` does the
two additions one after the other on a tally in place, in seconds and nanoseconds with a carry
(`Duration.carryAdd?`), so that an addition that overflows says which total it was for and leaves
what was done before it.

`Tally.accounted`: from an empty tally `lockReleased` never gets ahead of `idle`, so it is always
`idle` that overflows, before anything is changed.
-/

namespace HistoryKeeper

namespace Tally

inductive Total where
  | idle
  | lockReleased
  deriving DecidableEq, Repr

/-- Add a wait to one of the totals in place. A sum that overflows is not stored; the run dies of it
and the error says which total it was for. -/
def add : Total → Duration → EStateM Total Tally Unit
  | .idle, waited => fun t =>
    match t.idle.carryAdd? waited with
    | some idle => .ok () { t with idle }
    | none => .error .idle t
  | .lockReleased, waited => fun t =>
    match t.lockReleased.carryAdd? waited with
    | some lockReleased => .ok () { t with lockReleased }
    | none => .error .lockReleased t

/-- `recordIdle` as two additions in turn. -/
def addWait (waited : Duration) (lockReleased : Bool) : EStateM Total Tally Unit := do
  add .idle waited
  if lockReleased then add .lockReleased waited

/-- What a call is given: how long the wait was, and whether the lock was given up. -/
structure Wait where
  waited : Duration
  lockReleased : Bool
  deriving DecidableEq, Repr

/-- Calls one after the other, from an empty tally. -/
def recordAll (waits : List Wait) : Option Tally :=
  waits.foldlM (fun t w => t.recordIdle w.waited w.lockReleased) {}

/-- All waits together. -/
def idleNanos (waits : List Wait) : Nat :=
  (waits.map (·.waited.nanos)).sum

/-- The waits without the lock together. -/
def releasedNanos (waits : List Wait) : Nat :=
  ((waits.filter (·.lockReleased)).map (·.waited.nanos)).sum

theorem idleNanos_concat (waits : List Wait) (w : Wait) :
    idleNanos (waits ++ [w]) = idleNanos waits + w.waited.nanos := by
  simp [idleNanos]

theorem releasedNanos_concat (waits : List Wait) (w : Wait) :
    releasedNanos (waits ++ [w]) =
      releasedNanos waits + if w.lockReleased then w.waited.nanos else 0 := by
  rcases h : w.lockReleased <;> simp [releasedNanos, h]

theorem recordAll_concat (waits : List Wait) (w : Wait) :
    recordAll (waits ++ [w]) =
      (recordAll waits).bind fun t => t.recordIdle w.waited w.lockReleased := by
  simp [recordAll, List.foldlM_append]

variable {t t' : Tally} {waited : Duration} {lockReleased : Bool}

theorem recordIdle_eq_some_iff :
    t.recordIdle waited lockReleased = some t' ↔ addWait waited lockReleased t = .ok () t' := by
  simp only [recordIdle, addWait, bind, EStateM.bind, add, Duration.carryAdd?_eq_add?]
  rcases t.idle.add? waited with _ | idle
  · simp
  · rcases lockReleased with _ | _
    · simp [pure, EStateM.pure]
    · rcases h : t.lockReleased.add? waited with _ | released <;>
        simp [h]

theorem nanos_of_recordIdle (h : t.recordIdle waited lockReleased = some t') :
    t'.idle.nanos = t.idle.nanos + waited.nanos ∧
      t'.lockReleased.nanos =
        t.lockReleased.nanos + if lockReleased then waited.nanos else 0 := by
  simp only [recordIdle, Option.bind_eq_bind, Option.bind_eq_some_iff, Option.pure_def] at h
  obtain ⟨idle, hidle, h⟩ := h
  rcases lockReleased with _ | _
  · obtain rfl := Option.some.inj h
    exact ⟨Duration.nanos_of_add? hidle, rfl⟩
  · obtain ⟨released, hreleased, h⟩ := Option.bind_eq_some_iff.mp h
    obtain rfl := Option.some.inj h
    exact ⟨Duration.nanos_of_add? hidle, Duration.nanos_of_add? hreleased⟩

/-- The sum for `lockReleased` fits wherever the one for `idle` does. -/
theorem addWait_of_fits (lockReleased : Bool) (hle : t.lockReleased.nanos ≤ t.idle.nanos)
    (hfits : t.idle.nanos + waited.nanos ≤ Duration.longest.nanos) :
    ∃ t', addWait waited lockReleased t = .ok () t' := by
  obtain ⟨idle, hidle⟩ := Option.ne_none_iff_exists'.mp
    (mt Duration.add?_eq_none_iff.mp (Nat.not_lt.mpr hfits))
  obtain ⟨released, hreleased⟩ := Option.ne_none_iff_exists'.mp
    (mt (Duration.add?_eq_none_iff (a := t.lockReleased) (b := waited)).mp (by omega))
  simp only [addWait, bind, EStateM.bind, add, Duration.carryAdd?_eq_add?, hidle]
  rcases lockReleased with _ | _
  · exact ⟨_, rfl⟩
  · simp [hreleased]

theorem addWait_of_overflow (h : Duration.longest.nanos < t.idle.nanos + waited.nanos) :
    addWait waited lockReleased t = .error .idle t := by
  simp only [addWait, bind, EStateM.bind, add, Duration.carryAdd?_eq_add?,
    Duration.add?_eq_none_iff.mpr h]

theorem recordIdle_of_overflow (h : Duration.longest.nanos < t.idle.nanos + waited.nanos) :
    t.recordIdle waited lockReleased = none := by
  rw [recordIdle, Duration.add?_eq_none_iff.mpr h]
  rfl

theorem releasedNanos_le (waits : List Wait) : releasedNanos waits ≤ idleNanos waits := by
  induction waits using List.reverseRecOn with
  | nil => exact Nat.le_refl _
  | append_singleton waits w ih =>
    rw [idleNanos_concat, releasedNanos_concat]
    split <;> omega

theorem nanos_of_recordAll (waits : List Wait) :
    ∀ {t : Tally}, recordAll waits = some t →
      t.idle.nanos = idleNanos waits ∧ t.lockReleased.nanos = releasedNanos waits := by
  induction waits using List.reverseRecOn with
  | nil =>
    rintro t h
    obtain rfl := Option.some.inj h
    exact ⟨rfl, rfl⟩
  | append_singleton waits w ih =>
    intro t h
    rw [recordAll_concat] at h
    obtain ⟨before, hbefore, h⟩ := Option.bind_eq_some_iff.mp h
    obtain ⟨hidle, hreleased⟩ := ih hbefore
    obtain ⟨hidle', hreleased'⟩ := nanos_of_recordIdle h
    rw [idleNanos_concat, releasedNanos_concat]
    exact ⟨by omega, by omega⟩

theorem recordAll_isSome_iff (waits : List Wait) :
    (recordAll waits).isSome ↔ idleNanos waits ≤ Duration.longest.nanos := by
  induction waits using List.reverseRecOn with
  | nil => simp [recordAll, idleNanos]
  | append_singleton waits w ih =>
    rw [recordAll_concat, idleNanos_concat]
    rcases h : recordAll waits with _ | t
    · simp only [h, Option.isSome_none, Bool.false_eq_true, false_iff] at ih
      simp only [Option.bind_none, Option.isSome_none, Bool.false_eq_true, false_iff]
      omega
    · obtain ⟨hidle, hreleased⟩ := nanos_of_recordAll waits h
      have hle := releasedNanos_le waits
      rw [Option.bind_some, ← hidle]
      by_cases hfits : t.idle.nanos + w.waited.nanos ≤ Duration.longest.nanos
      · obtain ⟨t', ht'⟩ := addWait_of_fits w.lockReleased (by omega) hfits
        simp [recordIdle_eq_some_iff.mpr ht', hfits]
      · rw [recordIdle_of_overflow (Nat.lt_of_not_le hfits)]
        simp [hfits]

/-- Calls come through exactly as long as the waits sum up to a duration. Until then the totals are
the exact sums, that of `lockReleased` at most that of `idle`; and the next call either comes
through or fails in its addition to `idle` and leaves the tally as it was. -/
theorem accounted (waits : List Wait) :
    ((recordAll waits).isSome ↔ idleNanos waits ≤ Duration.longest.nanos) ∧
      ∀ t, recordAll waits = some t →
        t.idle.nanos = idleNanos waits ∧ t.lockReleased.nanos = releasedNanos waits ∧
          t.lockReleased.nanos ≤ t.idle.nanos ∧
          ∀ w : Wait,
            (idleNanos waits + w.waited.nanos ≤ Duration.longest.nanos →
              ∃ t', t.recordIdle w.waited w.lockReleased = some t' ∧
                addWait w.waited w.lockReleased t = .ok () t') ∧
            (Duration.longest.nanos < idleNanos waits + w.waited.nanos →
              t.recordIdle w.waited w.lockReleased = none ∧
                addWait w.waited w.lockReleased t = .error .idle t) := by
  refine ⟨recordAll_isSome_iff waits, fun t ht => ?_⟩
  obtain ⟨hidle, hreleased⟩ := nanos_of_recordAll waits ht
  have hle : t.lockReleased.nanos ≤ t.idle.nanos := by
    rw [hidle, hreleased]
    exact releasedNanos_le waits
  refine ⟨hidle, hreleased, hle, fun w => ?_⟩
  rw [← hidle]
  refine ⟨fun hfits => ?_, fun hover => ⟨recordIdle_of_overflow hover, addWait_of_overflow hover⟩⟩
  obtain ⟨t', ht'⟩ := addWait_of_fits w.lockReleased hle hfits
  exact ⟨t', recordIdle_eq_some_iff.mpr ht', ht'⟩

/-- The longest wait fits, and after it not one nanosecond more, even if that is the first time
without the lock. -/
theorem accounted_up_to_longest :
    ∃ t, recordAll [⟨.longest, false⟩] = some t ∧ t.idle = .longest ∧ t.lockReleased = .zero ∧
      addWait ⟨1, by decide⟩ true t = .error .idle t := by
  obtain ⟨hsome, hall⟩ := accounted [⟨.longest, false⟩]
  obtain ⟨t, ht⟩ := Option.isSome_iff_exists.mp (hsome.mpr (by decide))
  obtain ⟨_, _, _, hnext⟩ := hall t ht
  have hover := ((hnext ⟨⟨1, by decide⟩, true⟩).2 (by decide)).2
  refine ⟨t, ht, ?_, ?_, hover⟩ <;>
    · obtain rfl := Option.some.inj (ht.symm.trans rfl)
      rfl

end Tally

end HistoryKeeper
