import Mathlib.Tactic.SplitIfs
import HistoryKeeper.Time.Duration

/-!
# Sums of durations

A duration is its whole seconds and the nanoseconds beyond them. Adding these with a carry is adding
the nanoseconds as a whole (`carryAdd?_eq_add?`).
-/

namespace HistoryKeeper.Duration

variable {a b : Duration}

theorem nanos_eq (d : Duration) : d.nanos = d.seconds * nanosPerSecond + d.subsecond :=
  (Nat.div_add_mod' ..).symm

theorem subsecond_lt (d : Duration) : d.subsecond < nanosPerSecond :=
  Nat.mod_lt _ (by decide)

theorem seconds_lt (d : Duration) : d.seconds < Word.size64 :=
  Nat.div_lt_of_lt_mul (by rw [Nat.mul_comm]; exact d.nanos_lt)

/-- The sum of the seconds and of the nanoseconds, with a carry from these to those. There is none
if the seconds leave 64 bits. -/
def carryAdd? (a b : Duration) : Option Duration :=
  let seconds := a.seconds + b.seconds
  let nanos := a.subsecond + b.subsecond
  if seconds < Word.size64 then
    if nanos < nanosPerSecond then ofNanos? (seconds * nanosPerSecond + nanos)
    else if seconds + 1 < Word.size64 then
      ofNanos? ((seconds + 1) * nanosPerSecond + (nanos - nanosPerSecond))
    else none
  else none

theorem add?_eq_none_iff : a.add? b = none ↔ longest.nanos < a.nanos + b.nanos := by
  unfold add? ofNanos?
  have : longest.nanos + 1 = Word.size64 * nanosPerSecond := by decide
  split <;> simp only [reduceCtorEq, false_iff, true_iff] <;> omega

theorem nanos_of_add? {c : Duration} (h : a.add? b = some c) : c.nanos = a.nanos + b.nanos := by
  unfold add? ofNanos? at h
  split at h
  · exact (congrArg nanos (Option.some.inj h)).symm
  · simp at h

/-- The carry changes nothing: the sum is refused exactly when it is too long. -/
theorem carryAdd?_eq_add? (a b : Duration) : a.carryAdd? b = a.add? b := by
  have hsum : a.nanos + b.nanos =
      (a.seconds + b.seconds) * nanosPerSecond + (a.subsecond + b.subsecond) := by
    rw [a.nanos_eq, b.nanos_eq, Nat.add_mul]
    omega
  have hcarry : (a.seconds + b.seconds + 1) * nanosPerSecond =
      (a.seconds + b.seconds) * nanosPerSecond + nanosPerSecond := Nat.succ_mul ..
  have hnone (seconds : Nat) (hseconds : Word.size64 ≤ seconds)
      (h : seconds * nanosPerSecond ≤ a.nanos + b.nanos) : none = a.add? b := by
    have hsize := Nat.mul_le_mul_right nanosPerSecond hseconds
    have hlongest : longest.nanos < Word.size64 * nanosPerSecond := longest.nanos_lt
    exact (add?_eq_none_iff.mpr (by omega)).symm
  simp only [carryAdd?]
  split_ifs with hseconds hnanos hseconds'
  · rw [add?, hsum]
  · rw [add?, hsum, hcarry]
    exact congrArg ofNanos? (by omega)
  · exact hnone _ (Nat.le_of_not_lt hseconds') (by omega)
  · exact hnone _ (Nat.le_of_not_lt hseconds) (by omega)

end HistoryKeeper.Duration
