import HistoryKeeper.Time.Duration

/-!
# Instants and the time between them

`after?` and `since` as sums and differences of nanoseconds.
-/

namespace HistoryKeeper.Instant

variable {t earlier later : Instant} {d : Duration}

theorem le_iff {a b : Instant} : a ≤ b ↔ a.nanos ≤ b.nanos := Iff.rfl

theorem after?_eq_some_iff :
    t.after? d = some later ↔ later.nanos = t.nanos + d.nanos ∧ later.nanos < limit := by
  obtain ⟨later⟩ := later
  unfold after?
  split
  · simp only [Option.some.injEq, Instant.mk.injEq]
    omega
  · simp only [reduceCtorEq, false_iff]
    omega

theorem after?_nanos (h : t.after? d = some later) : later.nanos = t.nanos + d.nanos :=
  (after?_eq_some_iff.mp h).1

/-- Between what a clock can show there is no time too long for a duration. -/
theorem nanos_since (h : t.nanos < limit) : (t.since earlier).nanos = t.nanos - earlier.nanos := by
  have hfits : t.nanos - earlier.nanos < Word.size64 * nanosPerSecond := by
    have hlimit : limit < Word.size64 * nanosPerSecond := by decide
    omega
  rw [since, Duration.ofNanos?, dif_pos hfits]
  rfl

end HistoryKeeper.Instant
