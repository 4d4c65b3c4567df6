import HistoryKeeper.Time.Duration

/-!
# When the lock is given up

A keeper that is idle gives the store's lock up once `deadline` is reached. The deadline is one
interval after the start and after each time the lock came back, so the lock is given up at most
once per interval. `Pacing` only keeps time.
-/

namespace HistoryKeeper

structure Pacing where
  interval : Duration
  /-- None if the clock cannot show it; then the lock is never given up. -/
  deadline : Option Instant
  /-- Since when the lock is given up, if it is. -/
  releasedSince : Option Instant
  releaseCount : Nat
  deriving DecidableEq, Repr

namespace Pacing

def start (interval : Duration) (now : Instant) : Pacing :=
  { interval
    deadline := now.after? interval
    releasedSince := none
    releaseCount := 0 }

def isHeld (p : Pacing) : Bool :=
  p.releasedSince.isNone

def isReleaseDue (p : Pacing) (now : Instant) : Bool :=
  p.isHeld &&
    match p.deadline with
    | some deadline => deadline ≤ now
    | none => false

def release (p : Pacing) (now : Instant) : Pacing :=
  { p with
    releasedSince := some now
    releaseCount := p.releaseCount + 1 }

/-- The lock is back. The first component tells for how long it was given up. -/
def reacquire (p : Pacing) (now : Instant) : Duration × Pacing :=
  let released :=
    match p.releasedSince with
    | some since => now.since since
    | none => .zero
  (released, { p with releasedSince := none, deadline := now.after? p.interval })

end Pacing

end HistoryKeeper
