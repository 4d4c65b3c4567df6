import HistoryKeeper.Time.Text

/-!
# Counts and times of a run

A keeper keeps a `Tally` while it runs and leaves a `Summary` when it ends.
-/

namespace HistoryKeeper

structure Tally where
  idle : Duration := .zero
  /-- The part of `idle` during which the lock was given up. -/
  lockReleased : Duration := .zero
  readsServed : Nat := 0
  readsFromPendingWrites : Nat := 0
  writesApplied : Nat := 0
  deriving DecidableEq, Repr

namespace Tally

/-- What a run dies of whose idle times do not fit a duration. -/
def overflow : String := "overflow when adding durations"

/-- Add a wait, unless the sum of the waits gets too long. -/
def recordIdle (t : Tally) (waited : Duration) (lockReleased : Bool) : Option Tally := do
  let t := { t with idle := ← t.idle.add? waited }
  if lockReleased then return { t with lockReleased := ← t.lockReleased.add? waited } else return t

end Tally

structure Summary where
  total : Duration := .zero
  busy : Duration := .zero
  idle : Duration := .zero
  /-- How long callers waited for answers, all together. -/
  blockedReads : Duration := .zero
  lockReleased : Duration := .zero
  lockReleaseCount : Nat := 0
  readsServed : Nat := 0
  readsFromPendingWrites : Nat := 0
  writesApplied : Nat := 0
  outstandingReads : Nat := 0
  outstandingWrites : Nat := 0
  failed : Bool := false
  deriving DecidableEq, Repr

/-- Whether the times fit together: the run is busy or idle, the lock is given up only while idle,
and for no time without a release. -/
def Summary.isConsistent (s : Summary) : Bool :=
  s.busy.nanos + s.idle.nanos = s.total.nanos && s.lockReleased.nanos ≤ s.idle.nanos &&
    (0 < s.lockReleaseCount || s.lockReleased.nanos = 0)

/-- The times and the releases; the other counts are left out. -/
def Summary.text (s : Summary) : String :=
  "Busy: " ++ s.busy.text ++ ", idle: " ++ s.idle.text ++ ", blocked reads: " ++
    s.blockedReads.text ++ ", lock released: " ++ s.lockReleased.text ++ ", lock release count: " ++
    String.ofList (Decimal.digits s.lockReleaseCount)

end HistoryKeeper
