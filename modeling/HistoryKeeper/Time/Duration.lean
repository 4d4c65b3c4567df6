import HistoryKeeper.Number.Decimal

/-!
# Durations and instants

A `Duration` is a count of nanoseconds below 2^64 seconds. An `Instant` is a clock reading; the
clock counts its seconds in 63 bits, so an instant too far ahead does not exist (`Instant.after?`).
-/

namespace HistoryKeeper

def nanosPerSecond : Nat := 1000000000

structure Duration where
  nanos : Nat
  nanos_lt : nanos < Word.size64 * nanosPerSecond

namespace Duration

instance : DecidableEq Duration := fun a b =>
  if h : a.nanos = b.nanos then isTrue (by cases a; cases b; cases h; rfl)
  else isFalse (fun he => h (he ▸ rfl))

instance : Repr Duration where
  reprPrec d _ := repr d.nanos

/-- The duration of `nanos` nanoseconds, if there is one. -/
def ofNanos? (nanos : Nat) : Option Duration :=
  if h : nanos < Word.size64 * nanosPerSecond then some ⟨nanos, h⟩ else none

def zero : Duration := ⟨0, by decide⟩

instance : Inhabited Duration := ⟨zero⟩

/-- The longest duration. -/
def longest : Duration :=
  ⟨Word.size64 * nanosPerSecond - 1, by decide⟩

def ofNanos (nanos : UInt64) : Duration :=
  ⟨nanos.toNat, by
    have := nanos.toNat_lt
    simp only [Word.size64, nanosPerSecond]
    omega⟩

def ofMillis (millis : UInt64) : Duration :=
  ⟨millis.toNat * 1000000, by
    have := millis.toNat_lt
    simp only [Word.size64, nanosPerSecond]
    omega⟩

def ofSeconds (seconds : UInt64) : Duration :=
  ⟨seconds.toNat * nanosPerSecond, by
    have := seconds.toNat_lt
    simp only [Word.size64, nanosPerSecond]
    omega⟩

def seconds (d : Duration) : Nat :=
  d.nanos / nanosPerSecond

/-- The nanoseconds beyond the whole seconds. -/
def subsecond (d : Duration) : Nat :=
  d.nanos % nanosPerSecond

def millis (d : Duration) : Nat :=
  d.nanos / 1000000

/-- The sum, unless it is too long. -/
def add? (a b : Duration) : Option Duration :=
  ofNanos? (a.nanos + b.nanos)

/-- The difference, zero if `b` is longer. -/
def saturatingSub (a b : Duration) : Duration :=
  ⟨a.nanos - b.nanos, Nat.lt_of_le_of_lt (Nat.sub_le ..) a.nanos_lt⟩

/-- The whole seconds and the rest, each rounded to a double, and their sum rounded again. -/
def toBinary64 (d : Duration) : Binary64 :=
  (Binary64.ofNat d.seconds).add
    ((Binary64.ofNat d.subsecond).div (Binary64.ofNat nanosPerSecond))

end Duration

/-! ### Instants -/

/-- A clock reading in nanoseconds. -/
structure Instant where
  nanos : Nat
  deriving DecidableEq, Repr, Inhabited

namespace Instant

instance : LE Instant := ⟨fun a b => a.nanos ≤ b.nanos⟩

instance (a b : Instant) : Decidable (a ≤ b) :=
  inferInstanceAs (Decidable (a.nanos ≤ b.nanos))

def zero : Instant := ⟨0⟩

/-- Where the clock's seconds end. -/
def limit : Nat := Word.size63 * nanosPerSecond

/-- The instant a duration later, if the clock can show it. -/
def after? (t : Instant) (d : Duration) : Option Instant :=
  if t.nanos + d.nanos < limit then some ⟨t.nanos + d.nanos⟩ else none

/-- The time from `earlier` to `t`; zero if `earlier` is the later one, and never more than the
longest duration. -/
def since (t earlier : Instant) : Duration :=
  (Duration.ofNanos? (t.nanos - earlier.nanos)).getD .longest

end Instant

end HistoryKeeper
