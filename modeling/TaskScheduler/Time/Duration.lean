import TaskScheduler.Number.Power

/-!
# Durations

A `Duration` is a whole number of nanoseconds whose seconds fit 64 bits.  Whole milliseconds are
counted in a 64-bit word, so the count of a very long duration wraps.
-/

namespace TaskScheduler

/-- A span of time, exact to the nanosecond. -/
structure Duration where
  /-- The length in nanoseconds. -/
  nanos : Nat
  /-- The whole seconds fit 64 bits. -/
  nanos_lt : nanos < 2 ^ 64 * 10 ^ 9
  deriving DecidableEq, Repr

namespace Duration

/-- The empty duration. -/
def zero : Duration := ⟨0, by decide⟩

instance : Inhabited Duration := ⟨zero⟩

/-- The greatest duration. -/
def greatest : Duration := ⟨2 ^ 64 * 10 ^ 9 - 1, by decide⟩

/-- A length in nanoseconds, cut to the greatest duration. -/
def ofNanos (n : Nat) : Duration := if h : n < 2 ^ 64 * 10 ^ 9 then ⟨n, h⟩ else greatest

/-- A number of milliseconds. -/
def ofMillis (ms : UInt64) : Duration :=
  ⟨ms.toNat * 10 ^ 6, by have := ms.toNat_lt; omega⟩

/-- A number of seconds. -/
def ofSecs (s : UInt64) : Duration := ⟨s.toNat * 10 ^ 9, by have := s.toNat_lt; omega⟩

/-- The whole seconds. -/
def secs (d : Duration) : Nat := d.nanos / 10 ^ 9

/-- The nanoseconds beyond the whole seconds. -/
def subsecNanos (d : Duration) : Nat := d.nanos % 10 ^ 9

/-- The whole milliseconds, modulo `2 ^ 64`. -/
def millis (d : Duration) : UInt64 := UInt64.ofNat (d.nanos / 10 ^ 6)

/-- Whether the duration is empty. -/
def isZero (d : Duration) : Bool := d.nanos = 0

end Duration

/-- A point of the monotonic clock, in nanoseconds since the clock started. -/
abbrev Instant := Nat

/-- The time from one instant to another, zero when it lies in the past. -/
def Instant.since (now start : Instant) : Duration := Duration.ofNanos (now - start)

end TaskScheduler
