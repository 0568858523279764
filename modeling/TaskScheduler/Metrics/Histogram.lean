import TaskScheduler.Number.Shortest
import TaskScheduler.Time.Duration

/-!
# Histograms of durations

A histogram counts observations by the least bound that they do not exceed, and adds them up in
floating-point numbers in the order in which they were made.
-/

namespace TaskScheduler

namespace Duration

/-- The magnitude bits of a duration in seconds: whole seconds and the rest rounded, then added. -/
def asSeconds (d : Duration) : Nat :=
  Binary64.add (Binary64.ofNat d.secs)
    (Binary64.div (Binary64.ofNat d.subsecNanos) (Binary64.ofNat (10 ^ 9)))

end Duration

/-- A bound of a histogram, in thousandths. -/
abbrev Bound := Nat

namespace Bound

/-- The magnitude bits of a bound. -/
def magnitude (b : Bound) : Nat := Binary64.ofRatio b 1000

/-- The text of a bound. -/
def text (b : Bound) : String := String.ofList (Binary64.plainChars b.magnitude)

end Bound

/-- Counts of observations by bound. -/
structure Histogram where
  /-- The bounds in increasing order, each with the number of observations for which it is the least
  bound not exceeded. -/
  buckets : List (Bound × UInt64)
  /-- The number of observations, modulo `2 ^ 64`. -/
  count : UInt64
  /-- The magnitude bits of their sum. -/
  sum : Nat
  deriving DecidableEq, Repr

namespace Histogram

/-- The histogram without observations. -/
def empty (bounds : List Bound) : Histogram := ⟨bounds.map fun b => (b, 0), 0, 0⟩

/-- Count an observation at the least bound that it does not exceed. -/
def observeBuckets (x : Nat) : List (Bound × UInt64) → List (Bound × UInt64)
  | [] => []
  | (b, n) :: rest =>
    if x ≤ b.magnitude then (b, n + 1) :: rest else (b, n) :: observeBuckets x rest

/-- Add an observation, given by magnitude bits. -/
def observe (h : Histogram) (x : Nat) : Histogram :=
  ⟨observeBuckets x h.buckets, h.count + 1, Binary64.add h.sum x⟩

/-- For every bound the number of observations that do not exceed it. -/
def cumulative (seen : UInt64) : List (Bound × UInt64) → List (Bound × UInt64)
  | [] => []
  | (b, n) :: rest => (b, seen + n) :: cumulative (seen + n) rest

end Histogram

end TaskScheduler
