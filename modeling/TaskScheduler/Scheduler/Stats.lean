import TaskScheduler.Number.Binary64
import TaskScheduler.Task.Report

/-!
# Task counters

`Counters` counts the reports of a scheduler by outcome and adds up their durations in whole
milliseconds; `Stats` is the view of the counters at one moment.  All of them are words of 64 bits
and wrap.
-/

namespace TaskScheduler

/-- The counters as they are shown. -/
structure Stats where
  /-- Tasks whose pipeline is executing. -/
  running : UInt64
  /-- Tasks whose pipeline returned a result. -/
  completed : UInt64
  /-- Tasks that ended with an error of a stage, or without a pipeline. -/
  failed : UInt64
  /-- Tasks whose deadline passed. -/
  timedOut : UInt64
  /-- Tasks that were canceled. -/
  canceled : UInt64
  /-- The failed tasks of which a stage broke off. -/
  panicked : UInt64
  /-- The mean time from pop to report. -/
  averageDuration : Duration
  deriving DecidableEq, Repr

namespace Stats

/-- The number of tasks reported. -/
def total (s : Stats) : UInt64 := s.completed + s.failed + s.timedOut + s.canceled

/-- The share of completed tasks in percent, rounded after the division and after the scaling. -/
def successRate (s : Stats) : Binary64 :=
  if s.total = 0 then .ofMagnitude false 0
  else
    .ofMagnitude false (Binary64.mul
      (Binary64.div (Binary64.ofNat s.completed.toNat) (Binary64.ofNat s.total.toNat))
      (Binary64.ofNat 100))

end Stats

/-- What a scheduler counts. -/
structure Counters where
  /-- Tasks whose pipeline is executing. -/
  running : UInt64 := 0
  /-- Reports of completed tasks. -/
  completed : UInt64 := 0
  /-- Reports of failed tasks. -/
  failed : UInt64 := 0
  /-- Reports of tasks whose deadline passed. -/
  timedOut : UInt64 := 0
  /-- Reports of canceled tasks. -/
  canceled : UInt64 := 0
  /-- Reports of tasks of which a stage broke off. -/
  panicked : UInt64 := 0
  /-- The durations of all reports in whole milliseconds. -/
  totalMs : UInt64 := 0
  deriving DecidableEq, Repr, Inhabited

namespace Counters

/-- A pipeline starts. -/
def started (c : Counters) : Counters := { c with running := c.running + 1 }

/-- A pipeline stops. -/
def stopped (c : Counters) : Counters := { c with running := c.running - 1 }

/-- Count an outcome. -/
def countOutcome (c : Counters) : Outcome → Counters
  | .ok _ => { c with completed := c.completed + 1 }
  | .error .canceled => { c with canceled := c.canceled + 1 }
  | .error .deadlineExceeded => { c with timedOut := c.timedOut + 1 }
  | .error (.unexpected _ _) => { c with panicked := c.panicked + 1, failed := c.failed + 1 }
  | .error _ => { c with failed := c.failed + 1 }

/-- Count a report. -/
def record (c : Counters) (r : TaskReport) : Counters :=
  let c := c.countOutcome r.outcome
  { c with totalMs := c.totalMs + r.duration.millis }

/-- The number of reports. -/
def total (c : Counters) : UInt64 := c.completed + c.failed + c.timedOut + c.canceled

/-- The counters as they are shown.  The mean is a whole number of milliseconds, and zero without
reports. -/
def snapshot (c : Counters) : Stats where
  running := c.running
  completed := c.completed
  failed := c.failed
  timedOut := c.timedOut
  canceled := c.canceled
  panicked := c.panicked
  averageDuration := if c.total = 0 then .zero else .ofMillis (c.totalMs / c.total)

end Counters

end TaskScheduler
