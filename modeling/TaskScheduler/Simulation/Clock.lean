import TaskScheduler.Context.Basic
import TaskScheduler.Queue.Memory

/-!
# Virtual time

The clock of a simulation stands still while anything can run, and moves only when everything waits.
It shows whole milliseconds, so a timer is noticed at the first whole millisecond that is not before
it.
-/

namespace TaskScheduler.Simulation

/-- A number of milliseconds as a span of the clock. -/
def millis (ms : Nat) : Nat := ms * 10 ^ 6

/-- The first whole millisecond at or after an instant. -/
def wakeTime (t : Instant) : Instant := (t + 999999) / 10 ^ 6 * 10 ^ 6

/-- The earliest of some instants. -/
def earliest : List Instant → Option Instant
  | [] => none
  | t :: rest =>
    match earliest rest with
    | none => some t
    | some u => some (min t u)

/-! ### Waiting for a context -/

/-- Move the clock from timer to timer until a token is canceled or no timer is left up to the
limit. -/
def waitToken (token : TokenId) (limit : Instant) : Nat → ContextStore → ContextStore
  | 0, s => s
  | n + 1, s =>
    if s.isCanceled token then s
    else
      match earliest ((s.timers.map fun t => wakeTime t.due).filter fun t => t ≤ limit) with
      | none => s.passTo limit
      | some t => waitToken token limit n (s.passTo t).fireTimers

/-- Wait until a context is canceled, at most for the given span, and say whether it was. -/
def waitDone (c : Context) (span : Nat) (s : ContextStore) : Bool × ContextStore :=
  let s := waitToken c.token (s.now + span) (s.timers.length + 1) s
  (s.isCanceled c.token, s)

/-- Let time pass and fire every timer that becomes due. -/
def passTime (span : Nat) (s : ContextStore) : ContextStore :=
  (s.passTo (s.now + span)).fireTimers

/-! ### Waiting for reports -/

/-- A queue in memory, a clock, and reports that are still to come. -/
structure TimedQueue where
  /-- The present instant. -/
  now : Instant := 0
  /-- The queue. -/
  queue : MemoryQueue := {}
  /-- Reports to come with the instants at which they come. -/
  pending : List (Instant × TaskReport) := []
  deriving Inhabited

namespace TimedQueue

/-- Store the reports that are due. -/
def deliver (wall : Timestamp) (q : TimedQueue) : TimedQueue :=
  let due := q.pending.filter fun p => p.1 ≤ q.now
  { q with
    queue := due.foldl (fun m p => m.report p.2 wall) q.queue
    pending := q.pending.filter fun p => q.now < p.1 }

/-- Let a report come after a span. -/
def reportLater (wall : Timestamp) (span : Nat) (r : TaskReport) (q : TimedQueue) : TimedQueue :=
  deliver wall { q with pending := q.pending ++ [(q.now + span, r)] }

/-- Move the clock from report to report until there are enough or the limit is reached. -/
def waitCount (wall : Timestamp) (count : Nat) (limit : Instant) : Nat → TimedQueue → TimedQueue
  | 0, q => q
  | n + 1, q =>
    if count ≤ q.queue.reports.length then q
    else
      match earliest ((q.pending.map Prod.fst).filter fun t => t ≤ limit) with
      | none => { q with now := max q.now limit }
      | some t => waitCount wall count limit n (deliver wall { q with now := t })

/-- Wait for a number of reports, at most for the given span.  Gives all reports when there are
enough. -/
def waitForReports (wall : Timestamp) (count span : Nat) (q : TimedQueue) :
    Option (List TaskReport) × TimedQueue :=
  let q := waitCount wall count (q.now + span) (q.pending.length + 1) q
  (if count ≤ q.queue.reports.length then some q.queue.reports else none, q)

end TimedQueue

end TaskScheduler.Simulation
