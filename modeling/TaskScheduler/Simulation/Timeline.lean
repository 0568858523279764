import TaskScheduler.Simulation.Machine

/-!
# The time of a simulation

Time moves from one instant at which something is due to the next, and at each of them everything
runs until it waits.
-/

namespace TaskScheduler.Simulation.Machine

variable {β : Type} [TaskQueue β]

/-- How many steps the threads may take at one instant. -/
def stepLimit : Nat := 10 ^ 8

/-- Run everything that can run at the present instant. -/
def run (m : Machine β) : Machine β := m.wake.settle stepLimit

/-! ### The clock -/

/-- Until when the loops of a run rest. -/
def restingUntil (r : Run) : List Instant :=
  match r.phase with
  | .looping l =>
    (match l.pop with
      | .resting wake => [wake]
      | _ => []) ++
    (match l.dispatch with
      | .resting wake => [wake]
      | _ => [])
  | _ => []

/-- The next instant at which something is due, at most the given limit. -/
def nextInstant (m : Machine β) (limit : Instant) : Option Instant :=
  let due := m.alarms.values ++ m.scheduler.runs.flatMap restingUntil ++
    m.scheduler.contexts.timers.map Timer.due
  earliest ((due.map wakeTime).filter fun t => m.now < t && t ≤ limit)

/-- Move the clock to an instant, fire the timers that are due, and run what can run. -/
def passTo (m : Machine β) (t : Instant) : Machine β :=
  let m := m.apply (.pass (t - m.now))
  let m := m.scheduler.contexts.timers.foldl (fun m _ => m.apply .fireTimer) m
  m.run

/-- Let time pass up to a limit, or until a machine is as wanted. -/
def passUntil (wanted : Machine β → Bool) (limit : Instant) : Nat → Machine β → Machine β
  | 0, m => m.passTo limit
  | n + 1, m =>
    if wanted m then m
    else
      match m.nextInstant limit with
      | some t => passUntil wanted limit n (m.passTo t)
      | none => m.passTo limit

/-- How many instants there can be within a span: the clock shows whole milliseconds. -/
def instantsWithin (span : Nat) : Nat := span / 10 ^ 6 + 1

/-- Let a span pass. -/
def advance (m : Machine β) (span : Nat) : Machine β :=
  passUntil (fun _ => false) (m.now + span) (instantsWithin span) m

/-! ### Runs -/

/-- How a run ended, if it has. -/
inductive Ending where
  /-- It returned. -/
  | returned (result : Except SchedulerError Unit)
  /-- It broke off. -/
  | brokenOff

/-- How a run has ended, if it has. -/
def ending? (m : Machine β) (i : Nat) : Option Ending :=
  match m.scheduler.runs[i]? with
  | some ⟨.returned result, _⟩ => some (.returned result)
  | some ⟨.brokenOff, _⟩ => some .brokenOff
  | _ => none

/-- Call for a run.  Says how it ended if it ended at once. -/
def start (m : Machine β) : Option Ending × Machine β :=
  let i := m.scheduler.runs.length
  let m := (m.apply .callRun).apply (.ping i)
  let m := if (m.scheduler.loops? i).isSome then (m.spawn (.dispatch i)).spawn (.pop i) else m
  let m := m.run
  match m.ending? i with
  | some e => (some e, m)
  | none => (none, { m with unjoined := i :: m.unjoined })

/-- Ask every run to stop.  At most one of them is still at work. -/
def shutDown (m : Machine β) : Machine β :=
  m.scheduler.runs.length.fold (fun i _ m => m.apply (.shutDown i)) m |>.run

/-- What came of waiting for a run. -/
inductive JoinAnswer where
  /-- There is no run to wait for. -/
  | noRun
  /-- It has not ended in time. -/
  | stillRunning
  /-- It has ended. -/
  | ended (e : Ending)

/-- Wait for the latest run that nobody has waited for, at most for a span. -/
def join (m : Machine β) (span : Nat) : JoinAnswer × Machine β :=
  match m.unjoined with
  | [] => (.noRun, m)
  | i :: rest =>
    let m := passUntil (fun m => (m.ending? i).isSome) (m.now + span) (instantsWithin span) m
    match m.ending? i with
    | some e => (.ended e, { m with unjoined := rest })
    | none => (.stillRunning, m)

end TaskScheduler.Simulation.Machine
