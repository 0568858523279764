import TaskScheduler.Queue.Memory

/-!
# A queue with faults

A queue in memory of which chosen calls go wrong: the pop with a given number answers something
else, reports for some ids are refused, pushes are refused for a while.
-/

namespace TaskScheduler.Simulation

/-- A queue in memory with faults. -/
structure FaultyQueue where
  /-- The queue. -/
  queue : MemoryQueue := {}
  /-- The number of pops so far. -/
  pops : Nat := 0
  /-- What pops answer instead, by their numbers from one on. -/
  popFaults : FiniteMap Nat (Except QueueError PoppedTask) := .empty
  /-- How reports are refused, by the ids of their tasks. -/
  reportFaults : FiniteMap String QueueError := .empty
  /-- How pushes are refused at present. -/
  pushFault : Option QueueError := none

namespace FaultyQueue

/-- Queue a task, unless pushes are refused. -/
def push (q : FaultyQueue) (e : Envelope) (priority : Int64) :
    Except QueueError String × FaultyQueue :=
  match q.pushFault with
  | some err => (.error err, q)
  | none =>
    let (id, m) := q.queue.push e priority
    (.ok id, { q with queue := m })

/-- Take the first task off the queue, unless this pop is to answer something else. -/
def pop (q : FaultyQueue) : Except QueueError PoppedTask × FaultyQueue :=
  let q := { q with pops := q.pops + 1 }
  match q.popFaults.get? q.pops with
  | some answer => (answer, q)
  | none =>
    let (answer, m) := q.queue.pop
    (answer, { q with queue := m })

/-- Take a task that is still queued off the queue. -/
def cancel (q : FaultyQueue) (id : String) (now : Timestamp) :
    Except QueueError Unit × FaultyQueue :=
  let (answer, m) := q.queue.cancel id now
  (answer, { q with queue := m })

/-- Store a report, unless it is refused. -/
def report (q : FaultyQueue) (r : TaskReport) (now : Timestamp) :
    Except QueueError Unit × FaultyQueue :=
  match q.reportFaults.get? r.id with
  | some err => (.error err, q)
  | none => (.ok (), { q with queue := q.queue.report r now })

end FaultyQueue

instance : TaskQueue FaultyQueue where
  ping q := q.queue.ping
  push := FaultyQueue.push
  pop q _ := q.pop
  cancel := FaultyQueue.cancel
  report := FaultyQueue.report

end TaskScheduler.Simulation
