import TaskScheduler.Data.FiniteMap
import TaskScheduler.Queue.Basic
import TaskScheduler.Text.Hex

/-!
# The task queue in memory

The queue of one process: an ordered list of ids, the bodies of the queued tasks by id, the records
of finished tasks, and all reports in the order in which they came.
-/

namespace TaskScheduler

/-- Where a task stands in the queue: by priority, and by age among equal priorities. -/
structure QueueKey where
  /-- The priority; a lower one is popped first. -/
  priority : Int64
  /-- The number of the push. -/
  seq : Nat
  deriving DecidableEq, Repr

/-- Whether a place in the queue comes before another. -/
def QueueKey.before (a b : QueueKey) : Bool :=
  a.priority.toInt < b.priority.toInt || (a.priority == b.priority && a.seq < b.seq)

/-- A task queue in memory. -/
structure MemoryQueue where
  /-- The number of pushes so far. -/
  seq : Nat := 0
  /-- The ids of the queued tasks in pop order. -/
  order : List (QueueKey × String) := []
  /-- The places and bodies of the queued tasks. -/
  queued : FiniteMap String (QueueKey × Envelope) := .empty
  /-- The latest record of every task that has one. -/
  results : FiniteMap String ResultRecord := .empty
  /-- All reports, oldest first. -/
  reports : List TaskReport := []
  /-- Whether the queue answers when it is asked whether it is there. -/
  available : Bool := true
  deriving DecidableEq, Inhabited

namespace MemoryQueue

/-- Put an id into a list in pop order. -/
def insertOrdered (k : QueueKey) (id : String) :
    List (QueueKey × String) → List (QueueKey × String)
  | [] => [(k, id)]
  | e :: rest => if k.before e.1 then (k, id) :: e :: rest else e :: insertOrdered k id rest

/-- Ask whether the queue is there. -/
def ping (q : MemoryQueue) : Except QueueError Unit :=
  if q.available then .ok () else .error (.connectionFailed "memory backend marked unavailable")

/-- The id of the task pushed as the given number. -/
def idOf (seq : Nat) : String := String.ofList (Hex.digits seq)

/-- Queue a task and give its id. -/
def push (q : MemoryQueue) (e : Envelope) (priority : Int64) : String × MemoryQueue :=
  let seq := q.seq + 1
  let id := idOf seq
  let key : QueueKey := ⟨priority, seq⟩
  (id, { q with
    seq := seq
    order := insertOrdered key id q.order
    queued := q.queued.insert id (key, e) })

/-- Take the first task off the queue. -/
def pop (q : MemoryQueue) : Except QueueError PoppedTask × MemoryQueue :=
  match q.order with
  | [] => (.error .empty, q)
  | (_, id) :: rest =>
    match q.queued.get? id with
    | none => (.error (.corrupt id "queued id has no body"), { q with order := rest })
    | some (_, e) =>
      (.ok (e.popped id), { q with order := rest, queued := q.queued.erase id })

/-- The record of a task that was canceled while it was queued. -/
def canceledRecord (id : String) (e : Envelope) (now : Timestamp) : ResultRecord where
  id := id
  taskType := e.taskType
  status := .canceled
  error := some TaskError.canceled.message
  result := none
  durationMs := 0
  finishedAt := now

/-- Take a task that is still queued off the queue and record it as canceled. -/
def cancel (q : MemoryQueue) (id : String) (now : Timestamp) :
    Except QueueError Unit × MemoryQueue :=
  match q.queued.get? id with
  | none => (.error (.notFound id), q)
  | some (key, e) =>
    (.ok (), { q with
      order := q.order.filter fun o => o.1 ≠ key
      queued := q.queued.erase id
      results := q.results.insert id (canceledRecord id e now) })

/-- Store the report of a task. -/
def report (q : MemoryQueue) (r : TaskReport) (now : Timestamp) : MemoryQueue :=
  { q with results := q.results.insert r.id (r.toRecord now), reports := q.reports ++ [r] }

/-- The latest record of a task. -/
def get (q : MemoryQueue) (id : String) : Option ResultRecord := q.results.get? id

/-- The number of queued tasks. -/
def len (q : MemoryQueue) : Nat := q.order.length

end MemoryQueue

instance : TaskQueue MemoryQueue where
  ping := MemoryQueue.ping
  push q e priority :=
    let (id, q) := q.push e priority
    (.ok id, q)
  pop q _ := q.pop
  cancel := MemoryQueue.cancel
  report q r now := (.ok (), q.report r now)

end TaskScheduler
