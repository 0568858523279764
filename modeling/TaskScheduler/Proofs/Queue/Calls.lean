import TaskScheduler.Queue.Memory
import TaskScheduler.Queue.Redis

/-!
# Calls

A client of a queue makes calls and gets answers.  Both queues are state machines over the same
calls, and a run lists the answers.
-/

namespace TaskScheduler

/-- What a client asks of a queue.  The time is the reading of the client's clock, where the queue
takes one. -/
inductive QueueCall where
  /-- Queue a task. -/
  | push (e : Envelope) (priority : Int64)
  /-- Take the first task. -/
  | pop (now : Timestamp)
  /-- Take a task that is still queued off the queue. -/
  | cancel (id : String) (now : Timestamp)
  /-- Store the report of a task. -/
  | report (r : TaskReport) (now : Timestamp)
  /-- Ask for the record of a task. -/
  | get (id : String) (now : Timestamp)
  /-- Ask for the number of queued tasks. -/
  | len
  /-- Ask whether no task is queued. -/
  | isEmpty

/-- The same call of a client whose clock shows another time. -/
def QueueCall.retime (now : Timestamp) : QueueCall → QueueCall
  | push e priority => push e priority
  | pop _ => pop now
  | cancel id _ => cancel id now
  | report r _ => report r now
  | get id _ => get id now
  | len => len
  | isEmpty => isEmpty

/-- What a queue answers, by the kind of the call. -/
inductive QueueAnswer where
  /-- The id of a pushed task. -/
  | pushed (answer : Except QueueError String)
  /-- A task that was taken. -/
  | popped (answer : Except QueueError PoppedTask)
  /-- Nothing but success. -/
  | done (answer : Except QueueError Unit)
  /-- The record of a task, if it is finished. -/
  | record (answer : Except QueueError (Option ResultRecord))
  /-- The number of queued tasks. -/
  | length (answer : Except QueueError Nat)
  /-- Whether no task is queued. -/
  | emptiness (answer : Except QueueError Bool)

/-- Whether a call is a push. -/
def QueueCall.isPush : QueueCall → Bool
  | push _ _ => true
  | _ => false

/-- The answer without the time at which a task finished. -/
def QueueAnswer.untimed : QueueAnswer → QueueAnswer
  | record answer => record (answer.map (Option.map fun r => { r with finishedAt := .epoch }))
  | answer => answer

/-! ### Runs -/

/-- The answers of a queue to calls, one after another, and the queue afterwards. -/
def QueueCall.run {σ : Type} (serve : σ → QueueCall → QueueAnswer × σ) (s : σ) :
    List QueueCall → List QueueAnswer × σ
  | [] => ([], s)
  | c :: calls =>
    let (answer, s) := serve s c
    let (answers, s) := run serve s calls
    (answer :: answers, s)

/-- In `QueueCall.run` the last call is answered by the queue that the others leave. -/
theorem QueueCall.run_concat {σ : Type} (serve : σ → QueueCall → QueueAnswer × σ) (s : σ)
    (calls : List QueueCall) (c : QueueCall) :
    run serve s (calls ++ [c]) =
      ((run serve s calls).1 ++ [(serve (run serve s calls).2 c).1],
        (serve (run serve s calls).2 c).2) := by
  induction calls generalizing s with
  | nil => rfl
  | cons c₀ calls ih =>
    rw [List.cons_append]
    unfold run
    dsimp only
    rw [ih]
    rfl

/-- How many tasks are pushed. -/
def QueueCall.pushes (calls : List QueueCall) : Nat := calls.countP isPush

/-- The ids of the tasks that were handed out. -/
def QueueAnswer.poppedIds (answers : List QueueAnswer) : List String :=
  answers.filterMap fun
    | popped (.ok task) => some task.id
    | _ => none

/-- The ids of the tasks that are reported. -/
def QueueCall.reportedIds (calls : List QueueCall) : List String :=
  calls.filterMap fun
    | report r _ => some r.id
    | _ => none

/-! ### The two queues -/

namespace MemoryQueue

/-- The answer to a call and the queue afterwards. -/
def serve (q : MemoryQueue) : QueueCall → QueueAnswer × MemoryQueue
  | .push e priority =>
    let (id, q) := q.push e priority
    (.pushed (.ok id), q)
  | .pop _ =>
    let (answer, q) := q.pop
    (.popped answer, q)
  | .cancel id now =>
    let (answer, q) := q.cancel id now
    (.done answer, q)
  | .report r now => (.done (.ok ()), q.report r now)
  | .get id _ => (.record (.ok (q.get id)), q)
  | .len => (.length (.ok q.len), q)
  | .isEmpty => (.emptiness (.ok (q.len == 0)), q)

end MemoryQueue

namespace RedisQueue

open Redis

/-- The answer to a call and the store afterwards. -/
def serve (q : RedisQueue) (s : Store) : QueueCall → QueueAnswer × Store
  | .push e priority =>
    let (answer, s) := q.push e priority s
    (.pushed answer, s)
  | .pop now =>
    let (answer, s) := q.pop now s
    (.popped answer, s)
  | .cancel id now =>
    let (answer, s) := q.cancel id now s
    (.done answer, s)
  | .report r now =>
    let (answer, s) := q.report r now s
    (.done answer, s)
  | .get id now => (.record (q.get id now s), s)
  | .len => (.length (q.len s), s)
  | .isEmpty => (.emptiness ((q.len s).map (· == 0)), s)

/-- The call sets a time to live, and the store refuses it: it is longer than `Store.maxTtl` admits
at the present. -/
def TtlRefused (q : RedisQueue) : QueueCall → Prop
  | .pop now | .cancel _ now | .report _ now => Store.maxTtl now.millis < q.ttlSecs
  | _ => False

end RedisQueue

end TaskScheduler
