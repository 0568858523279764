import TaskScheduler.Queue.Error
import TaskScheduler.Task.Record

/-!
# Task queues

What a scheduler needs of a queue.  Every operation gives its answer and the queue afterwards, so
any state machine with these operations is a queue.
-/

namespace TaskScheduler

/-- The operations of a task queue. -/
class TaskQueue (β : Type) where
  /-- Ask whether the queue is there. -/
  ping : β → Except QueueError Unit
  /-- Queue a task under a priority and give its id. -/
  push : β → Envelope → Int64 → Except QueueError String × β
  /-- Take the first task off the queue. -/
  pop : β → Timestamp → Except QueueError PoppedTask × β
  /-- Take a task that is still queued off the queue and record it as canceled. -/
  cancel : β → String → Timestamp → Except QueueError Unit × β
  /-- Store the report of a task. -/
  report : β → TaskReport → Timestamp → Except QueueError Unit × β

end TaskScheduler
