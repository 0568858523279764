import TaskScheduler.Queue.Redis

/-!
# Connections to a queue in Redis

A connection carries the operations of a queue to its store.  The reply to a transaction is a list,
and a list with an error before other values cannot be read to its end: the connection is lost, and
the operation that comes next fails without reaching the store.  After that there is a new
connection.
-/

namespace TaskScheduler

/-- A connection to a queue in Redis. -/
structure RedisConnection where
  /-- The queue. -/
  queue : RedisQueue
  /-- The store in which the queue lies. -/
  store : Redis.Store
  /-- Whether the connection is lost. -/
  lost : Bool := false

namespace RedisConnection

/-- Carry an operation to the store, unless the connection is lost. -/
def carry {α : Type} (c : RedisConnection)
    (f : RedisQueue → Redis.Store → Except QueueError α × Redis.Store) :
    Except QueueError α × RedisConnection :=
  if c.lost then (.error (.storeFailed "broken pipe"), { c with lost := false })
  else
    let (answer, store) := f c.queue c.store
    (answer, { c with store := store })

/-- Carry a question to the store. -/
def ask {α : Type} (c : RedisConnection) (f : RedisQueue → Redis.Store → Except QueueError α) :
    Except QueueError α × RedisConnection :=
  c.carry fun q s => (f q s, s)

/-- Ask whether the store is there. -/
def ping (c : RedisConnection) : Except QueueError Unit × RedisConnection := c.ask fun _ _ => .ok ()

/-- Queue a task. -/
def push (c : RedisConnection) (e : Envelope) (priority : Int64) :
    Except QueueError String × RedisConnection :=
  c.carry fun q => q.push e priority

/-- Take the first task off the queue. -/
def pop (c : RedisConnection) (now : Timestamp) : Except QueueError PoppedTask × RedisConnection :=
  c.carry fun q => q.pop now

/-- Take a task that is still queued off the queue. -/
def cancel (c : RedisConnection) (id : String) (now : Timestamp) :
    Except QueueError Unit × RedisConnection :=
  c.carry fun q => q.cancel id now

/-- Store the report of a task.  When the record cannot be written, the reply has an error before
the answer of the command that follows, and the connection is lost. -/
def report (c : RedisConnection) (r : TaskReport) (now : Timestamp) :
    Except QueueError Unit × RedisConnection :=
  let unwritable := !(c.store.hash? (c.queue.taskKey r.id)).isOk
  let lost := !c.lost && unwritable
  let (answer, c) := c.carry fun q => q.report r now
  (answer, { c with lost := lost })

/-- The record of a task, if it is finished. -/
def get (c : RedisConnection) (id : String) (now : Timestamp) :
    Except QueueError (Option ResultRecord) × RedisConnection :=
  c.ask fun q => q.get id now

/-- The number of queued tasks. -/
def len (c : RedisConnection) : Except QueueError Nat × RedisConnection := c.ask RedisQueue.len

/-- Remove every key of the queue. -/
def clear (c : RedisConnection) : Except QueueError Unit × RedisConnection :=
  c.carry RedisQueue.clear

end RedisConnection

instance : TaskQueue RedisConnection where
  ping c := c.ping.1
  push := RedisConnection.push
  pop := RedisConnection.pop
  cancel := RedisConnection.cancel
  report := RedisConnection.report

end TaskScheduler
