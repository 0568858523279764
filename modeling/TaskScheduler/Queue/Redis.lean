import TaskScheduler.Config.Redis
import TaskScheduler.Queue.Basic
import TaskScheduler.Redis.Store
import TaskScheduler.Task.EnvelopeFault
import TaskScheduler.Text.Glob
import TaskScheduler.Text.Hex

/-!
# The task queue in Redis

Under a prefix there are a counter that gives the ids, a sorted set of the queued tasks, and a hash
for every task.  Each operation is one function of the store; it gives its answer and the store
afterwards, also when it fails half way, because what a script or a transaction did before it failed
is not undone.

Scripts compute in floating-point numbers, so the counter is rounded to 53 significant digits before
it becomes an id.
-/

namespace TaskScheduler

/-- A task queue in a store, by its settings. -/
structure RedisQueue where
  /-- The settings. -/
  config : RedisConfig
  deriving DecidableEq, Repr

namespace RedisQueue

open Redis

/-! ### Keys and members -/

/-- The key of the counter. -/
def seqKey (q : RedisQueue) : Bytes := Bytes.ofString (q.config.keyPrefix ++ ":seq")

/-- The key of the sorted set. -/
def queueKey (q : RedisQueue) : Bytes := Bytes.ofString (q.config.keyPrefix ++ ":queue")

/-- The key of the hash of a task. -/
def taskKey (q : RedisQueue) (id : String) : Bytes :=
  Bytes.ofString (q.config.keyPrefix ++ ":task:" ++ id)

/-- What a script makes of a whole number: it is rounded, and shown modulo `2 ^ 64`. -/
def scriptNumber (i : Int) : Nat := (Binary64.roundInt i % 2 ^ 64).toNat

/-- The id of a number. -/
def idText (n : Nat) : String := String.ofList (Hex.digits n)

/-- The member of the sorted set for a number. -/
def memberText (n : Nat) : Bytes := Bytes.ofString (String.ofList (Hex.padded n))

/-- The number that a script reads from a text in base sixteen.  It is a 64-bit word: a minus sign
takes it modulo `2 ^ 64`, and what does not fit becomes the greatest word. -/
def scriptRead? (cs : List Char) : Option Nat :=
  match Hex.readHex? cs with
  | none => none
  | some (negative, n) =>
    let word := if 2 ^ 64 ≤ n then 2 ^ 64 - 1 else if negative then (2 ^ 64 - n) % 2 ^ 64 else n
    some (scriptNumber word)

/-- The number of a member of the sorted set. -/
def memberNumber? (member : Bytes) : Option Nat :=
  scriptRead? (member.map fun b => Char.ofNat b.toNat)

/-- A field of a hash. -/
def field (name value : String) : Bytes × Bytes := (Bytes.ofString name, Bytes.ofString value)

/-- How long records are kept, in whole seconds and at least one. -/
def ttlSecs (q : RedisQueue) : Nat := max 1 q.config.resultTtl.secs

/-! ### Operations -/

/-- Queue a task.  A lower priority is popped first, and the older of two equal ones. -/
def push (q : RedisQueue) (e : Envelope) (priority : Int64) (s : Store) :
    Except QueueError String × Store :=
  match s.incr q.seqKey with
  | .error err => (.error (.storeFailed err.message), s)
  | .ok (n, s) =>
    let number := scriptNumber n
    let id := idText number
    match s.hset (q.taskKey id) [field "id" id, field "data" e.encode, field "state" "queued"] with
    | .error err => (.error (.storeFailed err.message), s)
    | .ok s =>
      match s.zadd q.queueKey priority.toInt (memberText number) with
      | .error err => (.error (.storeFailed err.message), s)
      | .ok s => (.ok id, s)

/-- Store the report of a task.  The record is written first and its time to live is set after; each
of the two happens whether or not the other succeeds. -/
def report (q : RedisQueue) (r : TaskReport) (now : Timestamp) (s : Store) :
    Except QueueError Unit × Store :=
  let record := r.toRecord now
  let key := q.taskKey record.id
  let fields :=
    [field "state" record.status.name, field "type" record.taskType,
      field "duration_ms" (wordText record.durationMs),
      field "finished_at" record.finishedAt.toOffsetText] ++
    (match record.error with
      | some e => [field "error" e]
      | none => []) ++
    (match record.result with
      | some v => [field "result" v.compact]
      | none => [])
  let written := s.hset key fields
  let s := match written with
    | .ok s => s
    | .error _ => s
  let kept := s.expire now.millis key q.ttlSecs
  let s := match kept with
    | .ok s => s
    | .error _ => s
  match written, kept with
  | .error err, _ => (.error (.storeFailed err.message), s)
  | .ok _, .error err => (.error (.storeFailed err.message), s)
  | .ok _, .ok _ => (.ok (), s)

/-- The report of a popped task whose body cannot be read. -/
def corruptReport (id reason : String) : TaskReport :=
  ⟨id, "unknown", .zero, .error (.ofText reason)⟩

/-- Report a popped task whose body cannot be read as failed, and say so. -/
def failPopped (q : RedisQueue) (id reason : String) (now : Timestamp) (s : Store) :
    Except QueueError PoppedTask × Store :=
  (.error (.corrupt id reason), (q.report (corruptReport id reason) now s).2)

/-- What the pop script gives: the id and perhaps the body of the task taken off the queue. -/
def popScript (q : RedisQueue) (s : Store) :
    Except StoreError (Option (String × Option Bytes)) × Store :=
  match s.zpopmin q.queueKey with
  | .error err => (.error err, s)
  | .ok none => (.ok none, s)
  | .ok (some (member, s)) =>
    match memberNumber? member with
    | none => (.error .badNumber, s)
    | some n =>
      let id := idText n
      match s.hget (q.taskKey id) (Bytes.ofString "data") with
      | .error err => (.error err, s)
      | .ok data =>
        match s.hset (q.taskKey id) [field "state" "popped"] with
        | .error err => (.error err, s)
        | .ok s => (.ok (some (id, data)), s)

/-- Take the first task off the queue.  A task whose body is missing or cannot be read is reported
as failed at once. -/
def pop (q : RedisQueue) (now : Timestamp) (s : Store) : Except QueueError PoppedTask × Store :=
  match q.popScript s with
  | (.error err, s) => (.error (.storeFailed err.message), s)
  | (.ok none, s) => (.error .empty, s)
  | (.ok (some (id, none)), s) => q.failPopped id "task hash has no data field" now s
  | (.ok (some (id, some data)), s) =>
    match Bytes.toString? data with
    | none => (.error (.storeFailed StoreError.badReply.message), s)
    | some body =>
      match Envelope.decode? body with
      | some e => (.ok (e.popped id), s)
      | none => q.failPopped id ("bad task body: " ++ Envelope.faultText body) now s

/-- Take a task that is still queued off the queue and record it as canceled. -/
def cancel (q : RedisQueue) (id : String) (now : Timestamp) (s : Store) :
    Except QueueError Unit × Store :=
  match scriptRead? id.toList with
  | none => (.error (.notFound id), s)
  | some n =>
    match s.zrem q.queueKey (memberText n) with
    | .error err => (.error (.storeFailed err.message), s)
    | .ok (false, s) => (.error (.notFound id), s)
    | .ok (true, s) =>
      let key := q.taskKey id
      match s.hset key [field "state" "canceled", field "error" TaskError.canceled.message,
          field "finished_at" now.toOffsetText] with
      | .error err => (.error (.storeFailed err.message), s)
      | .ok s =>
        match s.expire now.millis key q.ttlSecs with
        | .error err => (.error (.storeFailed err.message), s)
        | .ok s => (.ok (), s)

/-! ### Records -/

/-- The fields of a hash as texts, if all of them are. -/
def textFields? : List (Bytes × Bytes) → Option (List (String × String))
  | [] => some []
  | e :: rest =>
    match Bytes.toString? e.1, Bytes.toString? e.2, textFields? rest with
    | some k, some v, some fields => some ((k, v) :: fields)
    | _, _, _ => none

/-- The type of a task whose hash has the given fields: the field of that name, or the type of the
task's body. -/
def typeOf (id : String) (fields : List (String × String)) : Except QueueError String :=
  match FiniteMap.find "type" fields with
  | some t => .ok t
  | none =>
    match FiniteMap.find "data" fields with
    | none => .error (.corrupt id "missing data field")
    | some body =>
      match Envelope.decode? body with
      | some e => .ok e.taskType
      | none => .error (.unreadable "not a task envelope")

/-- The result in the given fields, if there is one. -/
def resultOf (fields : List (String × String)) : Except QueueError (Option Json) :=
  match FiniteMap.find "result" fields with
  | none => .ok none
  | some text =>
    match Json.parse? text with
    | some v => .ok (some v)
    | none => .error (.unreadable "not a JSON text")

/-- The duration in the given fields, zero when there is none. -/
def durationOf (id : String) (fields : List (String × String)) : Except QueueError UInt64 :=
  match FiniteMap.find "duration_ms" fields with
  | none => .ok 0
  | some text =>
    match wordLiteral? text with
    | some n => .ok n
    | none => .error (.corrupt id ("bad duration_ms '" ++ text ++ "'"))

/-- The time of finishing in the given fields, the present when there is none. -/
def finishedOf (id : String) (fields : List (String × String)) (now : Timestamp) :
    Except QueueError Timestamp :=
  match FiniteMap.find "finished_at" fields with
  | none => .ok now
  | some text =>
    match Timestamp.strict? text with
    | some t => .ok t
    | none => .error (.corrupt id "bad finished_at: not a timestamp")

/-- The record in the fields of a task's hash, if its state says that the task is finished. -/
def recordOf (id : String) (fields : List (String × String)) (now : Timestamp) :
    Except QueueError (Option ResultRecord) :=
  match (FiniteMap.find "state" fields).bind ReportStatus.ofName? with
  | none => .ok none
  | some status => do
    let taskType ← typeOf id fields
    let result ← resultOf fields
    let durationMs ← durationOf id fields
    let finishedAt ← finishedOf id fields now
    return some
      ⟨id, taskType, status, FiniteMap.find "error" fields, result, durationMs, finishedAt⟩

/-- The record of a task, if it is finished. -/
def get (q : RedisQueue) (id : String) (now : Timestamp) (s : Store) :
    Except QueueError (Option ResultRecord) :=
  match s.hash? (q.taskKey id) with
  | .error err => .error (.storeFailed err.message)
  | .ok h =>
    match textFields? h.entries with
    | none => .error (.storeFailed StoreError.badReply.message)
    | some fields => recordOf id fields now

/-! ### The whole queue -/

/-- The number of queued tasks. -/
def len (q : RedisQueue) (s : Store) : Except QueueError Nat :=
  match s.zcard q.queueKey with
  | .ok n => .ok n
  | .error err => .error (.storeFailed err.message)

/-- The pattern of the keys that `clear` removes. -/
def clearPattern (q : RedisQueue) : Bytes := Bytes.ofString (q.config.keyPrefix ++ ":*")

/-- Remove every key that matches the pattern of the prefix. -/
def clear (q : RedisQueue) (s : Store) : Except QueueError Unit × Store :=
  let keys := s.keys.filter (Glob.isMatch q.clearPattern)
  if keys.all fun k => (Bytes.toString? k).isSome then (.ok (), s.del keys)
  else (.error (.storeFailed StoreError.badReply.message), s)

end RedisQueue

end TaskScheduler
