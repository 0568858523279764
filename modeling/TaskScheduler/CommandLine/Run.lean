import TaskScheduler.CommandLine.Invocation
import TaskScheduler.Config.Redis
import TaskScheduler.Queue.Connection
import TaskScheduler.Simulation.Timeline

/-!
# Commands

What the commands of the program do to the store, and what they print.  A worker runs until every
queued task is finished and is interrupted then.
-/

namespace TaskScheduler.CommandLine

open Simulation (Action Script Machine)

/-- Why a command failed. -/
inductive Failure where
  /-- The payload is not a JSON text. -/
  | invalidData
  /-- The settings are refused. -/
  | config (e : ConfigError)
  /-- There is no store at the address. -/
  | unreachable (url : String)
  /-- The scheduler refused. -/
  | scheduler (e : SchedulerError)
  /-- The queue refused. -/
  | queue (e : QueueError)
  /-- The task is not queued. -/
  | notQueued (id : String)
  /-- The task has no record. -/
  | noResult (id : String)
  /-- The run broke off. -/
  | brokenOff
  deriving DecidableEq, Repr

/-- The text of a failure. -/
def Failure.message : Failure → String
  | .invalidData => "--data is not valid JSON"
  | .config e => e.message
  | .unreachable url => "failed to connect to " ++ url
  | .scheduler e => e.message
  | .queue e => e.message
  | .notQueued id => "task " ++ id ++ " is not queued (unknown, running or finished)"
  | .noResult id => "no result recorded for task " ++ id
  | .brokenOff => "the run broke off"

/-- Where commands run. -/
structure Host where
  /-- The variables of the process. -/
  env : Environment
  /-- Whether there is a store at an address. -/
  reachable : String → Bool
  /-- The time of day. -/
  wall : Timestamp

/-! ### Settings -/

/-- The settings of the queue.  The environment must be valid by itself before the options override
it. -/
def redisConfig (h : Host) (i : Invocation) : Except ConfigError RedisConfig := do
  let c ← RedisConfig.ofEnvironment h.env
  let c := { c with url := i.redisUrl.getD c.url, keyPrefix := i.keyPrefix.getD c.keyPrefix }
  c.validate
  return c

/-- The settings of a worker.  The environment must be valid by itself before the option overrides
it. -/
def workerConfig (h : Host) (waitBuffer : Option UInt64) : Except ConfigError SchedulerConfig := do
  let c ← SchedulerConfig.ofEnvironment h.env
  let c := c.setSome .waitBuffer waitBuffer
  c.validate
  return c

/-- Connect to the store. -/
def connect (h : Host) (i : Invocation) (store : Redis.Store) : Except Failure RedisConnection :=
  match redisConfig h i with
  | .error e => .error (.config e)
  | .ok c => if h.reachable c.url then .ok ⟨⟨c⟩, store, false⟩ else .error (.unreachable c.url)

/-! ### Pipelines -/

/-- The pipelines of a worker: tasks of one type, which return their payload. -/
def withEcho {β : Type} (s : Scheduler β Script) : Scheduler β Script :=
  s.register echoType ⟨"reply", [.giveData]⟩

/-! ### Commands -/

/-- Queue a task and print its id. -/
def runPush (h : Host) (i : Invocation) (taskType data : String) (timeoutMs : UInt64)
    (priority : Int64) (store : Redis.Store) : Except Failure (List String) × Redis.Store :=
  match Json.parse? data with
  | none => (.error .invalidData, store)
  | some payload =>
    match connect h i store with
    | .error e => (.error e, store)
    | .ok c =>
      let producer : Scheduler RedisConnection Script :=
        withEcho { config := .default, queue := c }
      let timeout := if timeoutMs = 0 then none else some (Duration.ofMillis timeoutMs)
      let (answer, s) := producer.push taskType payload timeout (some priority)
      match answer with
      | .ok id => (.ok [id], s.queue.store)
      | .error e => (.error (.scheduler e), s.queue.store)

/-- Take a task off the queue.  The line that says so is broken where the id holds a line break. -/
def runCancel (h : Host) (i : Invocation) (id : String) (store : Redis.Store) :
    Except Failure (List String) × Redis.Store :=
  match connect h i store with
  | .error e => (.error e, store)
  | .ok c =>
    let (answer, c) := c.cancel id h.wall
    match answer with
    | .ok () => (.ok (("canceled " ++ id).splitOn "\n"), c.store)
    | .error (.notFound _) => (.error (.notQueued id), c.store)
    | .error e => (.error (.queue e), c.store)

/-- Print the record of a task. -/
def runResult (h : Host) (i : Invocation) (id : String) (store : Redis.Store) :
    Except Failure (List String) × Redis.Store :=
  match connect h i store with
  | .error e => (.error e, store)
  | .ok c =>
    let (answer, c) := c.get id h.wall
    match answer with
    | .ok (some r) => (.ok (r.prettyText.splitOn "\n"), c.store)
    | .ok none => (.error (.noResult id), c.store)
    | .error e => (.error (.queue e), c.store)

/-- The number of queued tasks. -/
def queuedTasks (m : Machine RedisConnection) : Nat :=
  match m.scheduler.queue.len.1 with
  | .ok n => n
  | .error _ => 0

/-- Let a worker run until no task is queued and none is registered.  After a task that cannot be
popped the worker rests before it asks for the next one. -/
def workUntilDone : Nat → Machine RedisConnection → Machine RedisConnection
  | 0, m => m
  | n + 1, m =>
    if queuedTasks m = 0 && m.scheduler.registry.isEmpty then m
    else workUntilDone n (m.advance m.scheduler.config.pollInterval.nanos)

/-- Run the queued tasks. -/
def runWorker (h : Host) (i : Invocation) (waitBuffer : Option UInt64) (printMetrics : Bool)
    (store : Redis.Store) : Except Failure (List String) × Redis.Store :=
  match workerConfig h waitBuffer with
  | .error e => (.error (.config e), store)
  | .ok config =>
    match connect h i store with
    | .error e => (.error e, store)
    | .ok c =>
      let worker : Machine RedisConnection :=
        { scheduler := withEcho { config := config, queue := c, metrics := some {} }
          wall := h.wall }
      let rounds := queuedTasks worker + 1
      let (_, m) := worker.start
      let m := (workUntilDone rounds m).shutDown
      let (_, m) := m.join m.scheduler.config.drainPollInterval.nanos
      let store := m.scheduler.queue.store
      match m.ending? 0 with
      | some (.returned (.error e)) => (.error (.scheduler e), store)
      | some (.returned (.ok ())) =>
        let lines := if printMetrics then (m.scheduler.metrics.map Metrics.lines).getD [] else []
        (.ok lines, store)
      | _ => (.error .brokenOff, store)

/-- Run a command.  Gives the lines that it prints, or why it failed, and the store afterwards. -/
def Invocation.run (h : Host) (i : Invocation) (store : Redis.Store) :
    Except Failure (List String) × Redis.Store :=
  match i.command with
  | .worker waitBuffer printMetrics => runWorker h i waitBuffer printMetrics store
  | .push taskType data timeoutMs priority => runPush h i taskType data timeoutMs priority store
  | .cancel id => runCancel h i id store
  | .result id => runResult h i id store

end TaskScheduler.CommandLine
