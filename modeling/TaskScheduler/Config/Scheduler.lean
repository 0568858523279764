import TaskScheduler.Config.Environment
import TaskScheduler.Time.Duration

/-!
# Scheduler settings
-/

namespace TaskScheduler

/-- The settings of a scheduler. -/
structure SchedulerConfig where
  /-- How many popped tasks may wait for dispatch. -/
  waitBuffer : Nat
  /-- How long to rest after the queue was empty or failed. -/
  pollInterval : Duration
  /-- How long to rest between two looks at the registry while draining. -/
  drainPollInterval : Duration
  /-- How often to log what the drain waits for. -/
  drainLogInterval : Duration
  /-- The priority of tasks pushed without one. -/
  defaultPriority : Int64
  deriving DecidableEq, Repr

namespace SchedulerConfig

/-- The settings used where nothing else is said. -/
def default : SchedulerConfig where
  waitBuffer := 12
  pollInterval := .ofMillis 100
  drainPollInterval := .ofMillis 50
  drainLogInterval := .ofSecs 5
  defaultPriority := 0

instance : Inhabited SchedulerConfig := ⟨default⟩

/-- Settings must leave room for a task and must not poll without rest. -/
def validate (c : SchedulerConfig) : Except ConfigError Unit :=
  if c.waitBuffer = 0 then .error (.validationFailed "wait_buffer must be greater than 0")
  else if c.pollInterval.isZero then
    .error (.validationFailed "poll_interval must be greater than 0")
  else if c.drainPollInterval.isZero then
    .error (.validationFailed "drain_poll_interval must be greater than 0")
  else .ok ()

/-- A change of one setting. -/
inductive Change where
  /-- Set the capacity of the wait buffer. -/
  | waitBuffer (n : UInt64)
  /-- Set the rest after an empty queue. -/
  | pollInterval (d : Duration)
  /-- Set the rest between two looks of the drain. -/
  | drainPollInterval (d : Duration)
  /-- Set the interval of the drain's log. -/
  | drainLogInterval (d : Duration)
  /-- Set the priority of tasks pushed without one. -/
  | defaultPriority (p : Int64)
  deriving DecidableEq, Repr

/-- The settings after a change. -/
def set (c : SchedulerConfig) : Change → SchedulerConfig
  | .waitBuffer n => { c with waitBuffer := n.toNat }
  | .pollInterval d => { c with pollInterval := d }
  | .drainPollInterval d => { c with drainPollInterval := d }
  | .drainLogInterval d => { c with drainLogInterval := d }
  | .defaultPriority p => { c with defaultPriority := p }

/-- The settings after a change, if there is one. -/
def setSome {α : Type} (c : SchedulerConfig) (change : α → Change) : Option α → SchedulerConfig
  | some a => c.set (change a)
  | none => c

/-- The settings that the environment asks for. -/
def ofEnvironment (env : Environment) : Except ConfigError SchedulerConfig := do
  let c := default
  let c := c.setSome .waitBuffer (← env.number? wordLiteral? "TASKFLOW_WAIT_BUFFER")
  let c := c.setSome (.pollInterval ∘ .ofMillis)
    (← env.number? wordLiteral? "TASKFLOW_POLL_INTERVAL_MS")
  let c := c.setSome (.drainPollInterval ∘ .ofMillis)
    (← env.number? wordLiteral? "TASKFLOW_DRAIN_POLL_MS")
  let c := c.setSome (.drainLogInterval ∘ .ofSecs)
    (← env.number? wordLiteral? "TASKFLOW_DRAIN_LOG_SECS")
  let c := c.setSome .defaultPriority (← env.number? intLiteral? "TASKFLOW_DEFAULT_PRIORITY")
  c.validate
  return c

end SchedulerConfig

end TaskScheduler
