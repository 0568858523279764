import TaskScheduler.Config.Environment
import TaskScheduler.Time.Duration

/-!
# Settings of the Redis queue
-/

namespace TaskScheduler

/-- The settings of a task queue in Redis. -/
structure RedisConfig where
  /-- Where the store is. -/
  url : String
  /-- What every key begins with. -/
  keyPrefix : String
  /-- How long records of finished and canceled tasks are kept. -/
  resultTtl : Duration
  deriving DecidableEq, Repr

namespace RedisConfig

/-- The settings used where nothing else is said. -/
def default : RedisConfig where
  url := "redis://localhost:6379"
  keyPrefix := "taskflow"
  resultTtl := .ofSecs (7 * 24 * 60 * 60)

instance : Inhabited RedisConfig := ⟨default⟩

/-- There must be a place and a prefix, and records must be kept for a second at least. -/
def validate (c : RedisConfig) : Except ConfigError Unit :=
  if c.url = "" then .error (.validationFailed "url cannot be empty")
  else if c.keyPrefix = "" then .error (.validationFailed "key_prefix cannot be empty")
  else if c.resultTtl.secs = 0 then
    .error (.validationFailed "result_ttl must be at least one second")
  else .ok ()

/-- A change of one setting. -/
inductive Change where
  /-- Set the prefix of the keys. -/
  | keyPrefix (p : String)
  /-- Set how long records are kept. -/
  | resultTtl (d : Duration)
  deriving DecidableEq, Repr

/-- The settings after a change. -/
def set (c : RedisConfig) : Change → RedisConfig
  | .keyPrefix p => { c with keyPrefix := p }
  | .resultTtl d => { c with resultTtl := d }

/-- The settings that the environment asks for. -/
def ofEnvironment (env : Environment) : Except ConfigError RedisConfig := do
  let url := (env.text? "TASKFLOW_REDIS_URL").getD default.url
  let keyPrefix := (env.text? "TASKFLOW_KEY_PREFIX").getD default.keyPrefix
  let secs ← env.number? wordLiteral? "TASKFLOW_RESULT_TTL_SECS"
  let c : RedisConfig := ⟨url, keyPrefix, (secs.map Duration.ofSecs).getD default.resultTtl⟩
  c.validate
  return c

end RedisConfig

end TaskScheduler
