import TaskScheduler.Config.Environment
import TaskScheduler.Queue.Error

/-!
# Scheduler errors

Why an operation of a scheduler failed.
-/

namespace TaskScheduler

/-- Why an operation of a scheduler failed. -/
inductive SchedulerError where
  /-- The queue did not answer when a run started. -/
  | backendUnavailable (error : QueueError)
  /-- No pipeline is registered for the type of a pushed task. -/
  | unknownTaskType (taskType : String)
  /-- Another run is active. -/
  | alreadyRunning
  /-- The task has finished and only waits for its report. -/
  | taskFinished (id : String)
  /-- The settings are invalid. -/
  | config (error : ConfigError)
  /-- An operation of the queue failed. -/
  | backend (error : QueueError)
  deriving DecidableEq, Repr

/-- The text of an error. -/
def SchedulerError.message : SchedulerError → String
  | backendUnavailable e => "backend unavailable: " ++ e.message
  | unknownTaskType t => "unknown task type '" ++ t ++ "'"
  | alreadyRunning => "scheduler is already running"
  | taskFinished id => "task '" ++ id ++ "' already finished"
  | config e => e.message
  | backend e => e.message

end TaskScheduler
