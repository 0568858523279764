/-!
# Queue errors

Why an operation on a task queue failed.
-/

namespace TaskScheduler

/-- Why an operation on a task queue failed. -/
inductive QueueError where
  /-- No task is queued. -/
  | empty
  /-- The id is unknown or no longer queued. -/
  | notFound (id : String)
  /-- There is no connection to the store. -/
  | connectionFailed (reason : String)
  /-- A command of the store failed. -/
  | storeFailed (detail : String)
  /-- A stored text could not be read. -/
  | unreadable (detail : String)
  /-- A stored task lacks a field or holds a malformed one. -/
  | corrupt (id reason : String)
  deriving DecidableEq, Repr

namespace QueueError

/-- The text of an error. -/
def message : QueueError → String
  | empty => "queue is empty"
  | notFound id => "task " ++ id ++ " not found"
  | connectionFailed reason => "Redis connection failed: " ++ reason
  | storeFailed detail => "Redis operation failed: " ++ detail
  | unreadable detail => "Serialization failed: " ++ detail
  | corrupt id reason => "corrupt record for task " ++ id ++ ": " ++ reason

end QueueError

end TaskScheduler
