import TaskScheduler.Json.Value
import TaskScheduler.Task.Error
import TaskScheduler.Time.Duration

/-!
# Reports

Every popped task ends with a report: either the result of its pipeline or the error that ended the
run.  The status of a report is read off its outcome.
-/

namespace TaskScheduler

/-- The final state of a task. -/
inductive ReportStatus where
  /-- The pipeline returned a result. -/
  | completed
  /-- A stage failed or broke off, or there was no pipeline. -/
  | failed
  /-- The deadline passed. -/
  | timeout
  /-- The task was canceled. -/
  | canceled
  deriving DecidableEq, Repr

namespace ReportStatus

/-- The name of a status. -/
def name : ReportStatus → String
  | completed => "completed"
  | failed => "failed"
  | timeout => "timeout"
  | canceled => "canceled"

/-- The status with a name. -/
def ofName? (s : String) : Option ReportStatus :=
  if s = "completed" then some completed
  else if s = "failed" then some failed
  else if s = "timeout" then some timeout
  else if s = "canceled" then some canceled
  else none

/-- What is said of a text that names no status. -/
def unknownMessage (s : String) : String := "unknown report status '" ++ s ++ "'"

theorem ofName?_name (s : ReportStatus) : ofName? s.name = some s := by
  cases s <;> decide

end ReportStatus

/-- How a task run ended. -/
abbrev Outcome := Except TaskError Json

instance : DecidableEq Outcome
  | .ok a, .ok b => decidable_of_iff (a = b) ⟨fun h => h ▸ rfl, fun h => Except.ok.inj h⟩
  | .error a, .error b => decidable_of_iff (a = b) ⟨fun h => h ▸ rfl, fun h => Except.error.inj h⟩
  | .ok _, .error _ => isFalse fun h => nomatch h
  | .error _, .ok _ => isFalse fun h => nomatch h

/-- The status of an outcome. -/
def Outcome.status : Outcome → ReportStatus
  | .ok _ => .completed
  | .error .canceled => .canceled
  | .error .deadlineExceeded => .timeout
  | .error _ => .failed

/-- The report that ends a popped task. -/
structure TaskReport where
  /-- The id of the task. -/
  id : String
  /-- The type of the task. -/
  taskType : String
  /-- The time from pop to completion. -/
  duration : Duration
  /-- The result or the error. -/
  outcome : Outcome
  deriving DecidableEq, Repr

namespace TaskReport

/-- The status of a report. -/
def status (r : TaskReport) : ReportStatus := Outcome.status r.outcome

/-- The result, if the task completed. -/
def result? (r : TaskReport) : Option Json := r.outcome.toOption

/-- The error, if the task did not complete. -/
def error? (r : TaskReport) : Option TaskError :=
  match r.outcome with
  | .ok _ => none
  | .error e => some e

/-- Whether the task completed. -/
def isSuccess (r : TaskReport) : Bool := r.outcome.isOk

end TaskReport

end TaskScheduler
