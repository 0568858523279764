/-!
# Task errors

Why a task run did not produce a result.
-/

namespace TaskScheduler

/-- Why a task run did not produce a result. -/
inductive TaskError where
  /-- The task was canceled before or during processing. -/
  | canceled
  /-- The deadline of the task passed. -/
  | deadlineExceeded
  /-- A stage returned an error: its text, and the texts of its causes from the outermost in. -/
  | handler (text : String) (causes : List String)
  /-- A stage broke off with a message, at the given path of stages. -/
  | unexpected (text : String) (path : List String)
  /-- No pipeline is registered for the type of the task. -/
  | noPipeline (taskType : String)
  deriving DecidableEq, Repr

namespace TaskError

/-- A handler error without causes. -/
def ofText (text : String) : TaskError := handler text []

/-- The text of an error. -/
def message : TaskError → String
  | canceled => "task canceled"
  | deadlineExceeded => "task deadline exceeded"
  | handler text _ => text
  | unexpected text path => "unexpected error at [" ++ " > ".intercalate path ++ "]: " ++ text
  | noPipeline taskType => "no pipeline registered for task type '" ++ taskType ++ "'"

/-- Whether the error says that the context of the run ended. -/
def isContextError : TaskError → Bool
  | canceled => true
  | deadlineExceeded => true
  | _ => false

/-- The texts of a handler error, from the outermost to the root. -/
def handlerTexts? : TaskError → Option (List String)
  | handler text causes => some (text :: causes)
  | _ => none

end TaskError

end TaskScheduler
