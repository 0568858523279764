import TaskScheduler.Scheduler.Step

/-!
# Scripted stages

The stages of a simulation are scripts: lists of actions that a stage takes one after the other.  A
stage collects a value, `null` at first, and returns it at the end of its script.
-/

namespace TaskScheduler.Simulation

/-- The context under which a stage calls a pipeline. -/
inductive CallContext where
  /-- Its own. -/
  | own
  /-- A new one without a parent. -/
  | background
  /-- A new one that is canceled. -/
  | canceled
  /-- One derived from its own. -/
  | child (timeout : Option Duration)
  deriving DecidableEq, Repr

/-- What a stage does. -/
inductive Action where
  /-- Sleep for a span. -/
  | sleep (span : Nat)
  /-- Wait until the token of the context is canceled. -/
  | waitDone
  /-- Wait until a gate is open. -/
  | waitGate (gate : String)
  /-- Open a gate. -/
  | openGate (gate : String)
  /-- Fail if the context has ended. -/
  | check
  /-- Fail. -/
  | fail (e : TaskError)
  /-- Break off. -/
  | breakOff (p : Payload)
  /-- Cancel the task. -/
  | cancelSelf
  /-- Cancel the token of the context. -/
  | cancelContext
  /-- Cancel the base token. -/
  | cancelBase
  /-- Cancel a task by its id. -/
  | cancel (id : String)
  /-- Push a task. -/
  | push (taskType : String) (data : Json) (timeout : Option Duration) (priority : Option Int64)
  /-- Register stages. -/
  | register (taskType : String) (stages : List (Stage (List Action)))
  /-- Note how things stand. -/
  | note (label : Json)
  /-- Call a pipeline on the same task.  Its error is not passed on if it is caught. -/
  | callPipeline (taskType : String) (input : StageInput) (context : CallContext) (catches : Bool)
  /-- Set the value. -/
  | give (v : Json)
  /-- Set the value to the payload of the task. -/
  | giveData
  /-- Set the value to the input of the stage. -/
  | giveInput
  /-- Set the value to the input with an element added at its end. -/
  | append (v : Json)

/-- What a stage does, in order. -/
abbrev Script := List Action

/-- A pipeline that a stage has called. -/
structure Call where
  /-- The task type. -/
  taskType : String
  /-- The names of the stages. -/
  stages : List String
  /-- Whether an error is caught. -/
  catches : Bool
  deriving DecidableEq, Repr

/-- An executing stage. -/
structure Activation where
  /-- What is left to do. -/
  script : Script
  /-- The value so far. -/
  value : Json := .null
  /-- What the stage was given. -/
  input : StageInput
  /-- The context of the stage. -/
  context : Context
  /-- The pipeline for which the stage waits. -/
  call : Option Call := none

/-- The input with an element added at its end; an input that is no array counts as an empty one. -/
def appended (input : StageInput) (v : Json) : Json :=
  match input with
  | .value (.arr l) => .arr (l ++ [v])
  | _ => .arr [v]

/-! ### What is noted -/

/-- The call of the queue during which something was canceled. -/
inductive HookPoint where
  /-- A pop. -/
  | pop
  /-- A report. -/
  | report
  deriving DecidableEq, Repr

/-- What is noted about a task. -/
inductive NoteEvent where
  /-- It entered a stage. -/
  | entered (stage : String) (depth : Nat) (input : StageInput) (status : TaskStatus)
      (timeLeft : Option Duration)
  /-- A stage noted how things stood. -/
  | noted (label : Json) (status : TaskStatus) (path : List String) (reason : Option TaskError)
      (error : Option TaskError) (tokenCanceled : Bool)
  /-- A stage canceled a task by its id. -/
  | canceled (id : String) (answer : Except SchedulerError Unit)
  /-- A stage pushed a task. -/
  | pushed (answer : Except SchedulerError String)
  /-- A pipeline that a stage called has ended. -/
  | called (call : Call) (outcome : Outcome)
  /-- The task was canceled during a call of the queue. -/
  | hooked (point : HookPoint) (answer : Except SchedulerError Unit)

/-- A note with its time and the id of its task. -/
structure Note where
  /-- When it was made. -/
  time : Instant
  /-- The id of the task. -/
  id : String
  /-- What happened. -/
  event : NoteEvent

end TaskScheduler.Simulation
