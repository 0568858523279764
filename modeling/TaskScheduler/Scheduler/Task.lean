import TaskScheduler.Context.Basic
import TaskScheduler.Pipeline.Table
import TaskScheduler.Task.Envelope
import TaskScheduler.Task.Report

/-!
# Popped tasks

A `Task` is one task handed out by the queue, from the moment it is popped to the moment its report
is out.  Its `status` is what users see; its `phase` says how far the scheduler has come with it.
The status moves from `init` to `running` to `done`, and from `init` or `running` to `canceled`.
-/

namespace TaskScheduler

/-- Where a task stands, as users see it. -/
inductive TaskStatus where
  /-- Popped and not started. -/
  | init
  /-- Its pipeline is executing. -/
  | running
  /-- Canceled before or while its pipeline was executing. -/
  | canceled
  /-- Its pipeline returned, with or without a result. -/
  | done
  deriving DecidableEq, Repr

namespace TaskStatus

/-- The name of a status. -/
def name : TaskStatus → String
  | init => "init"
  | running => "running"
  | canceled => "canceled"
  | done => "done"

/-- Whether a status is final. -/
def isTerminal : TaskStatus → Bool
  | canceled => true
  | done => true
  | _ => false

end TaskStatus

/-- What a stage is given. -/
inductive StageInput where
  /-- Nothing: it is the first stage of the run. -/
  | first
  /-- The output of the stage before it. -/
  | value (v : Json)
  deriving DecidableEq, Repr

/-- The value that a pipeline returns when no stage is left. -/
def StageInput.result : StageInput → Json
  | first => .null
  | value v => v

/-- What a stage leaves behind when it breaks off. -/
inductive Payload where
  /-- A text. -/
  | text (s : String)
  /-- A value that is not a text. -/
  | other
  deriving DecidableEq, Repr

/-- What is said of a stage that broke off. -/
def Payload.message : Payload → String
  | text s => s
  | other => "panic with non-string payload"

/-- One pass through a pipeline. -/
structure Frame (η : Type) where
  /-- The context that the stages are given. -/
  context : Context
  /-- The stages that have not been entered. -/
  rest : Pipeline η
  /-- What the next stage is given, or the present one was given. -/
  input : StageInput
  /-- The stage that is executing; without one the pass stands between two stages. -/
  stage : Option (Stage η)
  /-- How the pipeline ended that the executing stage called last. -/
  called : Option Outcome
  deriving DecidableEq

/-- How far the scheduler has come with a task. -/
inductive Phase (η : Type) where
  /-- Off the queue and not yet looked at. -/
  | popped
  /-- Registered and waiting for dispatch. -/
  | waiting
  /-- Taken for dispatch. -/
  | dispatched
  /-- Given to a worker. -/
  | spawned
  /-- The worker has made the context of the run. -/
  | armed (c : Context)
  /-- The task has started.  The counter of running tasks, as the flag says, has been raised; the
  gauge has not. -/
  | starting (c : Context) (counted : Bool)
  /-- The task has started, and counter and gauge have been raised. -/
  | started (c : Context)
  /-- A pipeline is executing: the innermost pass, and the passes whose stages called it. -/
  | running (top : Frame η) (callers : List (Frame η))
  /-- The pipeline has ended. -/
  | stopping (o : Outcome)
  /-- The task has finished.  The counter of running tasks, as the flag says, has still to be
  lowered; so has the gauge. -/
  | finishing (o : Outcome) (counted : Bool)
  /-- The outcome is to be recorded. -/
  | completing (o : Outcome)
  /-- The report is to be stored. -/
  | reporting (r : TaskReport)
  /-- The report is out, and the task is to leave the registry. -/
  | releasing
  /-- Nothing is left to do. -/
  | ended

/-- A task handed out by the queue. -/
structure Task (η : Type) where
  /-- What the queue handed out. -/
  popped : PoppedTask
  /-- When the task was taken in. -/
  createdAt : Instant
  /-- How far the scheduler has come. -/
  phase : Phase η := .popped
  /-- The status. -/
  status : TaskStatus := .init
  /-- The names of the stages entered so far. -/
  path : List String := []
  /-- The token of the run's context, once there is one. -/
  token : Option TokenId := none
  /-- Whether the task has left the registry and its token has been canceled. -/
  released : Bool := false
  /-- The error with which the task ended. -/
  error : Option TaskError := none
  /-- Whether the registry knows the task.  A second task with an id that is taken is never
  registered. -/
  registered : Bool := false

/-- The place of a task among all tasks of a scheduler. -/
abbrev TaskRef := Nat

namespace Task

variable {η : Type}

/-- The id. -/
def id (t : Task η) : String := t.popped.id

/-- The type. -/
def taskType (t : Task η) : String := t.popped.taskType

/-- The time since the task was taken in. -/
def elapsed (t : Task η) (now : Instant) : Duration := Instant.since now t.createdAt

/-- The report of a task that ends now. -/
def report (t : Task η) (now : Instant) (o : Outcome) : TaskReport :=
  ⟨t.id, t.taskType, t.elapsed now, o⟩

/-- Whether nothing is left to do. -/
def isEnded (t : Task η) : Bool :=
  match t.phase with
  | .ended => true
  | _ => false

end Task

end TaskScheduler
