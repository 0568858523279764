import TaskScheduler.Scheduler.Loops
import TaskScheduler.Scheduler.Operations
import TaskScheduler.Scheduler.Worker

/-!
# Steps

Everything that can happen to a scheduler, one event at a time: the steps of its own threads, the
answers of stages, the calls of users, and the clock.  A step that is not due changes nothing, so a
history is any list of events.
-/

namespace TaskScheduler

/-- What happens to a scheduler in one step. -/
inductive Event (η : Type) where
  /-- Time passes. -/
  | pass (span : Nat)
  /-- A timer that is due fires. -/
  | fireTimer
  /-- A context without a parent is made. -/
  | background
  /-- A context is derived from a token. -/
  | derive (parent : TokenId) (timeout : Option Duration)
  /-- A token is canceled. -/
  | cancelToken (k : TokenId)
  /-- Somebody calls for a run. -/
  | callRun
  /-- The queue is asked whether it is there, for a run that starts. -/
  | ping (i : Nat)
  /-- A run is asked to stop. -/
  | shutDown (i : Nat)
  /-- The popping loop of a run takes a step of its own. -/
  | stepPop (i : Nat)
  /-- The popping loop of a run is given the answer of the queue. -/
  | pop (i : Nat) (wall : Timestamp)
  /-- The dispatching loop of a run takes a step. -/
  | stepDispatch (i : Nat)
  /-- The worker or the completion of a task takes a step of its own. -/
  | stepTask (r : TaskRef)
  /-- The report of a task is handed to the queue. -/
  | report (r : TaskRef) (wall : Timestamp)
  /-- The executing stage of a task returns. -/
  | returnFromStage (r : TaskRef) (o : Outcome)
  /-- The executing stage of a task breaks off. -/
  | breakOff (r : TaskRef) (p : Payload)
  /-- The executing stage of a task calls a pipeline. -/
  | callPipeline (r : TaskRef) (c : Context) (taskType : String) (input : StageInput)
  /-- Somebody who holds a task cancels it. -/
  | cancelTask (r : TaskRef)
  /-- Somebody cancels a task by its id. -/
  | cancel (id : String) (wall : Timestamp)
  /-- Somebody pushes a task. -/
  | push (taskType : String) (data : Json) (timeout : Option Duration) (priority : Option Int64)
  /-- Somebody registers a stage. -/
  | register (taskType : String) (stage : Stage η)

namespace Scheduler

variable {β η : Type} [TaskQueue β]

/-- The scheduler after an event. -/
def step (s : Scheduler β η) : Event η → Scheduler β η
  | .pass span => s.pass span
  | .fireTimer => s.fireTimer
  | .background => { s with contexts := s.contexts.background.2 }
  | .derive parent timeout => { s with contexts := (s.contexts.childOf parent timeout).2 }
  | .cancelToken k => s.cancelToken k
  | .callRun => s.callRun
  | .ping i => s.pingQueue i
  | .shutDown i => s.shutDown i
  | .stepPop i => s.stepPop i
  | .pop i wall => s.popQueue i wall
  | .stepDispatch i => s.stepDispatch i
  | .stepTask r => s.stepTask r
  | .report r wall => s.sendReport r wall
  | .returnFromStage r o => s.returnFromStage r o
  | .breakOff r p => s.breakOff r p
  | .callPipeline r c taskType input => s.callPipeline r c taskType input
  | .cancelTask r => s.cancelTask r
  | .cancel id wall => (s.cancel id wall).2
  | .push taskType data timeout priority => (s.push taskType data timeout priority).2
  | .register taskType stage => s.register taskType stage

/-- The scheduler after a history of events. -/
def after (s : Scheduler β η) (history : List (Event η)) : Scheduler β η := history.foldl step s

end Scheduler

end TaskScheduler
