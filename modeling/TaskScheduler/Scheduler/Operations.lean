import TaskScheduler.Scheduler.Lifecycle

/-!
# Operations on a scheduler

What producers and operators do with a scheduler while it runs or not: push and cancel tasks,
register stages, look at the tasks in hand.
-/

namespace TaskScheduler.Scheduler

variable {β η : Type}

/-- Register a stage of the pipeline of a task type. -/
def register (s : Scheduler β η) (taskType : String) (stage : Stage η) : Scheduler β η :=
  { s with pipelines := s.pipelines.register taskType stage }

/-- Register several stages of the pipeline of a task type, first stage first. -/
def registerAll (s : Scheduler β η) (taskType : String) (stages : List (Stage η)) :
    Scheduler β η :=
  { s with pipelines := s.pipelines.registerAll taskType stages }

/-- Queue a task under a priority, or under the one of the settings.  The type of the task must have
a pipeline. -/
def push [TaskQueue β] (s : Scheduler β η) (taskType : String) (data : Json)
    (timeout : Option Duration) (priority : Option Int64) :
    Except SchedulerError String × Scheduler β η :=
  if s.pipelines.contains taskType then
    let priority := priority.getD s.config.defaultPriority
    let (answer, queue) := TaskQueue.push s.queue (.new taskType data timeout) priority
    (answer.mapError .backend, { s with queue := queue })
  else (.error (.unknownTaskType taskType), s)

/-- Cancel a task by its id.  A registered task is canceled in place unless it has finished; any
other is taken off the queue if it is there. -/
def cancel [TaskQueue β] (s : Scheduler β η) (id : String) (wall : Timestamp) :
    Except SchedulerError Unit × Scheduler β η :=
  match s.registry.get? id with
  | some r =>
    let s := s.cancelTask r
    if (s.task? r).any fun t => t.status = .done then (.error (.taskFinished id), s)
    else (.ok (), s)
  | none =>
    let (answer, queue) := TaskQueue.cancel s.queue id wall
    (answer.mapError .backend, { s with queue := queue })

/-- How many registered tasks a visitor sees who stops at the `n`-th, and at the first at the
earliest. -/
def visitedUpTo (s : Scheduler β η) (n : Nat) : Nat := min (max n 1) s.runningCount

end TaskScheduler.Scheduler
