import TaskScheduler.Scheduler.State

/-!
# The life of a task

The steps that a task takes whoever takes them: it starts, finishes, is canceled, is released, and
ends with a report.
-/

namespace TaskScheduler.Scheduler

variable {β η : Type}

/-! ### Status, token and registry -/

/-- Start a task that still waits.  Says whether it did. -/
def startTask (s : Scheduler β η) (r : TaskRef) : Bool × Scheduler β η :=
  match s.task? r with
  | none => (false, s)
  | some t =>
    if t.status = .init then (true, s.modifyTask r fun t => { t with status := .running })
    else (false, s)

/-- Finish a task.  One that was canceled while it was running stays canceled. -/
def finishTask (s : Scheduler β η) (r : TaskRef) : Scheduler β η :=
  s.modifyTask r fun t => if t.status = .running then { t with status := .done } else t

/-- Take a task out of the registry and cancel its token.  Only the first release does anything, and
says so. -/
def releaseTask (s : Scheduler β η) (r : TaskRef) : Bool × Scheduler β η :=
  match s.task? r with
  | none => (false, s)
  | some t =>
    if t.released then (false, s)
    else
      let s := s.modifyTask r fun t => { t with released := true }
      let s := if t.registered then { s with registry := s.registry.erase t.id } else s
      match t.token with
      | some k => (true, s.cancelToken k)
      | none => (true, s)

/-- Cancel a task, unless its status is final. -/
def cancelTask (s : Scheduler β η) (r : TaskRef) : Scheduler β η :=
  match s.task? r with
  | none => s
  | some t =>
    if t.status.isTerminal then s
    else ((s.modifyTask r fun t => { t with status := .canceled }).releaseTask r).2

/-- Give a task the token of its run.  Only the first token counts; it is canceled at once if the
task has been released. -/
def armTask (s : Scheduler β η) (r : TaskRef) (k : TokenId) : Scheduler β η :=
  match s.task? r with
  | none => s
  | some t =>
    if t.token.isSome then s
    else
      let s := s.modifyTask r fun t => { t with token := some k }
      if t.released then s.cancelToken k else s

/-! ### Completion -/

/-- Record the outcome of a task: its error, its duration, the counters and the metrics. -/
def recordOutcome (s : Scheduler β η) (r : TaskRef) : Scheduler β η :=
  match s.task? r with
  | some t =>
    match t.phase with
    | .completing o =>
      let report := t.report s.now o
      let s := s.modifyTask r fun t =>
        { t with error := report.error?.or t.error, phase := .reporting report }
      let s := { s with counters := s.counters.record report }
      s.measure fun m => m.recordFinished report.taskType report.status report.duration
    | _ => s
  | none => s

/-- Hand the report of a task to the queue.  Whether the queue stores it or not, the task goes
on. -/
def sendReport [TaskQueue β] (s : Scheduler β η) (r : TaskRef) (wall : Timestamp) :
    Scheduler β η :=
  match s.task? r with
  | some t =>
    match t.phase with
    | .reporting report =>
      { s.setPhase r .releasing with
        queue := (TaskQueue.report s.queue report wall).2
        reports := s.reports ++ [(r, report)] }
    | _ => s
  | none => s

/-- Release a task whose report is out. -/
def endTask (s : Scheduler β η) (r : TaskRef) : Scheduler β η :=
  match s.task? r with
  | some t =>
    match t.phase with
    | .releasing => (s.releaseTask r).2.setPhase r .ended
    | _ => s
  | none => s

end TaskScheduler.Scheduler
