import TaskScheduler.Scheduler.Lifecycle

/-!
# Workers

A worker drives one task through its pipeline: it makes the context, starts the task, counts it as
running, looks up the pipeline, and enters one stage after the other.  What a stage does is left
open: it returns an outcome, breaks off, or calls another pipeline.  Before every stage the worker
checks that the task is not canceled and that the context has not ended; the check and the entry are
one step.
-/

namespace TaskScheduler.Scheduler

variable {β η : Type}

/-! ### Before the first stage -/

/-- Make the context of a run: its token is a child of the base token, and the timeout of the task
sets its deadline. -/
def armWorker (s : Scheduler β η) (r : TaskRef) : Scheduler β η :=
  match s.task? r with
  | some t =>
    match t.phase with
    | .spawned =>
      let (c, contexts) := s.contexts.childOf baseToken t.popped.timeout
      (({ s with contexts := contexts }).armTask r c.token).setPhase r (.armed c)
    | _ => s
  | none => s

/-- Start the task, or complete it as canceled if it was canceled before. -/
def startWorker (s : Scheduler β η) (r : TaskRef) : Scheduler β η :=
  match s.task? r with
  | some t =>
    match t.phase with
    | .armed c =>
      match s.startTask r with
      | (true, s) => s.setPhase r (.starting c false)
      | (false, s) => s.setPhase r (.completing (.error .canceled))
    | _ => s
  | none => s

/-- Count a task that has started: raise the counter of running tasks, and in a step of its own the
gauge. -/
def countStart (s : Scheduler β η) (r : TaskRef) : Scheduler β η :=
  match s.task? r with
  | some t =>
    match t.phase with
    | .starting c false =>
      ({ s with counters := s.counters.started }).setPhase r (.starting c true)
    | .starting c true => (s.measure Metrics.started).setPhase r (.started c)
    | _ => s
  | none => s

/-- Look up the pipeline of the task.  Stages registered later do not affect the run. -/
def lookUpPipeline (s : Scheduler β η) (r : TaskRef) : Scheduler β η :=
  match s.task? r with
  | some t =>
    match t.phase with
    | .started c =>
      match s.pipelines.get? t.taskType with
      | some p => s.setPhase r (.running ⟨c, p, .first, none, none⟩ [])
      | none => s.setPhase r (.stopping (.error (.noPipeline t.taskType)))
    | _ => s
  | none => s

/-! ### Stages -/

/-- Where a task stands when its innermost pass through a pipeline has ended: back in the stage that
called the pipeline, or at the end of the run. -/
def leavePipeline (o : Outcome) : List (Frame η) → Phase η
  | [] => .stopping o
  | f :: callers => .running { f with called := some o } callers

/-- Why a task may not enter a stage under a context, if so.  Cancellation of the task comes first,
then the end of the context. -/
def stopReason (s : Scheduler β η) (t : Task η) (c : Context) : Option TaskError :=
  if t.status = .canceled then some .canceled else s.contexts.err c

/-- Enter the next stage, or leave the pipeline when no stage is left or the run has to stop. -/
def enterStage (s : Scheduler β η) (r : TaskRef) : Scheduler β η :=
  match s.task? r with
  | some t =>
    match t.phase with
    | .running ⟨c, rest, input, none, _⟩ callers =>
      match rest with
      | [] => s.setPhase r (leavePipeline (.ok input.result) callers)
      | stage :: rest =>
        match s.stopReason t c with
        | some e => s.setPhase r (leavePipeline (.error e) callers)
        | none =>
          s.modifyTask r fun t =>
            { t with
              path := t.path ++ [stage.name]
              phase := .running ⟨c, rest, input, some stage, none⟩ callers }
    | _ => s
  | none => s

/-- The executing stage returns.  Its output is the input of the next stage; an error ends the pass
through the pipeline. -/
def returnFromStage (s : Scheduler β η) (r : TaskRef) (o : Outcome) : Scheduler β η :=
  match s.task? r with
  | some t =>
    match t.phase with
    | .running ⟨c, rest, _, some _, _⟩ callers =>
      match o with
      | .ok v => s.setPhase r (.running ⟨c, rest, .value v, none, none⟩ callers)
      | .error e => s.setPhase r (leavePipeline (.error e) callers)
    | _ => s
  | none => s

/-- The executing stage breaks off.  That ends the run, also when the stage was called by
another. -/
def breakOff (s : Scheduler β η) (r : TaskRef) (p : Payload) : Scheduler β η :=
  match s.task? r with
  | some t =>
    match t.phase with
    | .running ⟨_, _, _, some _, _⟩ _ =>
      s.setPhase r (.stopping (.error (.unexpected p.message t.path)))
    | _ => s
  | none => s

/-- The executing stage calls the pipeline of a task type on the same task. -/
def callPipeline (s : Scheduler β η) (r : TaskRef) (c : Context) (taskType : String)
    (input : StageInput) : Scheduler β η :=
  match s.task? r with
  | some t =>
    match t.phase with
    | .running ⟨c', rest, input', some stage, _⟩ callers =>
      match s.pipelines.get? taskType with
      | some p =>
        s.setPhase r (.running ⟨c, p, input, none, none⟩
          (⟨c', rest, input', some stage, none⟩ :: callers))
      | none => s
    | _ => s
  | none => s

/-! ### After the last stage -/

/-- Finish a task whose pipeline has ended. -/
def stopWorker (s : Scheduler β η) (r : TaskRef) : Scheduler β η :=
  match s.task? r with
  | some t =>
    match t.phase with
    | .stopping o => (s.finishTask r).setPhase r (.finishing o true)
    | _ => s
  | none => s

/-- Count a task that has finished: lower the counter of running tasks, and in a step of its own the
gauge. -/
def countStop (s : Scheduler β η) (r : TaskRef) : Scheduler β η :=
  match s.task? r with
  | some t =>
    match t.phase with
    | .finishing o true =>
      ({ s with counters := s.counters.stopped }).setPhase r (.finishing o false)
    | .finishing o false => (s.measure Metrics.stopped).setPhase r (.completing o)
    | _ => s
  | none => s

/-- The next step of a task that is in nobody's hands but its own: of a worker outside the stages,
or of a completion.  A report is left to `sendReport`. -/
def stepTask (s : Scheduler β η) (r : TaskRef) : Scheduler β η :=
  match s.task? r with
  | some t =>
    match t.phase with
    | .spawned => s.armWorker r
    | .armed _ => s.startWorker r
    | .starting _ _ => s.countStart r
    | .started _ => s.lookUpPipeline r
    | .running _ _ => s.enterStage r
    | .stopping _ => s.stopWorker r
    | .finishing _ _ => s.countStop r
    | .completing _ => s.recordOutcome r
    | .releasing => s.endTask r
    | _ => s
  | none => s

end TaskScheduler.Scheduler
