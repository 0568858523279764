import TaskScheduler.Scheduler.Lifecycle

/-!
# The loops of a run

A run pops tasks in one loop and dispatches them in another, with a bounded buffer between the two.
Every popped task is registered under its id; a second task with the same id is reported as failed
and leaves the first alone.  A run that is asked to stop closes the buffer, waits for the popping
loop, dispatches what is still in the buffer, and returns when no registered task is left.
-/

namespace TaskScheduler.Scheduler

variable {β η : Type}

/-! ### Starting a run -/

/-- The largest buffer that can be made. -/
def greatestBuffer : Nat := 2 ^ 61 - 1

/-- Call for a run.  The settings must be valid and no other run may be active. -/
def callRun (s : Scheduler β η) : Scheduler β η :=
  match s.config.validate with
  | .error e => { s with runs := s.runs ++ [{ phase := .returned (.error (.config e)) }] }
  | .ok () =>
    if s.active then { s with runs := s.runs ++ [{ phase := .returned (.error .alreadyRunning) }] }
    else { s with runs := s.runs ++ [{ phase := .pinging }], active := true }

/-- The queue answers a run that starts. -/
def answerPing (s : Scheduler β η) (i : Nat) (answer : Except QueueError Unit) : Scheduler β η :=
  match s.runs[i]? with
  | some ⟨.pinging, _⟩ =>
    match answer with
    | .error e =>
      { s.setRunPhase i (.returned (.error (.backendUnavailable e))) with active := false }
    | .ok () =>
      if s.config.waitBuffer ≤ greatestBuffer then s.setLoops i {}
      else s.setRunPhase i .brokenOff
  | _ => s

/-- Ask the queue whether it is there. -/
def pingQueue [TaskQueue β] (s : Scheduler β η) (i : Nat) : Scheduler β η :=
  s.answerPing i (TaskQueue.ping s.queue)

/-- Ask a run to stop. -/
def shutDown (s : Scheduler β η) (i : Nat) : Scheduler β η :=
  { s with runs := s.runs.modify i fun run => { run with shutdown := true } }

/-! ### Popping -/

/-- The error with which a task is reported whose id is taken. -/
def idTaken (id : String) : TaskError :=
  .ofText ("task id '" ++ id ++ "' popped while already running")

/-- The queue hands out a task, or says that there is none. -/
def answerPop (s : Scheduler β η) (i : Nat) (answer : Except QueueError PoppedTask) :
    Scheduler β η :=
  match s.loops? i with
  | some l =>
    match l.pop with
    | .asking =>
      match answer with
      | .error _ => s.setLoops i { l with pop := .resting (s.now + s.config.pollInterval.nanos) }
      | .ok p =>
        let s := s.setLoops i { l with pop := .holding s.tasks.length }
        { s with tasks := s.tasks ++ [{ popped := p, createdAt := s.now }] }
    | _ => s
  | none => s

/-- Ask the queue for a task. -/
def popQueue [TaskQueue β] (s : Scheduler β η) (i : Nat) (wall : Timestamp) : Scheduler β η :=
  match s.loops? i with
  | some l =>
    match l.pop with
    | .asking =>
      let (answer, queue) := TaskQueue.pop s.queue wall
      ({ s with queue := queue }).answerPop i answer
    | _ => s
  | none => s

/-- Take in a task that was popped: register it under its id, or have it reported as failed if the
id is taken. -/
def takeIn (s : Scheduler β η) (i : Nat) (l : Loops) (r : TaskRef) : Scheduler β η :=
  match s.task? r with
  | none => s
  | some t =>
    if s.registry.contains t.id then
      (s.modifyTask r fun t =>
        { t with createdAt := s.now, phase := .completing (.error (idTaken t.id)) }).setLoops i
        { l with pop := .rejecting r }
    else
      ({ s.modifyTask r fun t =>
            { t with createdAt := s.now, phase := .waiting, registered := true }
          with registry := s.registry.insert t.id r }).setLoops i { l with pop := .sending r }

/-- Put a task into the buffer. -/
def putBuffer (s : Scheduler β η) (i : Nat) (l : Loops) (r : TaskRef) : Scheduler β η :=
  let buffer := l.buffer ++ [r]
  (s.setLoops i { l with pop := .checking, buffer := buffer }).measure fun m =>
    m.setDepth buffer.length

/-! ### Dispatching -/

/-- Dispatch a task: give it to a worker if it still waits, else have it completed as canceled.
Says whether it went to a worker. -/
def dispatchTask (s : Scheduler β η) (r : TaskRef) : Bool × Scheduler β η :=
  match s.task? r with
  | none => (false, s)
  | some t =>
    if t.status = .init then (true, s.setPhase r .spawned)
    else (false, s.setPhase r (.completing (.error .canceled)))

/-- Whether nothing is left to do for a task. -/
def hasEnded (s : Scheduler β η) (r : TaskRef) : Bool := (s.task? r).any Task.isEnded

/-- The next step of the loop that pops tasks, except that the answer of the queue is left to
`answerPop`. -/
def stepPop (s : Scheduler β η) (i : Nat) : Scheduler β η :=
  match s.loops? i with
  | none => s
  | some l =>
    match l.pop with
    | .checking =>
      s.setLoops i { l with pop := if s.isShutdown i then .ended else .asking }
    | .asking => s
    | .holding r => s.takeIn i l r
    | .rejecting r => if s.hasEnded r then s.setLoops i { l with pop := .checking } else s
    | .sending r =>
      if l.closed then (s.setPhase r .dispatched).setLoops i { l with pop := .passing r }
      else if l.buffer.length < s.config.waitBuffer then s.putBuffer i l r
      else s
    | .passing r =>
      match s.dispatchTask r with
      | (true, s) => s.setLoops i { l with pop := .ended }
      | (false, s) => s.setLoops i { l with pop := .skipping r }
    | .skipping r => if s.hasEnded r then s.setLoops i { l with pop := .ended } else s
    | .resting wake =>
      if s.isShutdown i || wake ≤ s.now then s.setLoops i { l with pop := .checking } else s
    | .ended => s

/-- Take the first task out of the buffer for dispatch. -/
def takeBuffer (s : Scheduler β η) (i : Nat) (l : Loops) (r : TaskRef) (rest : List TaskRef) :
    Scheduler β η :=
  (s.setPhase r .dispatched).setLoops i { l with dispatch := .passing r, buffer := rest }

/-- The next step of the loop that dispatches tasks. -/
def stepDispatch (s : Scheduler β η) (i : Nat) : Scheduler β η :=
  match s.loops? i with
  | none => s
  | some l =>
    match l.dispatch with
    | .receiving =>
      if s.isShutdown i then s.setLoops i { l with dispatch := .closing, closed := true }
      else
        match l.buffer with
        | [] => s
        | r :: rest => (s.takeBuffer i l r rest).measure fun m => m.setDepth rest.length
    | .passing r =>
      match s.dispatchTask r with
      | (true, s) => s.setLoops i { l with dispatch := l.next }
      | (false, s) => s.setLoops i { l with dispatch := .skipping r }
    | .skipping r => if s.hasEnded r then s.setLoops i { l with dispatch := l.next } else s
    | .closing => if l.pop = .ended then s.setLoops i { l with dispatch := .emptying } else s
    | .emptying =>
      match l.buffer with
      | [] => (s.setLoops i { l with dispatch := .draining }).measure fun m => m.setDepth 0
      | r :: rest => s.takeBuffer i l r rest
    | .draining =>
      if s.registry.isEmpty then { s.setRunPhase i (.returned (.ok ())) with active := false }
      else
        s.setLoops i { l with dispatch := .resting (s.now + s.config.drainPollInterval.nanos) }
    | .resting wake => if wake ≤ s.now then s.setLoops i { l with dispatch := .draining } else s

end TaskScheduler.Scheduler
