import TaskScheduler.Simulation.Clock
import TaskScheduler.Simulation.Script

/-!
# The machine of a simulation

A `Machine` runs the threads of a scheduler one at a time: the two loops of every run and a worker
for every dispatched task.  A thread goes on until it has to wait; threads that can go on wait in
line for their turn.  All changes of the scheduler are its own steps, so what a machine does is one
of the orders in which the threads may take their steps.
-/

namespace TaskScheduler.Simulation

/-- A thread of a scheduler. -/
inductive Thread where
  /-- The popping loop of a run. -/
  | pop (i : Nat)
  /-- The dispatching loop of a run. -/
  | dispatch (i : Nat)
  /-- The worker of a task. -/
  | worker (r : TaskRef)
  deriving DecidableEq, Repr

/-- What happens before a call of the queue goes through. -/
structure Hook where
  /-- The ids of tasks that are canceled. -/
  cancels : List String := []
  /-- How long the call is delayed. -/
  delay : Nat := 0
  deriving DecidableEq, Repr, Inhabited

/-- A scheduler with its threads. -/
structure Machine (β : Type) where
  /-- The scheduler. -/
  scheduler : Scheduler β Script
  /-- What every clock of the day shows. -/
  wall : Timestamp
  /-- The threads in line; the first one has its turn. -/
  ready : List Thread := []
  /-- The threads that wait. -/
  parked : List Thread := []
  /-- Until when threads sleep. -/
  alarms : FiniteMap Thread Instant := .empty
  /-- The executing stages of every task, innermost first. -/
  activations : FiniteMap TaskRef (List Activation) := .empty
  /-- The open gates. -/
  gates : List String := []
  /-- The hooks of pops, by their numbers from one on. -/
  popHooks : FiniteMap Nat Hook := .empty
  /-- The hooks of reports, by the ids of their tasks. -/
  reportHooks : FiniteMap String Hook := .empty
  /-- The number of pops so far. -/
  pops : Nat := 0
  /-- The threads whose hook has been run for the call at hand. -/
  hooked : List Thread := []
  /-- The last task with each id that entered a stage. -/
  held : FiniteMap String TaskRef := .empty
  /-- The notes so far. -/
  notes : List Note := []
  /-- The runs that nobody has waited for, latest first. -/
  unjoined : List Nat := []

namespace Machine

variable {β : Type}

/-- The present instant. -/
def now (m : Machine β) : Instant := m.scheduler.now

/-- Make a note about a task. -/
def note (m : Machine β) (id : String) (e : NoteEvent) : Machine β :=
  { m with notes := m.notes ++ [⟨m.now, id, e⟩] }

/-- Let a thread sleep. -/
def sleep (m : Machine β) (t : Thread) (span : Nat) : Machine β :=
  { m with alarms := m.alarms.insert t (m.now + span) }

/-- Put a new thread at the end of the line. -/
def spawn (m : Machine β) (t : Thread) : Machine β := { m with ready := m.ready ++ [t] }

/-- Let an event happen to the scheduler. -/
def apply [TaskQueue β] (m : Machine β) (e : Event Script) : Machine β :=
  { m with scheduler := m.scheduler.step e }

/-! ### Waiting -/

/-- Whether an instant has come. -/
def isPast (m : Machine β) (t : Instant) : Bool := wakeTime t ≤ m.now

/-- Whether a thread is not asleep. -/
def isAwake (m : Machine β) (t : Thread) : Bool := (m.alarms.get? t).all m.isPast

/-- Whether the popping loop of a run can go on. -/
def popCanRun (m : Machine β) (i : Nat) (l : Loops) : Bool :=
  match l.pop with
  | .sending _ => l.closed || l.buffer.length < m.scheduler.config.waitBuffer
  | .resting wake => m.scheduler.isShutdown i || m.isPast wake
  | .ended => false
  | _ => true

/-- Whether the dispatching loop of a run can go on. -/
def dispatchCanRun (m : Machine β) (i : Nat) (l : Loops) : Bool :=
  match l.dispatch with
  | .receiving => m.scheduler.isShutdown i || !l.buffer.isEmpty
  | .closing => l.pop = .ended
  | .resting wake => m.isPast wake
  | _ => true

/-- Whether an executing stage can go on. -/
def stageCanRun (m : Machine β) (a : Activation) : Bool :=
  match a.call, a.script with
  | none, .waitDone :: _ => m.scheduler.contexts.isCanceled a.context.token
  | none, .waitGate g :: _ => m.gates.contains g
  | _, _ => true

/-- Whether the worker of a task can go on. -/
def workerCanRun (m : Machine β) (r : TaskRef) (t : Task Script) : Bool :=
  match t.phase with
  | .running ⟨_, _, _, some _, _⟩ _ =>
    match m.activations.getD r [] with
    | a :: _ => m.stageCanRun a
    | [] => true
  | .ended => false
  | _ => true

/-- Whether a thread can go on. -/
def canRun (m : Machine β) (t : Thread) : Bool :=
  m.isAwake t &&
    match t with
    | .pop i => (m.scheduler.loops? i).any (m.popCanRun i)
    | .dispatch i => (m.scheduler.loops? i).any (m.dispatchCanRun i)
    | .worker r => (m.scheduler.task? r).any (m.workerCanRun r)

/-- Whether a thread has come to its end. -/
def hasEnded (m : Machine β) : Thread → Bool
  | .pop i => (m.scheduler.loops? i).all fun l => l.pop = .ended
  | .dispatch i => (m.scheduler.loops? i).isNone
  | .worker r => (m.scheduler.task? r).all Task.isEnded

/-- Put the waiting threads that can go on at the end of the line. -/
def wake (m : Machine β) : Machine β :=
  let (awake, parked) := m.parked.partition m.canRun
  { m with ready := m.ready ++ awake, parked := parked }

section Turns

variable [TaskQueue β]

/-! ### Hooks -/

/-- Cancel tasks during a call of the queue. -/
def cancelHooked (m : Machine β) (point : HookPoint) (ids : List String) : Machine β :=
  ids.foldl (fun m id =>
    let (answer, s) := m.scheduler.cancel id m.wall
    ({ m with scheduler := s }).note id (.hooked point answer)) m

/-- Let a call of the queue go through once its hook has been run. -/
def throughHook (m : Machine β) (t : Thread) (point : HookPoint) (hook : Option Hook)
    (e : Event Script) : Machine β :=
  if m.hooked.contains t then ({ m with hooked := m.hooked.filter (· ≠ t) }).apply e
  else
    match hook with
    | none => m.apply e
    | some h =>
      (({ m.cancelHooked point h.cancels with hooked := t :: m.hooked }).sleep t h.delay)

/-- A step of the completion of a task, taken by a thread. -/
def stepCompletion (m : Machine β) (t : Thread) (r : TaskRef) : Machine β :=
  match m.scheduler.task? r with
  | some task =>
    match task.phase with
    | .reporting _ =>
      m.throughHook t .report (m.reportHooks.get? task.id) (.report r m.wall)
    | _ => m.apply (.stepTask r)
  | none => m

/-! ### Loops -/

/-- Whether a task has just been given to a worker. -/
def isSpawned (m : Machine β) (r : TaskRef) : Bool :=
  match (m.scheduler.task? r).map Task.phase with
  | some .spawned => true
  | _ => false

/-- Start the worker of a task that was given to one. -/
def spawnWorker (m : Machine β) (r : TaskRef) : Machine β :=
  if m.isSpawned r then m.spawn (.worker r) else m

/-- A step of the popping loop of a run. -/
def stepPop (m : Machine β) (i : Nat) : Machine β :=
  let own := m.apply (.stepPop i)
  match (m.scheduler.loops? i).map Loops.pop with
  | some .asking =>
    if m.hooked.contains (.pop i) then m.throughHook (.pop i) .pop none (.pop i m.wall)
    else
      let m := { m with pops := m.pops + 1 }
      m.throughHook (.pop i) .pop (m.popHooks.get? m.pops) (.pop i m.wall)
  | some (.rejecting r) => if m.scheduler.hasEnded r then own else m.stepCompletion (.pop i) r
  | some (.skipping r) => if m.scheduler.hasEnded r then own else m.stepCompletion (.pop i) r
  | some (.passing r) => own.spawnWorker r
  | _ => own

/-- A step of the dispatching loop of a run. -/
def stepDispatch (m : Machine β) (i : Nat) : Machine β :=
  let own := m.apply (.stepDispatch i)
  match (m.scheduler.loops? i).map Loops.dispatch with
  | some (.skipping r) => if m.scheduler.hasEnded r then own else m.stepCompletion (.dispatch i) r
  | some (.passing r) => own.spawnWorker r
  | _ => own

/-! ### Stages -/

/-- Change the innermost executing stage of a task. -/
def setActivation (m : Machine β) (r : TaskRef) (a : Activation) : Machine β :=
  { m with activations := m.activations.insert r (a :: (m.activations.getD r []).tail) }

/-- The innermost executing stage of a task returns. -/
def returnStage (m : Machine β) (r : TaskRef) (o : Outcome) : Machine β :=
  ({ m with activations := m.activations.insert r (m.activations.getD r []).tail }).apply
    (.returnFromStage r o)

/-- The context under which a stage calls a pipeline. -/
def callContext (m : Machine β) (own : Context) : CallContext → Context × Machine β
  | .own => (own, m)
  | .background => (m.scheduler.contexts.background.1, m.apply .background)
  | .canceled =>
    let c := m.scheduler.contexts.background.1
    (c, (m.apply .background).apply (.cancelToken c.token))
  | .child timeout =>
    ((m.scheduler.contexts.childOf own.token timeout).1, m.apply (.derive own.token timeout))

/-- How things stand for a task, as a stage sees it. -/
def standing (m : Machine β) (t : Task Script) (c : Context) (label : Json) : NoteEvent :=
  .noted label t.status t.path (m.scheduler.contexts.err c) t.error
    (m.scheduler.contexts.isCanceled c.token)

/-- Take an action.  The activation is the one that is left after the action. -/
def act (m : Machine β) (r : TaskRef) (t : Task Script) (a : Activation) :
    Action → Machine β
  | .sleep span => (m.setActivation r a).sleep (.worker r) span
  | .waitDone => m.setActivation r a
  | .waitGate _ => m.setActivation r a
  | .openGate g => { m.setActivation r a with gates := g :: m.gates }
  | .check =>
    match m.scheduler.contexts.err a.context with
    | some e => m.returnStage r (.error e)
    | none => m.setActivation r a
  | .fail e => m.returnStage r (.error e)
  | .breakOff p => ({ m with activations := m.activations.erase r }).apply (.breakOff r p)
  | .cancelSelf => (m.setActivation r a).apply (.cancelTask r)
  | .cancelContext => (m.setActivation r a).apply (.cancelToken a.context.token)
  | .cancelBase => (m.setActivation r a).apply (.cancelToken baseToken)
  | .cancel id =>
    let (answer, s) := m.scheduler.cancel id m.wall
    ({ m.setActivation r a with scheduler := s }).note t.id (.canceled id answer)
  | .push taskType data timeout priority =>
    let (answer, s) := m.scheduler.push taskType data timeout priority
    ({ m.setActivation r a with scheduler := s }).note t.id (.pushed answer)
  | .register taskType stages =>
    { m.setActivation r a with scheduler := m.scheduler.registerAll taskType stages }
  | .note label => (m.setActivation r a).note t.id (m.standing t a.context label)
  | .callPipeline taskType input context catches =>
    match m.scheduler.pipelines.get? taskType with
    | none => m.returnStage r (.error (.noPipeline taskType))
    | some p =>
      let (c, m) := m.callContext a.context context
      (m.setActivation r { a with call := some ⟨taskType, p.stageNames, catches⟩ }).apply
        (.callPipeline r c taskType input)
  | .give v => m.setActivation r { a with value := v }
  | .giveData => m.setActivation r { a with value := t.popped.data }
  | .giveInput => m.setActivation r { a with value := a.input.result }
  | .append v => m.setActivation r { a with value := appended a.input v }

/-- A pipeline that the innermost executing stage called has ended. -/
def endCall (m : Machine β) (r : TaskRef) (t : Task Script) (a : Activation) (c : Call)
    (o : Outcome) : Machine β :=
  let m := m.note t.id (.called c o)
  let a := { a with call := none }
  if c.catches then m.setActivation r a
  else
    match o with
    | .ok v => m.setActivation r { a with value := v }
    | .error e => m.returnStage r (.error e)

/-- A step of the innermost executing stage of a task. -/
def stepStage (m : Machine β) (r : TaskRef) (t : Task Script) (called : Option Outcome) :
    Machine β :=
  match m.activations.getD r [] with
  | [] => m
  | a :: _ =>
    match a.call, called with
    | some c, some o => m.endCall r t a c o
    | _, _ =>
      match a.script with
      | [] => m.returnStage r (.ok a.value)
      | action :: rest => m.act r t { a with script := rest } action

/-- Begin the script of a stage that a task has just entered. -/
def beginStage (m : Machine β) (r : TaskRef) : Machine β :=
  match m.scheduler.task? r with
  | some t =>
    match t.phase with
    | .running ⟨c, _, input, some stage, _⟩ _ =>
      let a : Activation := ⟨stage.handler, .null, input, c, none⟩
      ({ m with
          activations := m.activations.insert r (a :: m.activations.getD r [])
          held := m.held.insert t.id r }).note t.id
        (.entered stage.name t.path.length input t.status (m.scheduler.contexts.timeLeft c))
    | _ => m
  | none => m

/-- Whether a task has entered a further stage. -/
def hasEntered (before after : Machine β) (r : TaskRef) : Bool :=
  (before.scheduler.task? r).map (fun t => t.path.length) ≠
    (after.scheduler.task? r).map (fun t => t.path.length)

/-- A step of the worker of a task. -/
def stepWorker (m : Machine β) (r : TaskRef) : Machine β :=
  match m.scheduler.task? r with
  | none => m
  | some t =>
    match t.phase with
    | .running ⟨_, _, _, some _, called⟩ _ => m.stepStage r t called
    | .running ⟨_, _, _, none, _⟩ _ =>
      let next := m.apply (.stepTask r)
      if hasEntered m next r then next.beginStage r else next
    | _ => m.stepCompletion (.worker r) r

/-! ### Turns -/

/-- A step of a thread. -/
def stepThread (m : Machine β) (t : Thread) : Machine β :=
  let m := { m with alarms := m.alarms.erase t }
  match t with
  | .pop i => m.stepPop i
  | .dispatch i => m.stepDispatch i
  | .worker r => m.stepWorker r

/-- Run the threads in line until all of them wait, for at most the given number of steps. -/
def settle : Nat → Machine β → Machine β
  | 0, m => m
  | n + 1, m =>
    match m.ready with
    | [] => m
    | t :: rest =>
      if m.hasEnded t then settle n { m with ready := rest }
      else if m.canRun t then settle n (m.stepThread t).wake
      else settle n { m with ready := rest, parked := m.parked ++ [t] }

end Turns

end Machine

end TaskScheduler.Simulation
