import TaskScheduler.Config.Scheduler
import TaskScheduler.Metrics.Collector
import TaskScheduler.Queue.Basic
import TaskScheduler.Scheduler.Error
import TaskScheduler.Scheduler.Stats
import TaskScheduler.Scheduler.Task

/-!
# Schedulers

A `Scheduler` is everything that a scheduler and the threads working for it know at one moment: the
tasks with their phases, the registry, the contexts, the runs with their loops.  It changes only in
small steps, each of them a function in the modules beside this one, so that every order in which
the threads may take their steps is a list of such functions.
-/

namespace TaskScheduler

/-- Where the loop stands that pops tasks. -/
inductive PopPhase where
  /-- It looks whether to go on. -/
  | checking
  /-- It waits for the queue to hand out a task. -/
  | asking
  /-- It holds a task that is not registered. -/
  | holding (r : TaskRef)
  /-- It waits for the report of a task whose id was taken. -/
  | rejecting (r : TaskRef)
  /-- It waits for room in the buffer. -/
  | sending (r : TaskRef)
  /-- The buffer was closed and it dispatches the task itself. -/
  | passing (r : TaskRef)
  /-- It waits for the report of a canceled task that it dispatched itself. -/
  | skipping (r : TaskRef)
  /-- It rests until an instant, because there was no task. -/
  | resting (wake : Instant)
  /-- It has ended. -/
  | ended
  deriving DecidableEq, Repr

/-- Where the loop stands that dispatches tasks. -/
inductive DispatchPhase where
  /-- It waits for a task in the buffer. -/
  | receiving
  /-- It dispatches a task. -/
  | passing (r : TaskRef)
  /-- It waits for the report of a canceled task. -/
  | skipping (r : TaskRef)
  /-- It has closed the buffer and waits for the other loop to end. -/
  | closing
  /-- It empties the buffer. -/
  | emptying
  /-- It looks whether the registry is empty. -/
  | draining
  /-- It rests until an instant, because the registry was not empty. -/
  | resting (wake : Instant)
  deriving DecidableEq, Repr

/-- The two loops of a run and the buffer between them. -/
structure Loops where
  /-- The loop that pops tasks. -/
  pop : PopPhase := .checking
  /-- The loop that dispatches tasks. -/
  dispatch : DispatchPhase := .receiving
  /-- The tasks between the loops, oldest first. -/
  buffer : List TaskRef := []
  /-- Whether the buffer takes no more tasks. -/
  closed : Bool := false
  deriving DecidableEq, Repr, Inhabited

/-- Where the dispatching loop goes on after a task: to the next one, or to what is left in the
buffer once that is closed. -/
def Loops.next (l : Loops) : DispatchPhase := if l.closed then .emptying else .receiving

/-- Where a run stands. -/
inductive RunPhase where
  /-- It waits for the queue to answer. -/
  | pinging
  /-- Its loops are at work. -/
  | looping (l : Loops)
  /-- It has returned. -/
  | returned (result : Except SchedulerError Unit)
  /-- It broke off, because no buffer can be that large. -/
  | brokenOff

/-- A call that runs the scheduler. -/
structure Run where
  /-- Where it stands. -/
  phase : RunPhase
  /-- Whether it has been asked to stop. -/
  shutdown : Bool := false

/-- The token from which the contexts of all tasks are derived. -/
def baseToken : TokenId := 0

/-- Everything that a scheduler knows at one moment. -/
structure Scheduler (β η : Type) where
  /-- The settings. -/
  config : SchedulerConfig
  /-- The queue. -/
  queue : β
  /-- The pipelines. -/
  pipelines : PipelineTable η := .empty
  /-- The tasks that can be found by their ids. -/
  registry : FiniteMap String TaskRef := .empty
  /-- The clock, the tokens and the timers. -/
  contexts : ContextStore := ContextStore.background {} |>.2
  /-- The counters. -/
  counters : Counters := {}
  /-- The metrics, if they are wanted. -/
  metrics : Option Metrics := none
  /-- Whether a run is active. -/
  active : Bool := false
  /-- All tasks popped so far. -/
  tasks : List (Task η) := []
  /-- All runs so far. -/
  runs : List Run := []
  /-- All reports handed to the queue so far. -/
  reports : List (TaskRef × TaskReport) := []

namespace Scheduler

variable {β η : Type}

/-- The present instant. -/
def now (s : Scheduler β η) : Instant := s.contexts.now

/-- A task by its place. -/
def task? (s : Scheduler β η) (r : TaskRef) : Option (Task η) := s.tasks[r]?

/-- Change a task. -/
def modifyTask (s : Scheduler β η) (r : TaskRef) (f : Task η → Task η) : Scheduler β η :=
  { s with tasks := s.tasks.modify r f }

/-- Bring a task into a phase. -/
def setPhase (s : Scheduler β η) (r : TaskRef) (p : Phase η) : Scheduler β η :=
  s.modifyTask r fun t => { t with phase := p }

/-- The loops of a run, if they are at work. -/
def loops? (s : Scheduler β η) (i : Nat) : Option Loops :=
  match s.runs[i]? with
  | some ⟨.looping l, _⟩ => some l
  | _ => none

/-- Whether a run has been asked to stop. -/
def isShutdown (s : Scheduler β η) (i : Nat) : Bool :=
  (s.runs[i]?.map Run.shutdown).getD false

/-- Bring a run into a phase. -/
def setRunPhase (s : Scheduler β η) (i : Nat) (p : RunPhase) : Scheduler β η :=
  { s with runs := s.runs.modify i fun run => { run with phase := p } }

/-- Change the loops of a run. -/
def setLoops (s : Scheduler β η) (i : Nat) (l : Loops) : Scheduler β η :=
  s.setRunPhase i (.looping l)

/-- Change the metrics, if they are wanted. -/
def measure (s : Scheduler β η) (f : Metrics → Metrics) : Scheduler β η :=
  { s with metrics := s.metrics.map f }

/-- Cancel a token and its descendants. -/
def cancelToken (s : Scheduler β η) (k : TokenId) : Scheduler β η :=
  { s with contexts := s.contexts.cancel k }

/-- Let time pass. -/
def pass (s : Scheduler β η) (span : Nat) : Scheduler β η :=
  { s with contexts := s.contexts.passTo (s.now + span) }

/-- Fire one timer that is due. -/
def fireTimer (s : Scheduler β η) : Scheduler β η := { s with contexts := s.contexts.fireTimer }

/-- The number of registered tasks. -/
def runningCount (s : Scheduler β η) : Nat := s.registry.size

/-- The registered tasks. -/
def registeredTasks (s : Scheduler β η) : List (Task η) := s.registry.values.filterMap s.task?

/-- The counters as they are shown. -/
def stats (s : Scheduler β η) : Stats := s.counters.snapshot

end Scheduler

end TaskScheduler
