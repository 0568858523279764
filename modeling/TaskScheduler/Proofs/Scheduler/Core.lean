import TaskScheduler.Scheduler.Step

/-!
# Steps of a scheduler and their effect on its core

The *core* of a scheduler is what decides where every popped task stands: the queue, the tasks, the
runs with their loops, the registry, the reports, and whether a run is active.  Clock, contexts,
counters, metrics and pipelines may influence which step comes next, but no invariant of this folder
reads them.

`Core.Step` lists once what a single step can do to the core, with the conditions under which it
does it; `core_move` says that every step of a scheduler is one of them.  Invariants are then proved
by cases on `Core.Step` and never by unfolding the steps themselves.

Threads run side by side, so a cancelation need not happen in one piece: between the moment at which
a task is marked as canceled and the moment at which it leaves the registry other steps may come,
and so may they between a look into the registry and the call of the queue that follows it.  `Move`
adds these halves to the events of a scheduler.
-/

namespace TaskScheduler

variable {β η : Type}

/-! ### Moves -/

/-- What happens in one step when a cancelation may be taken apart. -/
inductive Move (η : Type) where
  /-- An event. -/
  | event (e : Event η)
  /-- The first half of the cancelation of a task: its status becomes final. -/
  | markCanceled (r : TaskRef)
  /-- The second half: a task that has been marked leaves the registry, and its token is
  canceled. -/
  | dropCanceled (r : TaskRef)
  /-- The queue is asked to cancel an id that was not found in the registry some time before. -/
  | cancelQueued (id : String) (wall : Timestamp)

namespace Scheduler

/-- Mark a task as canceled, unless its status is final. -/
def markCanceled (s : Scheduler β η) (r : TaskRef) : Scheduler β η :=
  s.modifyTask r fun t => if t.status.isTerminal then t else { t with status := .canceled }

/-- Release a task that has been marked as canceled. -/
def dropCanceled (s : Scheduler β η) (r : TaskRef) : Scheduler β η :=
  if (s.task? r).any fun t => t.status = .canceled then (s.releaseTask r).2 else s

/-- The scheduler after a move. -/
def move [TaskQueue β] (s : Scheduler β η) : Move η → Scheduler β η
  | .event e => s.step e
  | .markCanceled r => s.markCanceled r
  | .dropCanceled r => s.dropCanceled r
  | .cancelQueued id wall => { s with queue := (TaskQueue.cancel s.queue id wall).2 }

/-- The scheduler after a list of moves. -/
def afterMoves [TaskQueue β] (s : Scheduler β η) (moves : List (Move η)) : Scheduler β η :=
  moves.foldl move s

/-- The state after a history of two parts is that of `afterMoves` with the second part from where
the first one ends. -/
theorem afterMoves_append [TaskQueue β] (s : Scheduler β η) (moves more : List (Move η)) :
    s.afterMoves (moves ++ more) = (s.afterMoves moves).afterMoves more :=
  List.foldl_append

end Scheduler

/-! ### The core -/

/-- What decides where every popped task stands. -/
structure Core (β η : Type) where
  /-- The queue. -/
  queue : β
  /-- All tasks popped so far. -/
  tasks : List (Task η)
  /-- All runs so far. -/
  runs : List Run
  /-- The tasks that can be found by their ids. -/
  registry : FiniteMap String TaskRef
  /-- All reports handed to the queue so far. -/
  reports : List (TaskRef × TaskReport)
  /-- Whether a run is active. -/
  active : Bool

/-- The `Core` of a scheduler: its queue, tasks, registry, runs and reports, without clock,
contexts, pipelines and counters. -/
def Scheduler.core (s : Scheduler β η) : Core β η :=
  ⟨s.queue, s.tasks, s.runs, s.registry, s.reports, s.active⟩

namespace Core

/-- Change a task. -/
def modifyTask (c : Core β η) (r : TaskRef) (f : Task η → Task η) : Core β η :=
  { c with tasks := c.tasks.modify r f }

/-- Bring a run into a phase. -/
def setRunPhase (c : Core β η) (i : Nat) (p : RunPhase) : Core β η :=
  { c with runs := c.runs.modify i fun run => { run with phase := p } }

/-- Change the loops of a run. -/
def setLoops (c : Core β η) (i : Nat) (l : Loops) : Core β η := c.setRunPhase i (.looping l)

/-- The loops of a run, if they are at work. -/
def loops? (c : Core β η) (i : Nat) : Option Loops :=
  match c.runs[i]? with
  | some ⟨.looping l, _⟩ => some l
  | _ => none

/-- Whether nothing is left to do for a task. -/
def hasEnded (c : Core β η) (r : TaskRef) : Bool := (c.tasks[r]?).any Task.isEnded

end Core

/-! ### What a step can do -/

/-- What the worker of a task does between dispatch and report, and what the completion of a task
does before its report: nothing that another task or a loop can see. -/
inductive Task.Works : Task η → Task η → Prop
  /-- The worker makes the context of the run. -/
  | arm {t : Task η} (c : Context) (k : TokenId) (h : t.phase = .spawned) :
    Works t { t with token := t.token.or (some k), phase := .armed c }
  /-- The task starts. -/
  | start {t : Task η} {c : Context} (h : t.phase = .armed c) (hs : t.status = .init) :
    Works t { t with status := .running, phase := .starting c false }
  /-- The task does not start, because it was canceled. -/
  | skip {t : Task η} {c : Context} (h : t.phase = .armed c) (hs : t.status ≠ .init) :
    Works t { t with phase := .completing (.error .canceled) }
  /-- The counter of running tasks is raised. -/
  | countStart {t : Task η} {c : Context} (h : t.phase = .starting c false) :
    Works t { t with phase := .starting c true }
  /-- The gauge of running tasks is raised. -/
  | gaugeStart {t : Task η} {c : Context} (h : t.phase = .starting c true) :
    Works t { t with phase := .started c }
  /-- The pipeline is looked up. -/
  | lookUp {t : Task η} {c : Context} (h : t.phase = .started c) (top : Frame η) :
    Works t { t with phase := .running top [] }
  /-- There is no pipeline. -/
  | lack {t : Task η} {c : Context} (h : t.phase = .started c) (o : Outcome) :
    Works t { t with phase := .stopping o }
  /-- A stage is entered, or the passes through the pipelines change in another way. -/
  | pass {t : Task η} {top : Frame η} {callers : List (Frame η)}
    (h : t.phase = .running top callers) (path : List String) (top' : Frame η)
    (callers' : List (Frame η)) :
    Works t { t with path := path, phase := .running top' callers' }
  /-- The outermost pass has ended. -/
  | leave {t : Task η} {top : Frame η} {callers : List (Frame η)}
    (h : t.phase = .running top callers) (o : Outcome) : Works t { t with phase := .stopping o }
  /-- The task finishes. -/
  | stop {t : Task η} {o : Outcome} (h : t.phase = .stopping o) :
    Works t { t with
      status := if t.status = .running then .done else t.status
      phase := .finishing o true }
  /-- The counter of running tasks is lowered. -/
  | countStop {t : Task η} {o : Outcome} (h : t.phase = .finishing o true) :
    Works t { t with phase := .finishing o false }
  /-- The gauge of running tasks is lowered. -/
  | gaugeStop {t : Task η} {o : Outcome} (h : t.phase = .finishing o false) :
    Works t { t with phase := .completing o }
  /-- The outcome is recorded. -/
  | record {t : Task η} {o : Outcome} (h : t.phase = .completing o) (now : Instant) :
    Works t { t with
      error := (t.report now o).error?.or t.error
      phase := .reporting (t.report now o) }

namespace Core

/-- A step of the loops of a run that hands no task on, except into the buffer. -/
inductive LoopStep (c : Core β η) (shutdown : Bool) (capacity : Nat) : Loops → Loops → Prop
  /-- The popping loop goes on. -/
  | ask {l : Loops} (h : l.pop = .checking) (hs : shutdown = false) :
    LoopStep c shutdown capacity l { l with pop := .asking }
  /-- The popping loop ends. -/
  | quit {l : Loops} (h : l.pop = .checking) (hs : shutdown = true) :
    LoopStep c shutdown capacity l { l with pop := .ended }
  /-- The popping loop looks again. -/
  | wake {l : Loops} {w : Instant} (h : l.pop = .resting w) :
    LoopStep c shutdown capacity l { l with pop := .checking }
  /-- The report of a rejected task is out. -/
  | rejected {l : Loops} {r : TaskRef} (h : l.pop = .rejecting r) (he : c.hasEnded r = true) :
    LoopStep c shutdown capacity l { l with pop := .checking }
  /-- A task goes into the buffer. -/
  | send {l : Loops} {r : TaskRef} (h : l.pop = .sending r) (ho : l.closed = false)
    (hc : l.buffer.length < capacity) :
    LoopStep c shutdown capacity l { l with pop := .checking, buffer := l.buffer ++ [r] }
  /-- The report of a canceled task is out that the popping loop dispatched. -/
  | skipped {l : Loops} {r : TaskRef} (h : l.pop = .skipping r) (he : c.hasEnded r = true) :
    LoopStep c shutdown capacity l { l with pop := .ended }
  /-- The buffer is closed. -/
  | close {l : Loops} (h : l.dispatch = .receiving) (hs : shutdown = true) :
    LoopStep c shutdown capacity l { l with dispatch := .closing, closed := true }
  /-- The report of a canceled task is out that the dispatching loop dispatched. -/
  | passedOver {l : Loops} {r : TaskRef} (h : l.dispatch = .skipping r) (he : c.hasEnded r = true) :
    LoopStep c shutdown capacity l { l with dispatch := l.next }
  /-- The popping loop has ended. -/
  | empty {l : Loops} (h : l.dispatch = .closing) (hp : l.pop = .ended) :
    LoopStep c shutdown capacity l { l with dispatch := .emptying }
  /-- The buffer is empty. -/
  | drain {l : Loops} (h : l.dispatch = .emptying) (hb : l.buffer = []) :
    LoopStep c shutdown capacity l { l with dispatch := .draining }
  /-- A registered task is left. -/
  | await {l : Loops} (h : l.dispatch = .draining) (hr : c.registry.isEmpty = false)
    (wake : Instant) : LoopStep c shutdown capacity l { l with dispatch := .resting wake }
  /-- The dispatching loop looks again. -/
  | again {l : Loops} {w : Instant} (h : l.dispatch = .resting w) :
    LoopStep c shutdown capacity l { l with dispatch := .draining }

/-- A loop hands a task on to a worker, or keeps it until it is reported as canceled.  The first
loops are those before, the others those after a hand-over and after a refusal. -/
inductive HandOver : Loops → TaskRef → Loops → Loops → Prop
  /-- The popping loop does, because the buffer was closed. -/
  | pop {l : Loops} {r : TaskRef} (h : l.pop = .passing r) :
    HandOver l r { l with pop := .ended } { l with pop := .skipping r }
  /-- The dispatching loop does. -/
  | dispatch {l : Loops} {r : TaskRef} (h : l.dispatch = .passing r) :
    HandOver l r { l with dispatch := l.next } { l with dispatch := .skipping r }

/-- A loop takes a task that waits for dispatch. -/
inductive Takes : Loops → TaskRef → Loops → Prop
  /-- The buffer is closed to the popping loop. -/
  | refused {l : Loops} {r : TaskRef} (h : l.pop = .sending r) (hc : l.closed = true) :
    Takes l r { l with pop := .passing r }
  /-- The dispatching loop takes the first task of the buffer. -/
  | received {l : Loops} {r : TaskRef} {rest : List TaskRef} (hb : l.buffer = r :: rest)
    (h : l.dispatch = .receiving ∨ l.dispatch = .emptying) :
    Takes l r { l with dispatch := .passing r, buffer := rest }

/-- What a single step does to the core of a scheduler with the given capacity of the buffer. -/
inductive Step [TaskQueue β] (capacity : Nat) (c : Core β η) : Core β η → Prop
  /-- Nothing. -/
  | idle : Step capacity c c
  /-- A task is pushed. -/
  | push (e : Envelope) (priority : Int64) :
    Step capacity c { c with queue := (TaskQueue.push c.queue e priority).2 }
  /-- The queue is asked to cancel a task. -/
  | cancelQueued (id : String) (wall : Timestamp) :
    Step capacity c { c with queue := (TaskQueue.cancel c.queue id wall).2 }
  /-- A run is refused. -/
  | refuse (e : SchedulerError) :
    Step capacity c { c with runs := c.runs ++ [{ phase := .returned (.error e) }] }
  /-- A run begins. -/
  | begin (h : c.active = false) :
    Step capacity c { c with runs := c.runs ++ [{ phase := .pinging }], active := true }
  /-- The queue does not answer a run. -/
  | fail {i : Nat} {b : Bool} (h : c.runs[i]? = some ⟨.pinging, b⟩) (e : SchedulerError) :
    Step capacity c { c.setRunPhase i (.returned (.error e)) with active := false }
  /-- The loops of a run begin. -/
  | loop {i : Nat} {b : Bool} (h : c.runs[i]? = some ⟨.pinging, b⟩)
    (hc : capacity ≤ Scheduler.greatestBuffer) : Step capacity c (c.setLoops i {})
  /-- A run breaks off. -/
  | breakOff {i : Nat} {b : Bool} (h : c.runs[i]? = some ⟨.pinging, b⟩)
    (hc : Scheduler.greatestBuffer < capacity) : Step capacity c (c.setRunPhase i .brokenOff)
  /-- A run is asked to stop. -/
  | shutDown (i : Nat) :
    Step capacity c { c with runs := c.runs.modify i fun run => { run with shutdown := true } }
  /-- The loops of a run take a step. -/
  | loops {i : Nat} {l l' : Loops} {b : Bool} (h : c.runs[i]? = some ⟨.looping l, b⟩)
    (hl : LoopStep c b capacity l l') : Step capacity c (c.setLoops i l')
  /-- A task is popped. -/
  | popped {i : Nat} {l : Loops} {p : PoppedTask} {wall : Timestamp} (h : c.loops? i = some l)
    (hp : l.pop = .asking) (ha : (TaskQueue.pop c.queue wall).1 = .ok p) (now : Instant) :
    Step capacity c { c.setLoops i { l with pop := .holding c.tasks.length } with
      queue := (TaskQueue.pop c.queue wall).2
      tasks := c.tasks ++ [{ popped := p, createdAt := now }] }
  /-- No task could be popped. -/
  | unpopped {i : Nat} {l : Loops} {e : QueueError} {wall : Timestamp} (h : c.loops? i = some l)
    (hp : l.pop = .asking) (ha : (TaskQueue.pop c.queue wall).1 = .error e) (wake : Instant) :
    Step capacity c { c.setLoops i { l with pop := .resting wake } with
      queue := (TaskQueue.pop c.queue wall).2 }
  /-- A popped task is registered. -/
  | enroll {i : Nat} {l : Loops} {r : TaskRef} {t : Task η} (h : c.loops? i = some l)
    (hp : l.pop = .holding r) (ht : c.tasks[r]? = some t) (hn : c.registry.contains t.id = false)
    (now : Instant) :
    Step capacity c { (c.modifyTask r fun t =>
        { t with createdAt := now, phase := .waiting, registered := true }).setLoops i
          { l with pop := .sending r } with registry := c.registry.insert t.id r }
  /-- A popped task is rejected, because its id is taken. -/
  | reject {i : Nat} {l : Loops} {r : TaskRef} {t : Task η} (h : c.loops? i = some l)
    (hp : l.pop = .holding r) (ht : c.tasks[r]? = some t) (hn : c.registry.contains t.id = true)
    (now : Instant) :
    Step capacity c ((c.modifyTask r fun t =>
      { t with
        createdAt := now
        phase := .completing (.error (Scheduler.idTaken t.id)) }).setLoops i
        { l with pop := .rejecting r })
  /-- A waiting task is taken for dispatch. -/
  | take {i : Nat} {l l' : Loops} {r : TaskRef} (h : c.loops? i = some l) (hl : Takes l r l') :
    Step capacity c ((c.modifyTask r fun t => { t with phase := .dispatched }).setLoops i l')
  /-- A dispatched task is given to a worker. -/
  | spawn {i : Nat} {l l' l'' : Loops} {r : TaskRef} {t : Task η} (h : c.loops? i = some l)
    (hl : HandOver l r l' l'') (ht : c.tasks[r]? = some t) (hs : t.status = .init) :
    Step capacity c ((c.modifyTask r fun t => { t with phase := .spawned }).setLoops i l')
  /-- A dispatched task is not given to a worker, because it was canceled. -/
  | skip {i : Nat} {l l' l'' : Loops} {r : TaskRef} (h : c.loops? i = some l)
    (hl : HandOver l r l' l'') (hs : ∀ t, c.tasks[r]? = some t → t.status ≠ .init) :
    Step capacity c ((c.modifyTask r fun t =>
      { t with phase := .completing (.error .canceled) }).setLoops i l'')
  /-- A run returns. -/
  | finish {i : Nat} {l : Loops} (h : c.loops? i = some l) (hd : l.dispatch = .draining)
    (hr : c.registry.isEmpty = true) :
    Step capacity c { c.setRunPhase i (.returned (.ok ())) with active := false }
  /-- A worker or a completion takes a step. -/
  | work {r : TaskRef} {t t' : Task η} (ht : c.tasks[r]? = some t) (h : t.Works t') :
    Step capacity c (c.modifyTask r fun _ => t')
  /-- A report is handed to the queue. -/
  | report {r : TaskRef} {t : Task η} {report : TaskReport} (ht : c.tasks[r]? = some t)
    (hp : t.phase = .reporting report) (wall : Timestamp) :
    Step capacity c { c.modifyTask r (fun t => { t with phase := .releasing }) with
      queue := (TaskQueue.report c.queue report wall).2
      reports := c.reports ++ [(r, report)] }
  /-- A task is canceled, in one piece or in halves.  The flag says whether the task is released in
  this step. -/
  | cancel {r : TaskRef} {t : Task η} (ht : c.tasks[r]? = some t) (hs : t.status ≠ .done)
    (released : Bool) :
    Step capacity c { c.modifyTask r (fun t =>
        { t with status := .canceled, released := t.released || released }) with
      registry :=
        if released && !t.released && t.registered then c.registry.erase t.id else c.registry }
  /-- A reported task is released. -/
  | release {r : TaskRef} {t : Task η} (ht : c.tasks[r]? = some t) (hp : t.phase = .releasing) :
    Step capacity c { c.modifyTask r (fun t => { t with released := true, phase := .ended }) with
      registry := if !t.released && t.registered then c.registry.erase t.id else c.registry }

end Core

end TaskScheduler
