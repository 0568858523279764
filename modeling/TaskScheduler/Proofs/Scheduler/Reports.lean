import TaskScheduler.Proofs.Scheduler.Watch
import TaskScheduler.Queue.Memory

/-!
# Exactly one report for every popped task

`Core.Tidy` puts the invariants of the loops, of the places, of the reports and of the completions
together; every history of moves from a new scheduler keeps it.

A step calls one operation of the queue at most, and `QueueStep` says what comes of it for tasks and
reports.  What that means for a queue is read off a `Ledger`, a queue that keeps account of what it
handed out and what it was handed.  At every point of every history the reports can be assigned to
the pops, each to a pop of the same id and type and no two to the same pop, and when loops and
workers have ended no pop is left without its report.
-/

namespace TaskScheduler

variable {β η : Type}

/-! ### Tidy schedulers -/

/-- Loops in order, tasks in their places, one report for each task that is done with, and a
watching loop for each completion without a worker. -/
structure Core.Tidy (c : Core β η) : Prop where
  /-- The loops of all runs are in order. -/
  ordered : ∀ run ∈ c.runs, run.Ordered
  /-- All tasks are in their places. -/
  tracked : Tracked c.tasks c.runs
  /-- The tasks and the reports go together. -/
  reported : Reported c.tasks c.reports
  /-- Completions without a worker are watched. -/
  watched : Watched c.tasks c.runs

/-- A scheduler that has not done anything. -/
def Scheduler.new (config : SchedulerConfig) (queue : β) (metrics : Option Metrics) :
    Scheduler β η :=
  { config := config, queue := queue, metrics := metrics }

/-- The core of a new scheduler is `Tidy`. -/
theorem Scheduler.tidy_new (config : SchedulerConfig) (queue : β) (metrics : Option Metrics) :
    (new config queue metrics : Scheduler β η).core.Tidy := by
  refine ⟨by simp [core, new], ?_, reported_nil, ?_⟩
  · intro x
    simp [core, new, placeOf]
  · intro r t ht
    simp [core, new] at ht

/-- Every step keeps a core `Tidy`. -/
theorem Core.Step.tidy [TaskQueue β] {c c' : Core β η} {n : Nat} (h : Core.Step n c c')
    (hc : c.Tidy) :
    c'.Tidy := by
  obtain ⟨out, htasks, hreports⟩ := h.tasksStep hc.tracked
  refine ⟨h.ordered hc.ordered, h.tracked hc.ordered hc.tracked, ?_,
    h.watched hc.ordered hc.reported.sound hc.watched⟩
  rw [hreports]
  exact htasks.reported hc.reported

namespace Scheduler

variable [TaskQueue β]

/-- What holds at first, and is kept by every `Core.Step`, holds of the core after every history of
moves. -/
theorem afterMoves_induction {P : Core β η → Prop}
    (hstep : ∀ {n : Nat} {c c' : Core β η}, Core.Step n c c' → P c → P c') (s : Scheduler β η)
    (hs : P s.core) (moves : List (Move η)) : P (s.afterMoves moves).core := by
  induction moves generalizing s with
  | nil => exact hs
  | cons m moves ih => exact ih (s.move m) (hstep (s.core_move m) hs)

/-- The core of a new scheduler is `Tidy` after every history of moves. -/
theorem tidy_afterMoves (config : SchedulerConfig) (queue : β) (metrics : Option Metrics)
    (moves : List (Move η)) : ((new config queue metrics).afterMoves moves).core.Tidy :=
  afterMoves_induction Core.Step.tidy _ (tidy_new config queue metrics) moves

end Scheduler

/-! ### Schedulers at rest -/

/-- A worker has been given the task and has not come to its end. -/
def Task.inWorker (t : Task η) : Bool :=
  match t.phase with
  | .spawned | .armed _ | .starting _ _ | .started _ | .running _ _ | .stopping _
  | .finishing _ _ => true
  | .completing _ | .reporting _ | .releasing => t.token.isSome
  | _ => false

/-- The loops of a run are at work. -/
def Run.isLooping (run : Run) : Bool :=
  match run.phase with
  | .looping _ => true
  | _ => false

/-- No loop is at work and no worker. -/
structure Core.AtRest (c : Core β η) : Prop where
  /-- The loops of all runs have ended. -/
  loops : ∀ run ∈ c.runs, run.isLooping = false
  /-- All workers have ended. -/
  workers : ∀ t ∈ c.tasks, t.inWorker = false

/-- A run whose phase has loops `isLooping`. -/
theorem Run.isLooping_of_phase {run : Run} {l : Loops} (h : run.phase = .looping l) :
    run.isLooping = true := by
  unfold isLooping
  rw [h]

/-- In a `Tidy` core of which no run holds anything, a task has left the hands of the loops. -/
theorem Core.Tidy.place?_eq_none {c : Core β η} (hc : c.Tidy) (h : ∀ run ∈ c.runs, run.placed = [])
    {r : TaskRef} {t : Task η} (ht : c.tasks[r]? = some t) : t.phase.place? = none := by
  cases hp : t.phase.place? with
  | none => rfl
  | some p =>
    have hheld := hc.tracked (p, r)
    rw [List.flatMap_eq_nil_iff.2 h] at hheld
    simp [placeOf, ht, hp] at hheld

/-- In a `Tidy` core that is `AtRest` every task has come to its end. -/
theorem Core.Tidy.ended_of_atRest {c : Core β η} (hc : c.Tidy) (hrest : c.AtRest) {r : TaskRef}
    {t : Task η} (ht : c.tasks[r]? = some t) : t.phase = .ended := by
  have hworker := hrest.workers t (List.mem_of_getElem? ht)
  have hplace : t.phase.place? = none := by
    refine hc.place?_eq_none (fun run hrun => ?_) ht
    unfold Run.placed
    split
    next l hl =>
      exact absurd (Run.isLooping_of_phase hl) (Bool.eq_false_iff.1 (hrest.loops run hrun))
    next => rfl
  have hwatched : ¬ t.IsWatched := by
    intro hw
    obtain ⟨run, hrun, l, hl, -⟩ := hc.watched r t ht hw
    exact absurd (Run.isLooping_of_phase hl) (Bool.eq_false_iff.1 (hrest.loops run hrun))
  unfold Task.inWorker at hworker
  unfold Task.IsWatched at hwatched
  cases hp : t.phase <;> simp_all [Phase.place?, Phase.isCompleting]

/-! ### Calls of the queue -/

/-- What a step of a scheduler does with the queue: it calls one operation at most.  The lists hold
what is popped and what is reported in this step. -/
inductive QueueStep [TaskQueue β] (q : β) : List PoppedTask → List TaskReport → β → Prop
  /-- The queue is not called. -/
  | same : QueueStep q [] [] q
  /-- A task is pushed. -/
  | push (e : Envelope) (priority : Int64) : QueueStep q [] [] (TaskQueue.push q e priority).2
  /-- A task is popped. -/
  | popped {p : PoppedTask} {wall : Timestamp} (h : (TaskQueue.pop q wall).1 = .ok p) :
    QueueStep q [p] [] (TaskQueue.pop q wall).2
  /-- No task could be popped. -/
  | unpopped {e : QueueError} {wall : Timestamp} (h : (TaskQueue.pop q wall).1 = .error e) :
    QueueStep q [] [] (TaskQueue.pop q wall).2
  /-- The queue is asked to cancel a task. -/
  | cancel (id : String) (wall : Timestamp) : QueueStep q [] [] (TaskQueue.cancel q id wall).2
  /-- A report is handed over. -/
  | report (r : TaskReport) (wall : Timestamp) : QueueStep q [] [r] (TaskQueue.report q r wall).2

/-- A change of an element by `List.modify` that keeps its image keeps the list of the images. -/
theorem map_modify_of_eq {α γ : Type} {g : α → γ} {l : List α} {i : Nat} {f : α → α}
    (h : ∀ a, l[i]? = some a → g (f a) = g a) : (l.modify i f).map g = l.map g := by
  apply List.ext_getElem?
  intro j
  rw [List.getElem?_map, List.getElem?_map, List.getElem?_modify]
  by_cases hij : i = j
  · subst hij
    cases ha : l[i]? with
    | none => rfl
    | some a => simp [h a ha]
  · simp [hij]

/-- In a step of the core, what is popped becomes a task, and what is reported is noted, as the
`QueueStep` says. -/
theorem Core.Step.queueStep [TaskQueue β] {c c' : Core β η} {n : Nat} (h : Core.Step n c c') :
    ∃ popped reported, QueueStep c.queue popped reported c'.queue ∧
      c'.tasks.map Task.popped = c.tasks.map Task.popped ++ popped ∧
      c'.reports.map Prod.snd = c.reports.map Prod.snd ++ reported := by
  have hquiet : ∀ {c' : Core β η}, QueueStep c.queue [] [] c'.queue →
      c'.tasks.map Task.popped = c.tasks.map Task.popped → c'.reports = c.reports →
      ∃ popped reported, QueueStep c.queue popped reported c'.queue ∧
        c'.tasks.map Task.popped = c.tasks.map Task.popped ++ popped ∧
        c'.reports.map Prod.snd = c.reports.map Prod.snd ++ reported := by
    intro c' hqueue htasks hreports
    exact ⟨[], [], hqueue, by rw [htasks, List.append_nil], by rw [hreports, List.append_nil]⟩
  have hmodify : ∀ {r : TaskRef} {f : Task η → Task η},
      (∀ t, c.tasks[r]? = some t → (f t).popped = t.popped) →
        (c.tasks.modify r f).map Task.popped = c.tasks.map Task.popped := map_modify_of_eq
  cases h with
  | idle => exact hquiet .same rfl rfl
  | push e priority => exact hquiet (.push e priority) rfl rfl
  | cancelQueued id wall => exact hquiet (.cancel id wall) rfl rfl
  | refuse e => exact hquiet .same rfl rfl
  | begin h => exact hquiet .same rfl rfl
  | fail h e => exact hquiet .same rfl rfl
  | loop h => exact hquiet .same rfl rfl
  | breakOff h => exact hquiet .same rfl rfl
  | shutDown i => exact hquiet .same rfl rfl
  | loops h hl => exact hquiet .same rfl rfl
  | popped h hp ha now => exact ⟨_, _, .popped ha, List.map_append, (List.append_nil _).symm⟩
  | unpopped h hp ha => exact hquiet (.unpopped ha) rfl rfl
  | enroll h hp ht hn now => exact hquiet .same (hmodify fun _ _ => rfl) rfl
  | reject h hp ht hn now => exact hquiet .same (hmodify fun _ _ => rfl) rfl
  | take h hl => exact hquiet .same (hmodify fun _ _ => rfl) rfl
  | spawn h hl => exact hquiet .same (hmodify fun _ _ => rfl) rfl
  | skip h hl => exact hquiet .same (hmodify fun _ _ => rfl) rfl
  | finish h => exact hquiet .same rfl rfl
  | work ht h =>
    refine hquiet .same (hmodify fun t ht' => ?_) rfl
    rw [ht] at ht'
    exact Option.some.inj ht' ▸ (Task.Step.work h).popped_eq
  | report ht hp wall =>
    refine ⟨_, _, .report _ wall, ?_, List.map_append⟩
    rw [List.append_nil]
    exact hmodify fun _ _ => rfl
  | cancel ht hs released => exact hquiet .same (hmodify fun _ _ => rfl) rfl
  | release ht hp => exact hquiet .same (hmodify fun _ _ => rfl) rfl

/-! ### The account of a queue -/

/-- A queue that keeps account of what it handed out and what it was handed. -/
structure Ledger (β : Type) where
  /-- The queue. -/
  queue : β
  /-- What was popped, oldest first. -/
  popped : List PoppedTask := []
  /-- The reports, oldest first. -/
  reported : List TaskReport := []

namespace Ledger

variable [TaskQueue β]

/-- Take the first task off the queue, and note it. -/
def pop (l : Ledger β) (wall : Timestamp) : Except QueueError PoppedTask × Ledger β :=
  match TaskQueue.pop l.queue wall with
  | (.ok p, q) => (.ok p, { l with queue := q, popped := l.popped ++ [p] })
  | (.error e, q) => (.error e, { l with queue := q })

instance : TaskQueue (Ledger β) where
  ping l := TaskQueue.ping l.queue
  push l e priority :=
    let (answer, q) := TaskQueue.push l.queue e priority
    (answer, { l with queue := q })
  pop := pop
  cancel l id wall :=
    let (answer, q) := TaskQueue.cancel l.queue id wall
    (answer, { l with queue := q })
  report l r wall :=
    let (answer, q) := TaskQueue.report l.queue r wall
    (answer, { l with queue := q, reported := l.reported ++ [r] })

/-- An assignment of all reports to pops: each to a pop of its id and type, and no two to one
pop. -/
structure Assignment (l : Ledger β) (assigned : List (Nat × TaskReport)) : Prop where
  /-- All reports are assigned. -/
  all : assigned.map Prod.snd = l.reported
  /-- No pop has two reports. -/
  once : (assigned.map Prod.fst).Nodup
  /-- A report belongs to a pop of its id and type. -/
  belongs : ∀ x ∈ assigned, ∃ p, l.popped[x.1]? = some p ∧ x.2.id = p.id ∧
    x.2.taskType = p.taskType

/-- A pop of a `Ledger` that gives a task notes it. -/
theorem pop_ok {l : Ledger β} {wall : Timestamp} {p : PoppedTask}
    (h : (TaskQueue.pop l wall).1 = .ok p) :
    (TaskQueue.pop l wall).2.popped = l.popped ++ [p] ∧
      (TaskQueue.pop l wall).2.reported = l.reported := by
  change (l.pop wall).1 = .ok p at h
  change (l.pop wall).2.popped = l.popped ++ [p] ∧ (l.pop wall).2.reported = l.reported
  unfold pop at h ⊢
  split at h
  next p' q heq =>
    obtain rfl : p' = p := by simpa using h
    exact ⟨rfl, rfl⟩
  next => exact absurd h (by simp)

/-- A pop of a `Ledger` that gives no task notes nothing. -/
theorem pop_error {l : Ledger β} {wall : Timestamp} {e : QueueError}
    (h : (TaskQueue.pop l wall).1 = .error e) :
    (TaskQueue.pop l wall).2.popped = l.popped ∧
      (TaskQueue.pop l wall).2.reported = l.reported := by
  change (l.pop wall).1 = .error e at h
  change (l.pop wall).2.popped = l.popped ∧ (l.pop wall).2.reported = l.reported
  unfold pop at h ⊢
  split at h
  next => exact absurd h (by simp)
  next => exact ⟨rfl, rfl⟩

end Ledger

/-- The account of the queue agrees with what the scheduler knows. -/
structure Core.Accounted (c : Core (Ledger β) η) : Prop where
  /-- What was popped. -/
  popped : c.queue.popped = c.tasks.map Task.popped
  /-- What was reported. -/
  reported : c.queue.reported = c.reports.map Prod.snd

/-- A `QueueStep` of a `Ledger` notes exactly what it pops and what is reported in it. -/
theorem QueueStep.ledger [TaskQueue β] {l l' : Ledger β} {popped : List PoppedTask}
    {reported : List TaskReport} (h : QueueStep l popped reported l') :
    l'.popped = l.popped ++ popped ∧ l'.reported = l.reported ++ reported := by
  cases h with
  | same => exact ⟨(List.append_nil _).symm, (List.append_nil _).symm⟩
  | push e priority => exact ⟨(List.append_nil _).symm, (List.append_nil _).symm⟩
  | popped ha =>
    obtain ⟨hpop, hreport⟩ := Ledger.pop_ok ha
    exact ⟨hpop, hreport.trans (List.append_nil _).symm⟩
  | unpopped ha =>
    obtain ⟨hpop, hreport⟩ := Ledger.pop_error ha
    exact ⟨hpop.trans (List.append_nil _).symm, hreport.trans (List.append_nil _).symm⟩
  | cancel id wall => exact ⟨(List.append_nil _).symm, (List.append_nil _).symm⟩
  | report r wall => exact ⟨(List.append_nil _).symm, rfl⟩

/-- Every step keeps the core `Accounted`: the ledger of the queue agrees with the tasks and the
reports. -/
theorem Core.Step.accounted [TaskQueue β] {c c' : Core (Ledger β) η} {n : Nat}
    (h : Core.Step n c c') (hc : c.Accounted) : c'.Accounted := by
  obtain ⟨popped, reported, hqueue, htasks, hreports⟩ := h.queueStep
  obtain ⟨hpopped, hreported⟩ := hqueue.ledger
  constructor
  · rw [hpopped, hc.popped, htasks]
  · rw [hreported, hc.reported, hreports]

/-! ### The reports of a scheduler -/

/-- The reports of a core that is `Tidy` and `Accounted` have an `Assignment` to the pops. -/
theorem Core.Tidy.assignment {c : Core (Ledger β) η} (hc : c.Tidy) (ha : c.Accounted) :
    c.queue.Assignment c.reports := by
  refine ⟨ha.reported.symm, ?_, ?_⟩
  · rw [List.nodup_iff_count]
    intro r
    rw [hc.reported.count r]
    split <;> omega
  · intro x hx
    obtain ⟨t, ht, hmatch⟩ := hc.reported.matching x hx
    refine ⟨t.popped, ?_, hmatch⟩
    rw [ha.popped, List.getElem?_map, ht]
    rfl

namespace Scheduler

variable [TaskQueue β]

/-- However the steps of the loops, the workers, the users and the clock follow each other, the
reports so far can be assigned to the pops so far, each to a pop of its id and type and no two to
one pop; and when all loops and workers have ended, every pop has its report. -/
theorem exists_assignment_of_reports (config : SchedulerConfig) (queue : β)
    (metrics : Option Metrics) (moves : List (Move η)) :
    let s : Scheduler (Ledger β) η := (new config { queue := queue } metrics).afterMoves moves
    ∃ assigned, s.queue.Assignment assigned ∧
      (s.core.AtRest → (assigned.map Prod.fst).Perm (List.range s.queue.popped.length)) := by
  intro s
  have htidy : s.core.Tidy := tidy_afterMoves config _ metrics moves
  have haccount : s.core.Accounted :=
    afterMoves_induction Core.Step.accounted _ ⟨rfl, rfl⟩ moves
  have hassigned : s.queue.Assignment s.reports := htidy.assignment haccount
  refine ⟨s.reports, hassigned, fun hrest => ?_⟩
  rw [List.perm_ext_iff_of_nodup hassigned.once List.nodup_range]
  have hlength : s.queue.popped.length = s.tasks.length := by
    have hpopped : s.queue.popped = s.tasks.map Task.popped := haccount.popped
    rw [hpopped, List.length_map]
  intro r
  rw [List.mem_range, hlength, ← List.count_pos_iff]
  have hcount : (s.reports.map Prod.fst).count r =
      if (s.tasks[r]?).any fun t => t.phase.isReported then 1 else 0 := htidy.reported.count r
  rw [hcount]
  cases ht : s.tasks[r]? with
  | none =>
    have hle : s.tasks.length ≤ r := List.getElem?_eq_none_iff.1 ht
    simp only [Option.any_none, Bool.false_eq_true, if_false, Nat.lt_irrefl, false_iff]
    omega
  | some t =>
    have hlt : r < s.tasks.length := (List.getElem?_eq_some_iff.1 ht).1
    have hended : t.phase = .ended := htidy.ended_of_atRest hrest ht
    simp [hended, Phase.isReported, hlt]

/-- A queue in memory that holds one task. -/
def oneTask : MemoryQueue := (MemoryQueue.push {} ⟨"job", .null, none⟩ 0).2

/-- The worker or the completion of the first task takes some steps. -/
def ownSteps (n : Nat) : List (Event Unit) := List.replicate n (.stepTask 0)

/-- One task is popped, dispatched and found to have no pipeline, and the run ends. -/
def oneTaskHistory (wall : Timestamp) : List (Event Unit) :=
  [.callRun, .ping 0, .stepPop 0, .pop 0 wall, .stepPop 0, .stepPop 0, .stepPop 0, .pop 0 wall,
    .stepDispatch 0, .stepDispatch 0] ++ ownSteps 9 ++
  [.report 0 wall, .stepTask 0, .shutDown 0, .stepPop 0, .stepPop 0, .stepDispatch 0,
    .stepDispatch 0, .stepDispatch 0, .stepDispatch 0]

/-- `exists_assignment_of_reports` at the end of `oneTaskHistory`: the scheduler is at rest, and the
only report is assigned to the only pop. -/
theorem exists_assignment_of_reports_oneTask :
    let s : Scheduler (Ledger MemoryQueue) Unit :=
      (new .default { queue := oneTask } none).afterMoves ((oneTaskHistory .epoch).map .event)
    s.core.AtRest ∧ ∃ assigned, s.queue.Assignment assigned ∧
      (assigned.map Prod.fst).Perm [0] := by
  intro s
  have hrest : s.core.AtRest := ⟨by decide, by decide⟩
  have hrange : List.range s.queue.popped.length = [0] := by decide
  obtain ⟨assigned, hassigned, hperm⟩ :=
    exists_assignment_of_reports .default oneTask none ((oneTaskHistory .epoch).map .event)
  exact ⟨hrest, assigned, hassigned, hrange ▸ hperm hrest⟩

end Scheduler

end TaskScheduler
