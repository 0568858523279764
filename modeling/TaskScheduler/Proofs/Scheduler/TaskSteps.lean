import TaskScheduler.Proofs.Scheduler.Placement

/-!
# The life of a task along the steps of a scheduler

Seen from the list of tasks, a step adds a task or changes one of them, and it hands at most one
report to the queue.  `TasksStep` says so, `Task.Step` lists the changes of one task with the phases
in which they happen, and `Core.Step.tasksStep` gets both from a step of the core.

What is proved from there needs to look at one task only: its phase and its flags fit together
(`Task.Sound`), and the reports of a scheduler are those of the tasks that have passed the phase in
which a report is handed over, each of them once (`Reported`).
-/

namespace TaskScheduler

variable {β η : Type}

/-! ### Steps of a task -/

/-- How a task changes in one step that hands no report over. -/
inductive Task.Step : Task η → Task η → Prop
  /-- A popped task is registered. -/
  | enroll {t : Task η} (h : t.phase = .popped) (now : Instant) :
    Step t { t with createdAt := now, phase := .waiting, registered := true }
  /-- A popped task is rejected. -/
  | reject {t : Task η} (h : t.phase = .popped) (now : Instant) (o : Outcome) :
    Step t { t with createdAt := now, phase := .completing o }
  /-- A waiting task is taken for dispatch. -/
  | take {t : Task η} (h : t.phase = .waiting) : Step t { t with phase := .dispatched }
  /-- A dispatched task is given to a worker. -/
  | spawn {t : Task η} (h : t.phase = .dispatched) : Step t { t with phase := .spawned }
  /-- A dispatched task is completed without a worker. -/
  | skip {t : Task η} (h : t.phase = .dispatched) (o : Outcome) :
    Step t { t with phase := .completing o }
  /-- A worker or a completion goes on. -/
  | work {t t' : Task η} (h : t.Works t') : Step t t'
  /-- The task is canceled, and perhaps released at once. -/
  | cancel {t : Task η} (h : t.status ≠ .done) (released : Bool) :
    Step t { t with status := .canceled, released := t.released || released }
  /-- The task is released after its report. -/
  | release {t : Task η} (h : t.phase = .releasing) :
    Step t { t with released := true, phase := .ended }

/-- How the list of tasks changes in one step, together with the reports that are handed over. -/
inductive TasksStep : List (Task η) → List (Task η) → List (TaskRef × TaskReport) → Prop
  /-- Nothing changes. -/
  | same {tasks : List (Task η)} : TasksStep tasks tasks []
  /-- A task is popped. -/
  | pop {tasks : List (Task η)} (p : PoppedTask) (now : Instant) :
    TasksStep tasks (tasks ++ [{ popped := p, createdAt := now }]) []
  /-- A task changes. -/
  | change {tasks : List (Task η)} {r : TaskRef} {t t' : Task η} (ht : tasks[r]? = some t)
    (h : t.Step t') : TasksStep tasks (tasks.modify r fun _ => t') []
  /-- A report is handed over. -/
  | report {tasks : List (Task η)} {r : TaskRef} {t : Task η} {report : TaskReport}
    (ht : tasks[r]? = some t) (hp : t.phase = .reporting report) :
    TasksStep tasks (tasks.modify r fun _ => { t with phase := .releasing }) [(r, report)]

/-- The phase of the tasks that are held in a place. -/
def Place.phase : Place → Phase η
  | .popped => .popped
  | .waiting => .waiting
  | .dispatched => .dispatched

/-- A task that has to be held in a place is in the phase `Place.phase` of that place. -/
theorem Phase.eq_of_place? {phase : Phase η} {p : Place} (h : phase.place? = some p) :
    phase = p.phase := by
  cases phase <;> simp only [Phase.place?, Option.some.injEq, reduceCtorEq] at h <;> subst h <;> rfl

/-- A `Task.Step` of the task that is there is a `TasksStep` of the list without a report. -/
theorem TasksStep.modify {tasks : List (Task η)} {r : TaskRef} {t : Task η} {f : Task η → Task η}
    (ht : tasks[r]? = some t) (h : t.Step (f t)) : TasksStep tasks (tasks.modify r f) [] := by
  have hconst : tasks.modify r f = tasks.modify r fun _ => f t := modify_congr ht rfl
  rw [hconst]
  exact .change ht h

/-- Every step of the core changes the tasks and the reports by a `TasksStep`. -/
theorem Core.Step.tasksStep [TaskQueue β] {c c' : Core β η} {n : Nat} (h : Core.Step n c c')
    (ht : Tracked c.tasks c.runs) :
    ∃ out, TasksStep c.tasks c'.tasks out ∧ c'.reports = c.reports ++ out := by
  have hnone : c.reports = c.reports ++ [] := (List.append_nil _).symm
  cases h with
  | idle => exact ⟨[], .same, hnone⟩
  | push e priority => exact ⟨[], .same, hnone⟩
  | cancelQueued id wall => exact ⟨[], .same, hnone⟩
  | refuse e => exact ⟨[], .same, hnone⟩
  | begin h => exact ⟨[], .same, hnone⟩
  | fail h e => exact ⟨[], .same, hnone⟩
  | loop h => exact ⟨[], .same, hnone⟩
  | breakOff h => exact ⟨[], .same, hnone⟩
  | shutDown i => exact ⟨[], .same, hnone⟩
  | loops h hl => exact ⟨[], .same, hnone⟩
  | popped h hp ha now => exact ⟨[], .pop _ now, hnone⟩
  | unpopped h hp => exact ⟨[], .same, hnone⟩
  | enroll h hp hr hn now =>
    obtain ⟨t', ht', hplace⟩ := ht.exists_of_loops? h (Loops.mem_placed_of_holding hp)
    exact ⟨[], .modify ht' (.enroll (Phase.eq_of_place? hplace) now), hnone⟩
  | reject h hp hr hn now =>
    obtain ⟨t', ht', hplace⟩ := ht.exists_of_loops? h (Loops.mem_placed_of_holding hp)
    exact ⟨[], .modify ht' (.reject (Phase.eq_of_place? hplace) now _), hnone⟩
  | take h hl =>
    obtain ⟨t', ht', hplace⟩ := ht.exists_of_loops? h hl.mem_placed
    exact ⟨[], .modify ht' (.take (Phase.eq_of_place? hplace)), hnone⟩
  | spawn h hl =>
    obtain ⟨t', ht', hplace⟩ := ht.exists_of_loops? h hl.mem_placed
    exact ⟨[], .modify ht' (.spawn (Phase.eq_of_place? hplace)), hnone⟩
  | skip h hl =>
    obtain ⟨t', ht', hplace⟩ := ht.exists_of_loops? h hl.mem_placed
    exact ⟨[], .modify ht' (.skip (Phase.eq_of_place? hplace) _), hnone⟩
  | finish h hd => exact ⟨[], .same, hnone⟩
  | work hr h => exact ⟨[], .change hr (.work h), hnone⟩
  | @report r t report hr hp wall =>
    refine ⟨[(r, report)], ?_, rfl⟩
    have hconst : c.tasks.modify r (fun t => { t with phase := .releasing }) =
        c.tasks.modify r fun _ => { t with phase := .releasing } := modify_congr hr rfl
    have hstep : TasksStep c.tasks (c.tasks.modify r fun t => { t with phase := .releasing })
        [(r, report)] := hconst ▸ .report hr hp
    exact hstep
  | cancel hr hs released => exact ⟨[], .modify hr (.cancel hs released), hnone⟩
  | release hr hp => exact ⟨[], .modify hr (.release hp), hnone⟩

/-! ### What a task knows of itself -/

/-- A worker has made the context of the task and has not brought it to completion. -/
def Phase.isWorking : Phase η → Bool
  | .armed _ | .starting _ _ | .started _ | .running _ _ | .stopping _ | .finishing _ _ => true
  | _ => false

/-- The task has a place in the registry unless it was released. -/
def Phase.isRegistered : Phase η → Bool
  | .waiting | .dispatched | .spawned | .armed _ | .starting _ _ | .started _ | .running _ _
  | .stopping _ | .finishing _ _ => true
  | _ => false

/-- The report of a task in this phase has been handed over. -/
def Phase.isReported : Phase η → Bool
  | .releasing | .ended => true
  | _ => false

/-- The phase and the flags of a task fit together. -/
structure Task.Sound (t : Task η) : Prop where
  /-- A working task has a token. -/
  token : t.phase.isWorking → t.token.isSome
  /-- Tasks are registered before they wait for dispatch. -/
  registered : t.phase.isRegistered → t.registered
  /-- Only registered tasks get a token. -/
  armed : t.token.isSome → t.registered
  /-- A task that is released before its end was canceled. -/
  canceled : t.released → t.phase = .ended ∨ t.status = .canceled
  /-- A report carries the id and the type that were popped. -/
  reporting : ∀ report, t.phase = .reporting report →
    report.id = t.popped.id ∧ report.taskType = t.popped.taskType

/-- A task that was just popped is `Sound`. -/
theorem Task.sound_new (p : PoppedTask) (now : Instant) :
    ({ popped := p, createdAt := now } : Task η).Sound :=
  ⟨by simp [Phase.isWorking], by simp [Phase.isRegistered], by simp, by simp, by simp⟩

/-- Work in the sense of `Task.Works` keeps a task `Sound`. -/
theorem Task.Works.sound {t t' : Task η} (h : t.Works t') (hs : t.Sound) : t'.Sound := by
  have hregistered := hs.registered
  have htoken := hs.token
  have hcanceled := hs.canceled
  cases h <;> refine ⟨?_, ?_, ?_, ?_, ?_⟩ <;>
    simp_all [Phase.isWorking, Phase.isRegistered, Task.report, Task.id, Task.taskType, hs.armed]

/-- A `Task.Step` keeps a task `Sound`. -/
theorem Task.Step.sound {t t' : Task η} (h : t.Step t') (hs : t.Sound) : t'.Sound := by
  have hcanceled : t.phase ≠ .ended → t.released → t.status = .canceled := fun hp hr =>
    (hs.canceled hr).resolve_left hp
  cases h with
  | enroll hp now =>
    exact ⟨by simp [Phase.isWorking], fun _ => rfl, fun _ => rfl,
      fun hr => .inr (hcanceled (by simp [hp]) hr), by simp⟩
  | reject hp now o =>
    exact ⟨by simp [Phase.isWorking], by simp [Phase.isRegistered], hs.armed,
      fun hr => .inr (hcanceled (by simp [hp]) hr), by simp⟩
  | take hp =>
    have hregistered := hs.registered (by simp [hp, Phase.isRegistered])
    exact ⟨by simp [Phase.isWorking], fun _ => hregistered, hs.armed,
      fun hr => .inr (hcanceled (by simp [hp]) hr), by simp⟩
  | spawn hp =>
    have hregistered := hs.registered (by simp [hp, Phase.isRegistered])
    exact ⟨by simp [Phase.isWorking], fun _ => hregistered, hs.armed,
      fun hr => .inr (hcanceled (by simp [hp]) hr), by simp⟩
  | skip hp o =>
    exact ⟨by simp [Phase.isWorking], by simp [Phase.isRegistered], hs.armed,
      fun hr => .inr (hcanceled (by simp [hp]) hr), by simp⟩
  | work hw => exact hw.sound hs
  | cancel hd released => exact ⟨hs.token, hs.registered, hs.armed, fun _ => .inr rfl, hs.reporting⟩
  | release hp =>
    exact ⟨by simp [Phase.isWorking], by simp [Phase.isRegistered], hs.armed, fun _ => .inl rfl,
      by simp⟩

/-- A `Task.Step` leaves what was popped as it was. -/
theorem Task.Step.popped_eq {t t' : Task η} (h : t.Step t') : t'.popped = t.popped := by
  cases h with
  | work hw => cases hw <;> rfl
  | _ => rfl

/-- A `Task.Step`, which hands no report over, leaves `isReported` as it was. -/
theorem Task.Step.isReported_eq {t t' : Task η} (h : t.Step t') :
    t'.phase.isReported = t.phase.isReported := by
  cases h with
  | work hw => cases hw <;> simp_all [Phase.isReported]
  | cancel hd released => rfl
  | enroll hp | reject hp | take hp | spawn hp | skip hp | release hp => simp [hp, Phase.isReported]

/-! ### What the tasks and the reports have to do with each other -/

/-- The reports are those of the tasks that have passed the phase in which a report is handed over,
one for each, and carry the ids and the types that were popped. -/
structure Reported (tasks : List (Task η)) (reports : List (TaskRef × TaskReport)) : Prop where
  /-- Every task is sound. -/
  sound : ∀ t ∈ tasks, t.Sound
  /-- A task has one report or none, as its phase says. -/
  count : ∀ r, (reports.map Prod.fst).count r =
    if (tasks[r]?).any fun t => t.phase.isReported then 1 else 0
  /-- A report belongs to what was popped. -/
  matching : ∀ x ∈ reports, ∃ t, tasks[x.1]? = some t ∧ x.2.id = t.popped.id ∧
    x.2.taskType = t.popped.taskType

/-- Without tasks there are no reports, and `Reported` holds. -/
theorem reported_nil : Reported ([] : List (Task η)) [] := ⟨by simp, by simp, by simp⟩

namespace Reported

variable {tasks : List (Task η)} {reports : List (TaskRef × TaskReport)} {r : TaskRef}

/-- A new task, of which there is no report, keeps `Reported`. -/
theorem pop (hr : Reported tasks reports) (p : PoppedTask) (now : Instant) :
    Reported (tasks ++ [{ popped := p, createdAt := now }]) reports := by
  refine ⟨?_, ?_, ?_⟩
  · intro t ht
    rcases List.mem_append.1 ht with ht | ht
    · exact hr.sound t ht
    · exact List.mem_singleton.1 ht ▸ Task.sound_new p now
  · intro r
    rw [hr.count r, List.getElem?_append]
    by_cases hlt : r < tasks.length
    · rw [if_pos hlt]
    · rw [if_neg hlt, List.getElem?_eq_none (Nat.le_of_not_lt hlt), List.getElem?_singleton]
      by_cases heq : r - tasks.length = 0 <;> simp [heq, Phase.isReported]
  · intro x hx
    obtain ⟨t, ht, hmatch⟩ := hr.matching x hx
    have hlt : x.1 < tasks.length := (List.getElem?_eq_some_iff.1 ht).1
    exact ⟨t, by rw [List.getElem?_append_left hlt, ht], hmatch⟩

/-- The ids and types of reports match those of the tasks after a change that leaves what was popped
as it was. -/
theorem matching_modify (hr : Reported tasks reports) {t t' : Task η} (ht : tasks[r]? = some t)
    (hpopped : t'.popped = t.popped) :
    ∀ x ∈ reports, ∃ u, (tasks.modify r fun _ => t')[x.1]? = some u ∧ x.2.id = u.popped.id ∧
      x.2.taskType = u.popped.taskType := by
  intro x hx
  obtain ⟨u, hu, hmatch⟩ := hr.matching x hx
  rw [List.getElem?_modify, hu]
  by_cases heq : r = x.1
  · have hut : t = u := by
      rw [heq, hu] at ht
      exact (Option.some.inj ht).symm
    rw [← hut, ← hpopped] at hmatch
    exact ⟨t', by simp [heq], hmatch⟩
  · exact ⟨u, by simp [heq], hmatch⟩

/-- A `Task.Step` of one task keeps `Reported` with the same reports. -/
theorem change (hr : Reported tasks reports) {t t' : Task η} (ht : tasks[r]? = some t)
    (hs : t.Step t') : Reported (tasks.modify r fun _ => t') reports := by
  refine ⟨?_, ?_, hr.matching_modify ht hs.popped_eq⟩
  · exact forall_mem_modify hr.sound fun _ _ _ => hs.sound (hr.sound t (List.mem_of_getElem? ht))
  · intro r'
    rw [hr.count r', List.getElem?_modify]
    by_cases heq : r = r'
    · subst heq
      simp [ht, hs.isReported_eq]
    · simp [heq]

/-- Handing over the report of a task in the phase `reporting` keeps `Reported`: it is the first of
its task. -/
theorem report (hr : Reported tasks reports) {t : Task η} {report : TaskReport}
    (ht : tasks[r]? = some t) (hp : t.phase = .reporting report) :
    Reported (tasks.modify r fun _ => { t with phase := .releasing })
      (reports ++ [(r, report)]) := by
  have hsound := hr.sound t (List.mem_of_getElem? ht)
  have hcanceled : t.released → t.status = .canceled := fun hreleased =>
    (hsound.canceled hreleased).resolve_left (by simp [hp])
  refine ⟨?_, ?_, ?_⟩
  · apply forall_mem_modify hr.sound
    intro _ _ _
    exact ⟨by simp [Phase.isWorking], by simp [Phase.isRegistered], hsound.armed,
      fun hreleased => .inr (hcanceled hreleased), by simp⟩
  · intro r'
    rw [List.map_append, List.count_append, hr.count r', List.getElem?_modify]
    by_cases heq : r = r'
    · subst heq
      simp [ht, hp, Phase.isReported]
    · simp [heq]
  · intro x hx
    rcases List.mem_append.1 hx with hx | hx
    · have hpopped : ({ t with phase := .releasing } : Task η).popped = t.popped := rfl
      exact hr.matching_modify ht hpopped x hx
    · obtain rfl := List.mem_singleton.1 hx
      exact ⟨{ t with phase := .releasing }, by simp [ht],
        hsound.reporting report hp⟩

end Reported

/-- A `TasksStep` keeps `Reported`. -/
theorem TasksStep.reported {tasks tasks' : List (Task η)}
    {out reports : List (TaskRef × TaskReport)}
    (h : TasksStep tasks tasks' out) (hr : Reported tasks reports) :
    Reported tasks' (reports ++ out) := by
  cases h with
  | same =>
    rw [List.append_nil]
    exact hr
  | pop p now =>
    rw [List.append_nil]
    exact hr.pop p now
  | change ht hs =>
    rw [List.append_nil]
    exact hr.change ht hs
  | report ht hp => exact hr.report ht hp

end TaskScheduler
