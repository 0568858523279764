import TaskScheduler.Proofs.Scheduler.StageEntry

/-!
# What a task does by itself

Once a worker has a task, the moves of that worker and the answers of its stages take the task
further.  The worker never gets stuck: unless a stage is at work it comes, by a few moves of its
own, to a stage or to the report.  A task that has its outcome is settled: it enters no stage any
more, and the outcome is all that is ever reported of it.
-/

namespace TaskScheduler

variable {β η : Type}

/-- Whether a stage of a task is at work, called by another one or not. -/
def Task.inStage (t : Task η) : Bool :=
  match t.phase with
  | .running ⟨_, _, _, some _, _⟩ _ => true
  | _ => false

/-- A task that is `inStage` is running, and its innermost pass has the stage that is at work. -/
theorem Task.exists_of_inStage {t : Task η} (h : t.inStage = true) :
    ∃ c rest input stage called callers,
      t.phase = .running ⟨c, rest, input, some stage, called⟩ callers := by
  unfold inStage at h
  split at h
  next hp => exact ⟨_, _, _, _, _, _, hp⟩
  next => exact absurd h (by simp)

/-! ### Tasks whose own stage is at work -/

/-- A stage of the pipeline of a task is at work, and the passes above it are those of pipelines
that it called. -/
def Task.Within (t : Task η) (above : List (Frame η)) (c : Context) (rest : Pipeline η)
    (input : StageInput) (stage : Stage η) : Prop :=
  ∃ top callers called, t.phase = .running top callers ∧
    top :: callers = above ++ [⟨c, rest, input, some stage, called⟩]

/-- What a task executes that is `Within` its own stage: the stages of the passes above, and this
one. -/
theorem Task.Within.executing_eq {t : Task η} {above : List (Frame η)} {c : Context}
    {rest : Pipeline η} {input : StageInput} {stage : Stage η}
    (h : t.Within above c rest input stage) :
    t.executing = executingIn above ++ [(stage, c)] := by
  obtain ⟨top, callers, called, hp, hframes⟩ := h
  rw [Task.executing_of_running hp, hframes, executingIn, List.filterMap_append]
  rfl

/-- The innermost pass of a task `Within` its own stage is that of this stage, or a pass above
it. -/
theorem Task.Within.cases_above {t : Task η} {above : List (Frame η)} {c : Context}
    {rest : Pipeline η} {input : StageInput} {stage : Stage η}
    (h : t.Within above c rest input stage) :
    (above = [] ∧ ∃ called, t.phase = .running ⟨c, rest, input, some stage, called⟩ []) ∨
      ∃ f above' called, above = f :: above' ∧
        t.phase = .running f (above' ++ [⟨c, rest, input, some stage, called⟩]) := by
  obtain ⟨top, callers, called, hp, hframes⟩ := h
  cases above with
  | nil =>
    obtain ⟨rfl, rfl⟩ := List.cons.inj hframes
    exact .inl ⟨rfl, called, hp⟩
  | cons f above' =>
    obtain ⟨rfl, rfl⟩ := List.cons.inj hframes
    exact .inr ⟨top, above', called, rfl, hp⟩

/-- If only one stage of a task is executing and a stage is at work, the task is `Within` its own
stage without a pass above. -/
theorem Task.Within.above_eq_nil {t : Task η} {above : List (Frame η)} {c : Context}
    {rest : Pipeline η} {input : StageInput} {stage : Stage η}
    (h : t.Within above c rest input stage) (hstage : t.inStage = true)
    (hone : t.executing.length = 1) : above = [] := by
  rcases h.cases_above with ⟨hnil, -⟩ | ⟨f, above', called, rfl, hp⟩
  · exact hnil
  · obtain ⟨c', rest', input', stage', called', callers, hp'⟩ := exists_of_inStage hstage
    obtain ⟨rfl, -⟩ := Phase.running.inj (hp'.symm.trans hp)
    rw [h.executing_eq, executingIn_cons] at hone
    simp at hone

/-- A task stays `Within` its own stage as long as this stage does not return, and no stage breaks
off. -/
theorem Task.Within.turn {s : Scheduler β η} {m : Move η} {r : TaskRef} {t t' : Task η}
    {above : List (Frame η)} {c : Context} {rest : Pipeline η} {input : StageInput}
    {stage : Stage η} (h : t.Within above c rest input stage) (hturn : Task.Turn s m r t t')
    (hreturned : above = [] → ∀ o, m ≠ .event (.returnFromStage r o))
    (hbroke : ∀ p, m = .event (.breakOff r p) → t.inStage = false) :
    ∃ above', t'.Within above' c rest input stage := by
  have hrunning : ∃ top callers, t.phase = .running top callers := by
    obtain ⟨top, callers, -, hp, -⟩ := h
    exact ⟨top, callers, hp⟩
  have hno : ∀ {q : Prop}, (∀ top callers, t.phase ≠ .running top callers) → q := by
    intro q hnot
    obtain ⟨top, callers, hp⟩ := hrunning
    exact absurd hp (hnot top callers)
  cases hturn with
  | same | cancel | mark | drop => exact ⟨above, h⟩
  | enroll hat | reject hat | take hat | spawn hat | skip hat | arm _ hat | start hat | refuse hat
  | countStart hat | gaugeStart hat | lookUp hat | lack hat | stop hat | countStop hat
  | gaugeStop hat | record hat | report hat | release hat => exact hno (by simp [hat])
  | enter hat =>
    rcases h.cases_above with ⟨-, called, hp⟩ | ⟨f, above', called, -, hp⟩
    · exact absurd (hat.symm.trans hp) (by simp)
    · obtain ⟨rfl, rfl⟩ := Phase.running.inj (hat.symm.trans hp)
      exact ⟨_ :: above', _, _, called, rfl, rfl⟩
  | leave hat o hl =>
    rcases h.cases_above with ⟨hnil, called, hp⟩ | ⟨f, above', called, -, hp⟩
    · cases hl with
      | done hat' | stopped hat' => exact absurd (hat'.symm.trans hp) (by simp)
      | failed _ hm => exact absurd hm (hreturned hnil _)
    · obtain ⟨rfl, rfl⟩ := Phase.running.inj (hat.symm.trans hp)
      cases above' with
      | nil => exact ⟨[], _, _, some o, rfl, rfl⟩
      | cons f above' => exact ⟨_ :: above', _, _, called, rfl, rfl⟩
  | returned hat v hm =>
    rcases h.cases_above with ⟨hnil, -⟩ | ⟨f, above', called, -, hp⟩
    · exact absurd hm (hreturned hnil _)
    · obtain ⟨rfl, rfl⟩ := Phase.running.inj (hat.symm.trans hp)
      exact ⟨_ :: above', _, _, called, rfl, rfl⟩
  | broke hat e he hm =>
    have hstage := hbroke _ hm
    rw [Task.inStage, hat] at hstage
    exact absurd hstage (by simp)
  | called hat hm hfound =>
    rcases h.cases_above with ⟨-, called, hp⟩ | ⟨f, above', called, -, hp⟩
    · obtain ⟨hframe, rfl⟩ := Phase.running.inj (hat.symm.trans hp)
      obtain ⟨rfl, rfl, rfl, hstage, -⟩ := Frame.mk.inj hframe
      exact ⟨[_], _, _, none, rfl, by rw [hstage]; rfl⟩
    · obtain ⟨rfl, rfl⟩ := Phase.running.inj (hat.symm.trans hp)
      exact ⟨_ :: _ :: above', _, _, called, rfl, rfl⟩

/-! ### Tasks that have their outcome -/

/-- A worker has made the context of the task, and the task has not been reported. -/
def Phase.isUnderWay : Phase η → Bool
  | .armed _ | .starting _ _ | .started _ | .running _ _ | .stopping _ | .finishing _ _
  | .completing _ | .reporting _ => true
  | _ => false

/-- The outcome of a task that has one and has not been reported. -/
def Phase.outcome? : Phase η → Option Outcome
  | .stopping o | .finishing o _ | .completing o => some o
  | .reporting report => some report.outcome
  | _ => none

/-- The path and the outcome of a task are settled. -/
structure Task.Settled (t : Task η) (path : List String) (o : Outcome) : Prop where
  /-- The path. -/
  path : t.path = path
  /-- The outcome is to be reported, or was. -/
  phase : t.phase.outcome? = some o ∨ t.phase.isReported = true

/-- A task that is `Settled` executes no stage. -/
theorem Task.Settled.executing_eq_nil {t : Task η} {path : List String} {o : Outcome}
    (h : t.Settled path o) : t.executing = [] := by
  refine Task.executing_eq_nil fun top callers hp => ?_
  have hphase := h.phase
  rw [hp] at hphase
  exact absurd hphase (by simp [Phase.outcome?, Phase.isReported])

/-- A task that is `Settled` stays so with its path and its outcome, whatever its turn. -/
theorem Task.Settled.turn {s : Scheduler β η} {m : Move η} {r : TaskRef} {t t' : Task η}
    {path : List String} {o : Outcome} (h : t.Settled path o) (hturn : Task.Turn s m r t t') :
    t'.Settled path o := by
  have hno : ∀ {p : Prop}, t.phase.outcome? = none → t.phase.isReported = false → p := by
    intro p hout hreported
    have hphase := h.phase
    rw [hout, hreported] at hphase
    exact absurd hphase (by simp)
  have hsame : ∀ o', t.phase.outcome? = some o' → o' = o := by
    intro o' ho'
    rcases h.phase with ho | hreported
    · exact Option.some.inj (ho'.symm.trans ho)
    · cases hp : t.phase <;> simp_all [Phase.outcome?, Phase.isReported]
  cases hturn with
  | same | cancel | mark | drop => exact ⟨h.path, h.phase⟩
  | stop hp | countStop hp | gaugeStop hp | record hp =>
    exact ⟨h.path, .inl (by rw [← hsame _ (by rw [hp]; rfl)]; rfl)⟩
  | report | release => exact ⟨h.path, .inr rfl⟩
  | enroll hp | reject hp | take hp | spawn hp | skip hp | arm _ hp | start hp | refuse hp
  | countStart hp | gaugeStart hp | lookUp hp | lack hp | enter hp | leave hp | returned hp
  | broke hp | called hp =>
    exact hno (by rw [hp]; rfl) (by rw [hp]; rfl)

namespace Scheduler

/-- In a `Tidy` core nothing has been reported of a task whose phase is not one of those that are
`isReported`. -/
theorem not_mem_reports {s : Scheduler β η} (htidy : s.core.Tidy) {r : TaskRef} {t : Task η}
    (ht : s.task? r = some t) (hp : t.phase.isReported = false) (report : TaskReport) :
    (r, report) ∉ s.reports := by
  intro hmem
  have hcount : s.core.reportCount r = 0 := by
    rw [htidy.reportCount_eq ht, hp]
    rfl
  have hpos : 0 < s.core.reportCount r :=
    List.count_pos_iff.2 (List.mem_map.2 ⟨(r, report), hmem, rfl⟩)
  omega

/-- The path of a task, and what is all that is ever reported of it. -/
structure Settled (s : Scheduler β η) (r : TaskRef) (path : List String) (o : Outcome) : Prop where
  /-- The task. -/
  task : ∃ t, s.task? r = some t ∧ t.Settled path o
  /-- Its report. -/
  reports : ∀ report, (r, report) ∈ s.reports → report.outcome = o

/-- A task that comes to its outcome is `Settled` with its path and this outcome. -/
theorem Settled.of_outcome {s : Scheduler β η} (htidy : s.core.Tidy) {r : TaskRef} {t : Task η}
    (ht : s.task? r = some t) {o : Outcome} (ho : t.phase.outcome? = some o) :
    s.Settled r t.path o where
  task := ⟨t, ht, rfl, .inl ho⟩
  reports report hmem := by
    have hp : t.phase.isReported = false := by
      revert ho
      cases t.phase <;> simp [Phase.outcome?, Phase.isReported]
    exact absurd hmem (not_mem_reports htidy ht hp report)

variable [TaskQueue β]

/-- A move leaves a task `Settled`. -/
theorem Settled.move {s : Scheduler β η} {r : TaskRef} {path : List String} {o : Outcome}
    (h : s.Settled r path o) (htidy : s.core.Tidy) (m : Move η) : (s.move m).Settled r path o := by
  obtain ⟨t, ht, hsettled⟩ := h.task
  obtain ⟨t', ht', hturn⟩ := (turns_move htidy.tracked m).old r t ht
  refine ⟨⟨t', ht', hsettled.turn hturn⟩, fun report hmem => ?_⟩
  rcases mem_reports_move htidy hmem with hold | ⟨u, hu, hp⟩
  · exact h.reports report hold
  · obtain rfl : t = u := Option.some.inj (ht.symm.trans hu)
    have hphase := hsettled.phase
    rw [hp] at hphase
    simpa [Phase.outcome?, Phase.isReported] using hphase

/-- A task that is `Settled` stays so whatever happens. -/
theorem Settled.afterMoves {s : Scheduler β η} {r : TaskRef} {path : List String} {o : Outcome}
    (h : s.Settled r path o) (htidy : s.core.Tidy) (later : List (Move η)) :
    (s.afterMoves later).Settled r path o := by
  induction later generalizing s with
  | nil => exact h
  | cons m later ih => exact ih (h.move htidy m) ((s.core_move m).tidy htidy)

end Scheduler

/-! ### The moves of a worker -/

namespace Scheduler

variable {s : Scheduler β η} {r : TaskRef} {t : Task η}

/-- After `modifyTask` the task in the place is the changed one. -/
theorem task?_modifyTask (ht : s.task? r = some t) (f : Task η → Task η) :
    (s.modifyTask r f).task? r = some (f t) := by
  have hlist : s.tasks[r]? = some t := ht
  rw [task?, modifyTask, List.getElem?_modify_eq, hlist]
  rfl

/-- After `setPhase` the task in the place is in the phase and otherwise as before. -/
theorem task?_setPhase (ht : s.task? r = some t) (p : Phase η) :
    (s.setPhase r p).task? r = some { t with phase := p } :=
  task?_modifyTask ht _

/-- In the phase `armed`, `stepTask` starts the task, or completes it as canceled. -/
theorem stepTask_of_armed {c : Context} (ht : s.task? r = some t) (hp : t.phase = .armed c) :
    (s.stepTask r).task? r = some
      (if t.status = .init then { t with status := .running, phase := .starting c false }
      else { t with phase := .completing (.error .canceled) }) := by
  simp only [stepTask, ht, hp, startWorker, startTask]
  by_cases hstatus : t.status = .init
  · simp only [hstatus, if_true]
    exact task?_setPhase (task?_modifyTask ht _) _
  · simp only [hstatus, if_false]
    exact task?_setPhase ht _

/-- In the phase `starting`, before the counter is raised, `stepTask` raises it. -/
theorem stepTask_of_starting {c : Context} (ht : s.task? r = some t)
    (hp : t.phase = .starting c false) :
    (s.stepTask r).task? r = some { t with phase := .starting c true } := by
  simp only [stepTask, ht, hp, countStart]
  exact task?_setPhase ht _

/-- In the phase `starting`, after the counter was raised, `stepTask` raises the gauge. -/
theorem stepTask_of_counted {c : Context} (ht : s.task? r = some t)
    (hp : t.phase = .starting c true) :
    (s.stepTask r).task? r = some { t with phase := .started c } := by
  simp only [stepTask, ht, hp, countStart]
  exact task?_setPhase ht _

/-- In the phase `started`, `stepTask` looks up the pipeline. -/
theorem stepTask_of_started {c : Context} (ht : s.task? r = some t) (hp : t.phase = .started c) :
    s.stepTask r = match s.pipelines.get? t.taskType with
      | some p => s.setPhase r (.running ⟨c, p, .first, none, none⟩ [])
      | none => s.setPhase r (.stopping (.error (.noPipeline t.taskType))) := by
  cases hfound : s.pipelines.get? t.taskType <;>
    simp only [stepTask, ht, hp, lookUpPipeline, hfound]

/-- Behind the last stage `stepTask` leaves the pipeline. -/
theorem stepTask_of_last {c : Context} {input : StageInput} {called : Option Outcome}
    {callers : List (Frame η)} (ht : s.task? r = some t)
    (hp : t.phase = .running ⟨c, [], input, none, called⟩ callers) :
    s.stepTask r = s.setPhase r (leavePipeline (.ok input.result) callers) := by
  simp only [stepTask, ht, hp, enterStage]

/-- Before a stage `stepTask` leaves the pipeline if there is a `stopReason`, or enters the
stage. -/
theorem stepTask_of_next {c : Context} {stage : Stage η} {rest : Pipeline η} {input : StageInput}
    {called : Option Outcome} {callers : List (Frame η)} (ht : s.task? r = some t)
    (hp : t.phase = .running ⟨c, stage :: rest, input, none, called⟩ callers) :
    s.stepTask r = match s.stopReason t c with
      | some e => s.setPhase r (leavePipeline (.error e) callers)
      | none => s.modifyTask r fun t => { t with
          path := t.path ++ [stage.name]
          phase := .running ⟨c, rest, input, some stage, none⟩ callers } := by
  cases hstop : s.stopReason t c <;> simp only [stepTask, ht, hp, enterStage, hstop]

/-- A stage at work that returns a value brings its pass to the next stage; with an error it leaves
the pipeline. -/
theorem returnFromStage_of_stage {c : Context} {rest : Pipeline η} {input : StageInput}
    {stage : Stage η} {called : Option Outcome} {callers : List (Frame η)}
    (ht : s.task? r = some t)
    (hp : t.phase = .running ⟨c, rest, input, some stage, called⟩ callers) (o : Outcome) :
    s.returnFromStage r o = match o with
      | .ok v => s.setPhase r (.running ⟨c, rest, .value v, none, none⟩ callers)
      | .error e => s.setPhase r (leavePipeline (.error e) callers) := by
  cases o <;> simp only [returnFromStage, ht, hp]

/-- A stage at work that breaks off ends the whole run with the error that the worker makes of the
panic. -/
theorem breakOff_of_stage {c : Context} {rest : Pipeline η} {input : StageInput}
    {stage : Stage η} {called : Option Outcome} {callers : List (Frame η)}
    (ht : s.task? r = some t)
    (hp : t.phase = .running ⟨c, rest, input, some stage, called⟩ callers) (p : Payload) :
    s.breakOff r p = s.setPhase r (.stopping (.error (.unexpected p.message t.path))) := by
  simp only [breakOff, ht, hp]

/-- In the phase `stopping`, `stepTask` lets the task finish. -/
theorem stepTask_of_stopping {o : Outcome} (ht : s.task? r = some t) (hp : t.phase = .stopping o) :
    ∃ t', (s.stepTask r).task? r = some t' ∧ t'.phase = .finishing o true := by
  simp only [stepTask, ht, hp, stopWorker]
  exact ⟨_, task?_setPhase (task?_modifyTask ht _) _, rfl⟩

/-- In the phase `finishing`, before the counter is lowered, `stepTask` lowers it. -/
theorem stepTask_of_finishing {o : Outcome} (ht : s.task? r = some t)
    (hp : t.phase = .finishing o true) :
    (s.stepTask r).task? r = some { t with phase := .finishing o false } := by
  simp only [stepTask, ht, hp, countStop]
  exact task?_setPhase ht _

/-- In the phase `finishing`, after the counter was lowered, `stepTask` lowers the gauge. -/
theorem stepTask_of_uncounted {o : Outcome} (ht : s.task? r = some t)
    (hp : t.phase = .finishing o false) :
    (s.stepTask r).task? r = some { t with phase := .completing o } := by
  simp only [stepTask, ht, hp, countStop]
  exact task?_setPhase ht _

/-- In the phase `completing`, `stepTask` records the outcome. -/
theorem stepTask_of_completing {o : Outcome} (ht : s.task? r = some t)
    (hp : t.phase = .completing o) :
    ∃ t' report, (s.stepTask r).task? r = some t' ∧ t'.phase = .reporting report := by
  simp only [stepTask, ht, hp, recordOutcome]
  exact ⟨_, _, task?_modifyTask ht _, rfl⟩

/-- In the phase `reporting`, `sendReport` hands the report over. -/
theorem mem_reports_sendReport [TaskQueue β] {report : TaskReport} (ht : s.task? r = some t)
    (hp : t.phase = .reporting report) (wall : Timestamp) :
    (r, report) ∈ (s.sendReport r wall).reports := by
  simp only [sendReport, ht, hp, List.mem_append, List.mem_singleton, or_true]

/-! ### Progress -/

variable [TaskQueue β]

/-- By at most `n` moves of its worker a task comes to a stage or to its report. -/
def ComesOn (s : Scheduler β η) (r : TaskRef) (wall : Timestamp) (n : Nat) : Prop :=
  ∃ own : List (Move η), own.length ≤ n ∧
    (∀ m ∈ own, m = .event (.stepTask r) ∨ m = .event (.report r wall)) ∧
    ((∃ t, (s.afterMoves own).task? r = some t ∧ t.inStage = true) ∨
      ∃ report, (r, report) ∈ (s.afterMoves own).reports)

variable {wall : Timestamp} {n : Nat}

/-- A task that `ComesOn` by at most `n` moves does so by at most any greater number. -/
theorem ComesOn.mono {n' : Nat} (h : s.ComesOn r wall n) (hle : n ≤ n') : s.ComesOn r wall n' := by
  obtain ⟨own, hlength, hown⟩ := h
  exact ⟨own, Nat.le_trans hlength hle, hown⟩

/-- A task at whose stage work goes on `ComesOn` without a move. -/
theorem ComesOn.of_inStage (ht : s.task? r = some t) (h : t.inStage = true) : s.ComesOn r wall n :=
  ⟨[], Nat.zero_le n, by simp, .inl ⟨t, ht, h⟩⟩

/-- A task that `ComesOn` by `n` moves after a step of its worker does so by `n + 1`. -/
theorem ComesOn.of_step (h : (s.stepTask r).ComesOn r wall n) : s.ComesOn r wall (n + 1) := by
  obtain ⟨own, hlength, hown, hcomes⟩ := h
  refine ⟨.event (.stepTask r) :: own, Nat.succ_le_succ hlength, fun m hm => ?_, hcomes⟩
  rcases List.mem_cons.1 hm with rfl | hm
  · exact .inl rfl
  · exact hown m hm

/-- In the phase `reporting` a task `ComesOn` by one move. -/
theorem ComesOn.of_reporting {report : TaskReport} (ht : s.task? r = some t)
    (hp : t.phase = .reporting report) : s.ComesOn r wall 1 :=
  ⟨[.event (.report r wall)], Nat.le_refl 1, by simp,
    .inr ⟨report, mem_reports_sendReport ht hp wall⟩⟩

/-- In the phase `completing` a task `ComesOn` by two moves. -/
theorem ComesOn.of_completing {o : Outcome} (ht : s.task? r = some t)
    (hp : t.phase = .completing o) : s.ComesOn r wall 2 := by
  obtain ⟨t', report, ht', hp'⟩ := stepTask_of_completing ht hp
  exact .of_step (.of_reporting ht' hp')

/-- In the phase `finishing` a task `ComesOn` by four moves. -/
theorem ComesOn.of_finishing {o : Outcome} {counted : Bool} (ht : s.task? r = some t)
    (hp : t.phase = .finishing o counted) : s.ComesOn r wall 4 := by
  have huncounted {s : Scheduler β η} {t : Task η} (ht : s.task? r = some t)
      (hp : t.phase = .finishing o false) : s.ComesOn r wall 3 :=
    .of_step (.of_completing (stepTask_of_uncounted ht hp) rfl)
  cases counted with
  | false => exact (huncounted ht hp).mono (Nat.le_succ 3)
  | true => exact .of_step (huncounted (stepTask_of_finishing ht hp) rfl)

/-- In the phase `stopping` a task `ComesOn` by five moves. -/
theorem ComesOn.of_stopping {o : Outcome} (ht : s.task? r = some t)
    (hp : t.phase = .stopping o) : s.ComesOn r wall 5 := by
  obtain ⟨t', ht', hp'⟩ := stepTask_of_stopping ht hp
  exact .of_step (.of_finishing ht' hp')

/-- A task that has just left a pass by `leavePipeline`, and whose callers are busy, `ComesOn` by
five moves. -/
theorem ComesOn.of_leave {o : Outcome} {callers : List (Frame η)}
    (ht : s.task? r = some t) (hp : t.phase = leavePipeline o callers)
    (hbusy : callers.all fun f => f.stage.isSome) : s.ComesOn r wall 5 := by
  cases callers with
  | nil => exact .of_stopping ht hp
  | cons f callers =>
    refine .of_inStage ht ?_
    obtain ⟨hf, -⟩ := Bool.and_eq_true_iff.1 ((List.all_cons ..).symm.trans hbusy)
    obtain ⟨stage, hstage⟩ := Option.isSome_iff_exists.1 hf
    obtain ⟨c, rest, input, stage', called⟩ := f
    subst hstage
    rw [Task.inStage, hp]
    rfl

/-- A task whose pipeline is executing, and whose callers are busy, `ComesOn` by six moves. -/
theorem ComesOn.of_running {top : Frame η} {callers : List (Frame η)} (ht : s.task? r = some t)
    (hp : t.phase = .running top callers) (hbusy : t.phase.callersBusy = true) :
    s.ComesOn r wall 6 := by
  rw [hp] at hbusy
  obtain ⟨c, rest, input, _ | stage, called⟩ := top
  · refine .of_step ?_
    cases rest with
    | nil =>
      rw [stepTask_of_last ht hp]
      exact .of_leave (task?_setPhase ht _) rfl hbusy
    | cons stage rest =>
      rw [stepTask_of_next ht hp]
      split
      next e _ => exact .of_leave (task?_setPhase ht _) rfl hbusy
      next => exact .of_inStage (task?_modifyTask ht _) rfl
  · refine .of_inStage ht ?_
    rw [Task.inStage, hp]

/-- In the phase `started` a task `ComesOn` by seven moves. -/
theorem ComesOn.of_started {c : Context} (ht : s.task? r = some t) (hp : t.phase = .started c) :
    s.ComesOn r wall 7 := by
  refine .of_step ?_
  rw [stepTask_of_started ht hp]
  split
  next p _ => exact .of_running (task?_setPhase ht _) rfl rfl
  next => exact (ComesOn.of_stopping (task?_setPhase ht _) rfl).mono (Nat.le_succ 5)

/-- In the phase `starting` a task `ComesOn` by nine moves. -/
theorem ComesOn.of_starting {c : Context} {counted : Bool} (ht : s.task? r = some t)
    (hp : t.phase = .starting c counted) : s.ComesOn r wall 9 := by
  have hcounted {s : Scheduler β η} {t : Task η} (ht : s.task? r = some t)
      (hp : t.phase = .starting c true) : s.ComesOn r wall 8 :=
    .of_step (.of_started (stepTask_of_counted ht hp) rfl)
  cases counted with
  | false => exact .of_step (hcounted (stepTask_of_starting ht hp) rfl)
  | true => exact (hcounted ht hp).mono (Nat.le_succ 8)

/-- In the phase `armed` a task `ComesOn` by ten moves. -/
theorem ComesOn.of_armed {c : Context} (ht : s.task? r = some t) (hp : t.phase = .armed c) :
    s.ComesOn r wall 10 := by
  have hstep := stepTask_of_armed ht hp
  refine .of_step ?_
  by_cases hstatus : t.status = .init
  · rw [if_pos hstatus] at hstep
    exact .of_starting hstep rfl
  · rw [if_neg hstatus] at hstep
    exact (ComesOn.of_completing hstep rfl).mono (by decide)

/-- A run that is under way `ComesOn` by ten moves of its worker. -/
theorem comesOn_of_underWay (ht : s.task? r = some t) (hp : t.phase.isUnderWay = true)
    (hbusy : t.phase.callersBusy = true) (wall : Timestamp) : s.ComesOn r wall 10 := by
  cases hphase : t.phase with
  | armed c => exact .of_armed ht hphase
  | starting c counted => exact (ComesOn.of_starting ht hphase).mono (by decide)
  | started c => exact (ComesOn.of_started ht hphase).mono (by decide)
  | running top callers => exact (ComesOn.of_running ht hphase hbusy).mono (by decide)
  | stopping o => exact (ComesOn.of_stopping ht hphase).mono (by decide)
  | finishing o counted => exact (ComesOn.of_finishing ht hphase).mono (by decide)
  | completing o => exact (ComesOn.of_completing ht hphase).mono (by decide)
  | reporting report => exact (ComesOn.of_reporting ht hphase).mono (by decide)
  | popped | waiting | dispatched | spawned | releasing | ended =>
    rw [hphase] at hp
    exact absurd hp (by simp [Phase.isUnderWay])

end Scheduler

/-! ### The path before the first stage -/

/-- The pipeline of the task has not been looked up. -/
def Phase.isEarly : Phase η → Bool
  | .popped | .waiting | .dispatched | .spawned | .armed _ | .starting _ _ | .started _ => true
  | _ => false

/-- A task whose pipeline has not been looked up has entered no stage. -/
theorem Scheduler.path_eq_nil [TaskQueue β] (config : SchedulerConfig) (queue : β)
    (metrics : Option Metrics) (moves : List (Move η)) :
    ∀ t ∈ ((new config queue metrics : Scheduler β η).afterMoves moves).tasks,
      t.phase.isEarly = true → t.path = [] := by
  induction moves using List.reverseRecOn with
  | nil => simp [afterMoves, new]
  | append_singleton moves m ih =>
    rw [afterMoves_concat]
    refine (turns_move (tidy_afterMoves config queue metrics moves).tracked m).forall_mem
      (P := fun t => t.phase.isEarly = true → t.path = []) (fun _ _ _ => rfl) ?_
    intro r t t' ht hturn hearly
    have hold := ih t (List.mem_of_getElem? ht)
    cases hturn with
    | same | cancel | mark | drop => exact hold hearly
    | enroll hp | reject hp | take hp | spawn hp | skip hp | arm _ hp | start hp | refuse hp
    | countStart hp | gaugeStart hp | lookUp hp | lack hp => exact hold (by rw [hp]; rfl)
    | @leave top callers hp o hl =>
      cases callers <;> exact absurd hearly (by simp [leavePipeline, Phase.isEarly])
    | enter | returned | broke | called | stop | countStop | gaugeStop | record | report
    | release =>
      exact absurd hearly (by simp [Phase.isEarly])

end TaskScheduler
