import TaskScheduler.Proofs.Scheduler.RunLog

/-!
# The steps of a run

Of all that a scheduler knows, the run of one task depends on little: where it stands in the
pipeline of its task, and what has been seen of it.  `RunStep` lists what a move can make of the
two, and `runStep_move` says that every move makes one of these of them.  Between two stages only
the worker counts, and within a stage only its return and the break off of any stage; these moves
are computed, and of the others `Task.Turn` tells that the run stays where it is.  What is proved of
runs further on looks at `RunStep` alone.
-/

namespace TaskScheduler

variable {β η : Type}

/-! ### Where a run stands -/

/-- Where a run stands in the pipeline of its task. -/
inductive Standing (η : Type) where
  /-- Between two stages: these are left, and the next one is given this. -/
  | between (rest : Pipeline η) (input : StageInput)
  /-- In a stage that was given this, or in pipelines that it called; these are left after it. -/
  | inside (rest : Pipeline η) (input : StageInput) (stage : Stage η)
  /-- At the end, with an outcome. -/
  | ended (o : Outcome)

/-- The run of a task under a context stands somewhere, and the task has a path. -/
inductive Scheduler.StandsAt (s : Scheduler β η) (r : TaskRef) (c : Context) (path : List String) :
    Standing η → Prop
  /-- No stage is executing. -/
  | between {t : Task η} {rest : Pipeline η} {input : StageInput} {called : Option Outcome}
    (ht : s.task? r = some t) (hpath : t.path = path)
    (hp : t.phase = .running ⟨c, rest, input, none, called⟩ []) :
    StandsAt s r c path (.between rest input)
  /-- A stage of the pipeline is executing. -/
  | inside {t : Task η} {above : List (Frame η)} {rest : Pipeline η} {input : StageInput}
    {stage : Stage η} (ht : s.task? r = some t) (hpath : t.path = path)
    (h : t.Within above c rest input stage) : StandsAt s r c path (.inside rest input stage)
  /-- The task has its outcome. -/
  | ended {o : Outcome} (h : s.Settled r path o) : StandsAt s r c path (.ended o)

/-- What a move makes of a run and of what has been seen of it, if the given error, or none, says
that the run has to stop before the next stage. -/
inductive RunStep (stop : Option TaskError) :
    Standing η → RunLog η → Standing η → RunLog η → Prop
  /-- Nothing. -/
  | stay {st : Standing η} {log : RunLog η} : RunStep stop st log st log
  /-- No stage is left. -/
  | last {input : StageInput} {log : RunLog η} :
    RunStep stop (.between [] input) log (.ended (.ok input.result)) log
  /-- The run has to stop. -/
  | stopped {stage : Stage η} {rest : Pipeline η} {input : StageInput} {log : RunLog η}
    {e : TaskError} (h : stop = some e) :
    RunStep stop (.between (stage :: rest) input) log (.ended (.error e)) (log.meet (.stopped e))
  /-- The next stage is called. -/
  | call {stage : Stage η} {rest : Pipeline η} {input : StageInput} {log : RunLog η}
    (h : stop = none) :
    RunStep stop (.between (stage :: rest) input) log (.inside rest input stage)
      (log.call stage input)
  /-- A stage is entered in a pipeline that was called. -/
  | nest {rest : Pipeline η} {input : StageInput} {stage : Stage η} {log : RunLog η}
    (inner : Stage η) :
    RunStep stop (.inside rest input stage) log (.inside rest input stage) (log.nest inner)
  /-- The stage returns a value. -/
  | returned {rest : Pipeline η} {input : StageInput} {stage : Stage η} {log : RunLog η}
    (v : Json) :
    RunStep stop (.inside rest input stage) log (.between rest (.value v))
      (log.meet (.returned log.inner (.ok v)))
  /-- The stage returns an error. -/
  | failed {rest : Pipeline η} {input : StageInput} {stage : Stage η} {log : RunLog η}
    (e : TaskError) :
    RunStep stop (.inside rest input stage) log (.ended (.error e))
      (log.meet (.returned log.inner (.error e)))
  /-- The stage breaks off, or one that it called. -/
  | broke {rest : Pipeline η} {input : StageInput} {stage : Stage η} {log : RunLog η}
    (p : Payload) :
    RunStep stop (.inside rest input stage) log
      (.ended (.error (.unexpected p.message log.path))) (log.meet (.brokeOff log.inner p))

/-! ### What is met and what is seen -/

namespace Scheduler

variable {s : Scheduler β η} {r : TaskRef} {t t' : Task η} {c : Context} {log : RunLog η}
  {m : Move η}

/-- `Scheduler.executing` of a place with a task is what this task is executing. -/
theorem executing_eq (ht : s.task? r = some t) : s.executing r = t.executing := by
  rw [executing, ht]
  rfl

/-- Before a stage, what is met is the reason to stop that `stopReason` gives, if there is one. -/
theorem meeting?_of_next {stage : Stage η} {rest : Pipeline η} {input : StageInput}
    {called : Option Outcome} (hp : t.phase = .running ⟨c, stage :: rest, input, none, called⟩ [])
    (inner : List String) :
    s.meeting? r c inner t (.event (.stepTask r)) = (s.stopReason t c).map .stopped := by
  have hbetween : t.isBetween = true := by
    rw [Task.isBetween, hp]
  have hpassed : (c.deadline.any fun d => decide (d ≤ s.contexts.now)) = true ↔
      ∃ d, c.deadline = some d ∧ d ≤ s.contexts.now := by
    simp [Option.any_eq_true]
  rw [meeting?, if_pos ⟨rfl, hbetween⟩, stopReason, ContextStore.err, if_congr hpassed rfl rfl]
  split
  · rfl
  · split
    · rfl
    · split <;> rfl

/-- A run that does not stand before a stage, and whose stage goes on, meets nothing. -/
theorem meeting?_eq_none {inner : List String}
    (hbetween : m = .event (.stepTask r) → t.isBetween = false)
    (hreturned : ∀ o, m = .event (.returnFromStage r o) → t.inStage = true →
      t.executing.length ≠ 1)
    (hbroke : ∀ p, m = .event (.breakOff r p) → t.inStage = false) :
    s.meeting? r c inner t m = none := by
  unfold meeting?
  split
  next r' =>
    refine if_neg fun ⟨heq, h⟩ => ?_
    subst heq
    exact absurd ((hbetween rfl).symm.trans h) (by simp)
  next r' o =>
    refine if_neg fun ⟨heq, h, hone⟩ => ?_
    subst heq
    exact hreturned o rfl h hone
  next r' p =>
    refine if_neg fun ⟨heq, h⟩ => ?_
    subst heq
    exact absurd ((hbroke p rfl).symm.trans h) (by simp)
  next => rfl

/-- Between two stages the phase of a task changes only with a step of its worker. -/
theorem phase_of_between (hturn : Task.Turn s m r t t') {rest : Pipeline η} {input : StageInput}
    {called : Option Outcome} (hp : t.phase = .running ⟨c, rest, input, none, called⟩ [])
    (hm : m ≠ .event (.stepTask r)) : t'.phase = t.phase ∧ t'.path = t.path := by
  have hno : ∀ {phase : Phase η} {q : Prop}, t.phase = phase →
      phase ≠ .running ⟨c, rest, input, none, called⟩ [] → q := fun hat hne =>
    absurd (hat.symm.trans hp) hne
  cases hturn with
  | same | cancel | mark | drop => exact ⟨rfl, rfl⟩
  | enter _ _ hm' => exact absurd hm' hm
  | leave _ o hl => cases hl with
    | done _ hm' | stopped _ _ hm' => exact absurd hm' hm
    | failed hat => exact hno hat (by simp)
  | enroll hat | reject hat | take hat | spawn hat | skip hat | arm _ hat | start hat | refuse hat
  | countStart hat | gaugeStart hat | lookUp hat | lack hat | returned hat | broke hat | called hat
  | stop hat | countStop hat | gaugeStop hat | record hat | report hat | release hat =>
    exact hno hat (by simp)

/-- A run that `StandsAt` some point has its task in the place, with the path. -/
theorem StandsAt.exists_task {path : List String} {st : Standing η} (h : s.StandsAt r c path st) :
    ∃ t, s.task? r = some t ∧ t.path = path := by
  cases h with
  | between ht hpath | inside ht hpath => exact ⟨_, ht, hpath⟩
  | ended h =>
    obtain ⟨t, ht, hsettled⟩ := h.task
    exact ⟨t, ht, hsettled.path⟩

/-- A run that `StandsAt` some point, and of which a report is out, has ended with the outcome of
the report. -/
theorem StandsAt.eq_ended {path : List String} {st : Standing η} (h : s.StandsAt r c path st)
    (htidy : s.core.Tidy) {report : TaskReport} (hmem : (r, report) ∈ s.reports) :
    st = .ended report.outcome := by
  cases h with
  | between ht _ hp => exact absurd hmem (not_mem_reports htidy ht (by rw [hp]; rfl) report)
  | inside ht _ h =>
    obtain ⟨top, callers, -, hp, -⟩ := h
    exact absurd hmem (not_mem_reports htidy ht (by rw [hp]; rfl) report)
  | ended h => rw [h.reports report hmem]

variable [TaskQueue β]

/-- A move in which the run meets nothing and enters no stage leaves the log as it is. -/
theorem observe_of_none (ht : s.task? r = some t) (ht' : (s.move m).task? r = some t')
    (hle : t'.executing.length ≤ t.executing.length)
    (hmet : s.meeting? r c log.inner t m = none) : s.observe r c log m = log := by
  have hnone : s.entered? r m = none := by
    rw [entered?, executing_eq ht, executing_eq ht', if_neg (by omega)]
  simp only [observe, hnone, ht, Option.bind_some, hmet]

/-- A move in which the run meets something and enters no stage adds the meeting to the log. -/
theorem observe_of_some (ht : s.task? r = some t) (ht' : (s.move m).task? r = some t')
    (hle : t'.executing.length ≤ t.executing.length) {met : Meeting}
    (hmet : s.meeting? r c log.inner t m = some met) : s.observe r c log m = log.meet met := by
  have hnone : s.entered? r m = none := by
    rw [entered?, executing_eq ht, executing_eq ht', if_neg (by omega)]
  simp only [observe, hnone, ht, Option.bind_some, hmet]

/-- A move with which a stage is entered adds this stage to the log. -/
theorem observe_of_lt (ht : s.task? r = some t) (ht' : (s.move m).task? r = some t')
    (hlt : t.executing.length < t'.executing.length)
    (hmet : s.meeting? r c log.inner t m = none) {stage : Stage η} {input : StageInput}
    (hstage : t'.stage? = some (stage, input)) :
    s.observe r c log m =
      if t.executing.isEmpty then log.call stage input else log.nest stage := by
  have hsome : s.entered? r m = some (stage, input) := by
    rw [entered?, executing_eq ht, executing_eq ht', if_pos hlt, ht']
    exact hstage
  simp only [observe, hsome, ht, Option.bind_some, hmet, executing_eq ht]

/-! ### One move -/

/-- A step of the worker between two stages is a `RunStep`. -/
theorem runStep_stepTask (htidy' : (s.move (.event (.stepTask r))).core.Tidy)
    (ht : s.task? r = some t) (hpath : t.path = log.path) {rest : Pipeline η} {input : StageInput}
    {called : Option Outcome} (hp : t.phase = .running ⟨c, rest, input, none, called⟩ []) :
    ∃ st' log', s.observe r c log (.event (.stepTask r)) = log' ∧
      RunStep (s.stopReason t c) (.between rest input) log st' log' ∧
      (s.move (.event (.stepTask r))).StandsAt r c log'.path st' := by
  have hidle : t.executing = [] := by
    rw [Task.executing_of_running hp]
    rfl
  cases rest with
  | nil =>
    have ht' : (s.move (.event (.stepTask r))).task? r =
        some { t with phase := .stopping (.ok input.result) } :=
      (congrArg (task? · r) (stepTask_of_last ht hp)).trans (task?_setPhase ht _)
    have hmet : s.meeting? r c log.inner t (.event (.stepTask r)) = none := by
      refine meeting?_eq_none (fun _ => ?_) (by simp) (by simp)
      rw [Task.isBetween, hp]
    refine ⟨_, _, observe_of_none ht ht' (Nat.zero_le _) hmet, .last, .ended ?_⟩
    rw [← hpath]
    exact Settled.of_outcome htidy' ht' rfl
  | cons stage rest =>
    have hmove : s.move (.event (.stepTask r)) = _ := stepTask_of_next ht hp
    have hmet := meeting?_of_next (s := s) (r := r) hp log.inner
    cases hstop : s.stopReason t c with
    | some e =>
      simp only [hstop] at hmove
      have ht' : (s.move (.event (.stepTask r))).task? r =
          some { t with phase := .stopping (.error e) } :=
        (congrArg (task? · r) hmove).trans (task?_setPhase ht _)
      rw [hstop] at hmet
      refine ⟨_, _, observe_of_some ht ht' (Nat.zero_le _) hmet, .stopped rfl, .ended ?_⟩
      rw [RunLog.meet, ← hpath]
      exact Settled.of_outcome htidy' ht' rfl
    | none =>
      simp only [hstop] at hmove
      have ht' : (s.move (.event (.stepTask r))).task? r = some { t with
          path := t.path ++ [stage.name]
          phase := .running ⟨c, rest, input, some stage, none⟩ [] } :=
        (congrArg (task? · r) hmove).trans (task?_modifyTask ht _)
      have hwithin : Task.Within { t with
          path := t.path ++ [stage.name]
          phase := .running ⟨c, rest, input, some stage, none⟩ [] } [] c rest input stage :=
        ⟨_, _, none, rfl, rfl⟩
      rw [hstop] at hmet
      have hseen := observe_of_lt ht ht' (by rw [hidle]; exact Nat.one_pos) hmet rfl
      rw [hidle] at hseen
      exact ⟨_, _, hseen, .call rfl, .inside ht' (congrArg (· ++ [stage.name]) hpath) hwithin⟩

/-- The return of the own stage of a run is a `RunStep`. -/
theorem runStep_returnFromStage {o : Outcome}
    (htidy' : (s.move (.event (.returnFromStage r o))).core.Tidy) (ht : s.task? r = some t)
    (hpath : t.path = log.path) {rest : Pipeline η} {input : StageInput} {stage : Stage η}
    {called : Option Outcome}
    (hp : t.phase = .running ⟨c, rest, input, some stage, called⟩ []) (stop : Option TaskError) :
    ∃ st' log', s.observe r c log (.event (.returnFromStage r o)) = log' ∧
      RunStep stop (.inside rest input stage) log st' log' ∧
      (s.move (.event (.returnFromStage r o))).StandsAt r c log'.path st' := by
  have hstage : t.inStage = true := by
    rw [Task.inStage, hp]
  have hone : t.executing.length = 1 := by
    rw [Task.executing_of_running hp]
    rfl
  have hmove : s.move (.event (.returnFromStage r o)) = _ := returnFromStage_of_stage ht hp o
  have hmet : s.meeting? r c log.inner t (.event (.returnFromStage r o)) =
      some (.returned log.inner o) := if_pos ⟨rfl, hstage, hone⟩
  cases o with
  | error e =>
    have ht' : (s.move (.event (.returnFromStage r (.error e)))).task? r =
        some { t with phase := .stopping (.error e) } :=
      (congrArg (task? · r) hmove).trans (task?_setPhase ht _)
    refine ⟨_, _, observe_of_some ht ht' (Nat.zero_le _) hmet, .failed e, .ended ?_⟩
    rw [RunLog.meet, ← hpath]
    exact Settled.of_outcome htidy' ht' rfl
  | ok v =>
    have ht' : (s.move (.event (.returnFromStage r (.ok v)))).task? r =
        some { t with phase := .running ⟨c, rest, .value v, none, none⟩ [] } :=
      (congrArg (task? · r) hmove).trans (task?_setPhase ht _)
    exact ⟨_, _, observe_of_some ht ht' (Nat.zero_le _) hmet, .returned v, .between ht' hpath rfl⟩

/-- A stage of a run that breaks off, its own or one that it called, makes a `RunStep`. -/
theorem runStep_breakOff {b : Payload} (htidy' : (s.move (.event (.breakOff r b))).core.Tidy)
    (ht : s.task? r = some t) (hpath : t.path = log.path) (hstage : t.inStage = true)
    (rest : Pipeline η) (input : StageInput) (stage : Stage η) (stop : Option TaskError) :
    ∃ st' log', s.observe r c log (.event (.breakOff r b)) = log' ∧
      RunStep stop (.inside rest input stage) log st' log' ∧
      (s.move (.event (.breakOff r b))).StandsAt r c log'.path st' := by
  obtain ⟨c', rest', input', stage', called, callers, hp⟩ := Task.exists_of_inStage hstage
  have hmet : s.meeting? r c log.inner t (.event (.breakOff r b)) =
      some (.brokeOff log.inner b) := if_pos ⟨rfl, hstage⟩
  have ht' : (s.move (.event (.breakOff r b))).task? r =
      some { t with phase := .stopping (.error (.unexpected b.message t.path)) } :=
    (congrArg (task? · r) (breakOff_of_stage ht hp b)).trans (task?_setPhase ht _)
  refine ⟨_, _, observe_of_some ht ht' (Nat.zero_le _) hmet, .broke b, .ended ?_⟩
  rw [RunLog.meet, ← hpath]
  exact Settled.of_outcome htidy' ht' rfl

/-- Whatever happens while a stage of the run is executing is a `RunStep`. -/
theorem runStep_inside (htidy : s.core.Tidy) (htidy' : (s.move m).core.Tidy)
    (ht : s.task? r = some t) (hpath : t.path = log.path) {above : List (Frame η)}
    {rest : Pipeline η} {input : StageInput} {stage : Stage η}
    (h : t.Within above c rest input stage) (stop : Option TaskError) :
    ∃ st' log', s.observe r c log m = log' ∧
      RunStep stop (.inside rest input stage) log st' log' ∧
      (s.move m).StandsAt r c log'.path st' := by
  by_cases hbroke : t.inStage = true ∧ ∃ b, m = .event (.breakOff r b)
  · obtain ⟨hstage, b, rfl⟩ := hbroke
    exact runStep_breakOff htidy' ht hpath hstage rest input stage stop
  by_cases hreturned : above = [] ∧ ∃ o, m = .event (.returnFromStage r o)
  · obtain ⟨rfl, o, rfl⟩ := hreturned
    rcases h.cases_above with ⟨-, called, hp⟩ | ⟨f, above', called, hcons, -⟩
    · exact runStep_returnFromStage htidy' ht hpath hp stop
    · exact absurd hcons (by simp)
  -- what is left neither ends the stage nor breaks it off, so it is a turn within the stage
  have hgoes : ∀ b, m = .event (.breakOff r b) → t.inStage = false := fun b hm =>
    Bool.eq_false_iff.2 fun hstage => hbroke ⟨hstage, b, hm⟩
  have hmet : s.meeting? r c log.inner t m = none :=
    meeting?_eq_none (fun _ => h.isBetween_eq_false)
      (fun o hm hstage hone => hreturned ⟨h.above_eq_nil hstage hone, o, hm⟩) hgoes
  obtain ⟨t', ht', hturn⟩ := (turns_move htidy.tracked m).old r t ht
  obtain ⟨above', h'⟩ := h.turn hturn (fun hnil o hm => hreturned ⟨hnil, o, hm⟩) hgoes
  rcases hturn.length_executing with
    ⟨hle, hpath'⟩ | ⟨c', stage', rest', input', called, callers, hp, -, rfl⟩
  · exact ⟨_, _, observe_of_none ht ht' hle hmet, .stay, .inside ht' (hpath'.trans hpath) h'⟩
  · have hbusy : t.executing.isEmpty = false := by
      rw [h.executing_eq]
      simp
    have hlt : t.executing.length < ((stage', c') :: t.executing).length := Nat.lt_succ_self _
    rw [← executing_enter hp] at hlt
    have hseen := observe_of_lt ht ht' hlt hmet rfl
    rw [hbusy] at hseen
    exact ⟨_, _, hseen, .nest stage', .inside ht' (congrArg (· ++ [stage'.name]) hpath) h'⟩

/-- Every move makes a `RunStep` of a run, wherever it stands. -/
theorem runStep_move {st : Standing η} (htidy : s.core.Tidy) (ht : s.task? r = some t)
    (h : s.StandsAt r c log.path st) (m : Move η) :
    ∃ st', RunStep (s.stopReason t c) st log st' (s.observe r c log m) ∧
      (s.move m).StandsAt r c (s.observe r c log m).path st' := by
  have htidy' := (s.core_move m).tidy htidy
  cases h with
  | between hu hpath hp =>
    obtain rfl := Option.some.inj (ht.symm.trans hu)
    by_cases hm : m = .event (.stepTask r)
    · subst hm
      obtain ⟨st', _, rfl, hstep, hstands⟩ := runStep_stepTask htidy' ht hpath hp
      exact ⟨st', hstep, hstands⟩
    · obtain ⟨t', ht', hturn⟩ := (turns_move htidy.tracked m).old r t ht
      obtain ⟨hphase, hpath'⟩ := phase_of_between hturn hp hm
      have hp' := hphase.trans hp
      have hidle' : t'.executing = [] := by
        rw [Task.executing_of_running hp']
        rfl
      have hstage : t.inStage = false := by
        rw [Task.inStage, hp]
      have hmet : s.meeting? r c log.inner t m = none :=
        meeting?_eq_none (fun h => absurd h hm)
          (fun _ _ h => absurd (hstage.symm.trans h) (by simp)) fun _ _ => hstage
      rw [observe_of_none ht ht' (by rw [hidle']; exact Nat.zero_le _) hmet]
      exact ⟨_, .stay, .between ht' (hpath'.trans hpath) hp'⟩
  | inside hu hpath h =>
    obtain rfl := Option.some.inj (ht.symm.trans hu)
    obtain ⟨st', _, rfl, hstep, hstands⟩ :=
      runStep_inside htidy htidy' ht hpath h (s.stopReason t c)
    exact ⟨st', hstep, hstands⟩
  | ended h =>
    have h' := h.move htidy m
    obtain ⟨u, hu, hsettled⟩ := h.task
    obtain rfl := Option.some.inj (ht.symm.trans hu)
    obtain ⟨t', ht', hsettled'⟩ := h'.task
    have hidle : t.isBetween = false ∧ t.inStage = false := by
      have hphase := hsettled.phase
      rw [Task.isBetween, Task.inStage]
      revert hphase
      cases t.phase <;> simp [Phase.outcome?, Phase.isReported]
    have hmet : s.meeting? r c log.inner t m = none :=
      meeting?_eq_none (fun _ => hidle.1)
        (fun _ _ hstage => absurd (hidle.2.symm.trans hstage) (by simp)) fun _ _ => hidle.2
    rw [observe_of_none ht ht' (by rw [hsettled'.executing_eq_nil]; exact Nat.zero_le _) hmet]
    exact ⟨_, .stay, .ended h'⟩

end Scheduler

end TaskScheduler
