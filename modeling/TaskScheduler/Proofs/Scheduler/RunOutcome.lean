import TaskScheduler.Proofs.Scheduler.RunSteps

/-!
# The outcome of a run

What is seen of a run, `Scheduler.watch`, is compared with the fold of its pipeline over what it
met, `Pipeline.process`.  The invariant is `RunLog.Agrees`: between two stages the fold is as far,
and gives the next stage what the run will give it; within a stage the fold has not come to its end;
and at the end the two have one outcome.  Each step of a run keeps it.
-/

namespace TaskScheduler

variable {β η : Type}

/-! ### Runs and folds -/

/-- Where the last meeting ends the run, `process` has the error of that meeting. -/
theorem Pipeline.process_concat {p : Pipeline η} {meetings : List Meeting} {stage : Stage η}
    {rest : Pipeline η} {input : StageInput} {trail trail' : Trail η} {m : Meeting} {e : TaskError}
    (hfollow : p.follow meetings = (.ok input, trail))
    (hrest : p.drop meetings.length = stage :: rest)
    (hlast : (stage.process input m).run.run trail = (.error e, trail')) :
    p.process (meetings ++ [m]) = (.error e, trail') := by
  rw [Pipeline.process, Pipeline.follow_concat hfollow hrest, hlast]

/-- A run agrees with the fold of a pipeline over what it has met. -/
inductive RunLog.Agrees (p : Pipeline η) (log : RunLog η) : Standing η → Prop
  /-- The fold is as far and gives the next stage the same. -/
  | between {rest : Pipeline η} {input : StageInput} (hle : log.meetings.length ≤ p.length)
    (hrest : p.drop log.meetings.length = rest)
    (hfollow : p.follow log.meetings = (.ok input, log.toTrail)) :
    Agrees p log (.between rest input)
  /-- The fold has not come to the end of the stage. -/
  | inside {rest : Pipeline η} {input : StageInput} {stage : Stage η} {trail : Trail η}
    (hrest : p.drop log.meetings.length = stage :: rest)
    (hfollow : p.follow log.meetings = (.ok input, trail))
    (htrail : log.toTrail = trail.enter stage input log.inner) :
    Agrees p log (.inside rest input stage)
  /-- The fold has come to the same outcome. -/
  | ended {o : Outcome} (hprocess : p.process log.meetings = (o, log.toTrail))
    (hall : ∀ v, o = .ok v → log.meetings.length = p.length) : Agrees p log (.ended o)

/-- A `RunStep` keeps a run in agreement with the fold. -/
theorem RunStep.agrees {stop : Option TaskError} {st st' : Standing η} {log log' : RunLog η}
    {p : Pipeline η} (h : RunStep stop st log st' log') (ha : log.Agrees p st) :
    log'.Agrees p st' := by
  cases h with
  | stay => exact ha
  | last =>
    obtain ⟨hle, hrest, hfollow⟩ := ha
    refine .ended ?_ fun v _ => Nat.le_antisymm hle (List.drop_eq_nil_iff.1 hrest)
    exact Pipeline.process_of_follow hfollow
  | stopped =>
    obtain ⟨hle, hrest, hfollow⟩ := ha
    exact .ended (Pipeline.process_concat hfollow hrest (Stage.run_process ..)) (by simp)
  | call =>
    obtain ⟨hle, hrest, hfollow⟩ := ha
    exact .inside hrest hfollow rfl
  | nest inner =>
    obtain - | ⟨hrest, hfollow, htrail⟩ := ha
    obtain ⟨hcalls, hpath⟩ := Trail.mk.inj htrail
    exact .inside hrest hfollow (congrArg₂ Trail.mk hcalls (by simp [RunLog.nest, hpath]))
  | returned v =>
    obtain - | ⟨hrest, hfollow, htrail⟩ := ha
    refine .between ?_ (Pipeline.drop_concat hrest _) ?_
    · rw [RunLog.meet, List.length_append, List.length_singleton]
      exact Pipeline.length_lt hrest
    · rw [RunLog.meet, Pipeline.follow_concat hfollow hrest, Stage.run_process, htrail]
      rfl
  | failed e =>
    obtain - | ⟨hrest, hfollow, htrail⟩ := ha
    refine .ended ?_ (by simp)
    rw [RunLog.meet, htrail]
    exact Pipeline.process_concat hfollow hrest (Stage.run_process ..)
  | broke b =>
    obtain - | ⟨hrest, hfollow, htrail⟩ := ha
    refine .ended ?_ (by simp)
    rw [RunLog.meet, htrail]
    exact Pipeline.process_concat hfollow hrest (Stage.run_process ..)

/-- A run that agrees with the fold of its pipeline does so after every history, if it is
watched. -/
theorem Scheduler.agrees_watch [TaskQueue β] {s : Scheduler β η} {r : TaskRef} {c : Context}
    {log : RunLog η} {p : Pipeline η} {st : Standing η} (htidy : s.core.Tidy)
    (h : s.StandsAt r c log.path st) (ha : log.Agrees p st) (later : List (Move η)) :
    ∃ st', (s.afterMoves later).StandsAt r c (s.watch r c log later).path st' ∧
      (s.watch r c log later).Agrees p st' := by
  induction later generalizing s log st with
  | nil => exact ⟨st, h, ha⟩
  | cons m later ih =>
    obtain ⟨t, ht, -⟩ := h.exists_task
    obtain ⟨st', hstep, h'⟩ := runStep_move htidy ht h m
    exact ih ((s.core_move m).tidy htidy) h' (hstep.agrees ha)

/-! ### The outcome of a run -/

/-- What is seen of a run is the fold of a pipeline over what the run has met. -/
structure RunLog.Follows (log : RunLog η) (p : Pipeline η) (s : Scheduler β η) (r : TaskRef) :
    Prop where
  /-- The path of the task has the names of the stages entered, in their order. -/
  path : ∃ t, s.task? r = some t ∧ t.path = log.path
  /-- The stages called are those of the fold and at most the next one, which was given what the
  fold gives it. -/
  trail : log.toTrail = (p.follow log.meetings).2 ∨
    ∃ input stage, (p.follow log.meetings).1 = .ok input ∧ p[log.meetings.length]? = some stage ∧
      log.toTrail = (p.follow log.meetings).2.enter stage input log.inner
  /-- What is reported is the outcome of the fold, and it is a result only if every stage has
  returned. -/
  reports : ∀ report, (r, report) ∈ s.reports →
    p.process log.meetings = (report.outcome, log.toTrail) ∧
      (∀ v, report.outcome = .ok v → log.meetings.length = p.length)

/-- A run that agrees with the fold of a pipeline `Follows` it. -/
theorem RunLog.Agrees.follows {log : RunLog η} {p : Pipeline η} {c : Context} {s : Scheduler β η}
    {r : TaskRef} {st : Standing η} (ha : log.Agrees p st) (h : s.StandsAt r c log.path st)
    (htidy : s.core.Tidy) : log.Follows p s r where
  path := h.exists_task
  trail := by
    cases ha with
    | between _ _ hfollow => exact .inl (by rw [hfollow])
    | @inside rest input stage trail hrest hfollow htrail =>
      refine .inr ⟨input, stage, by rw [hfollow], ?_, by rw [hfollow]; exact htrail⟩
      rw [← Nat.add_zero log.meetings.length, ← List.getElem?_drop, hrest]
      rfl
    | ended hprocess => exact .inl ((congrArg Prod.snd hprocess).symm.trans (p.snd_process _))
  reports report hmem := by
    obtain rfl := h.eq_ended htidy hmem
    obtain - | - | ⟨hprocess, hall⟩ := ha
    exact ⟨hprocess, hall⟩

namespace Scheduler

variable [TaskQueue β]

/-- However the steps follow each other, a run reports the outcome of the fold of its pipeline over
what it meets.  A task that was canceled before its worker starts it is reported as canceled and
enters no stage, and a task without a pipeline is reported as such.  The pipeline is the one that
was looked up, whatever is registered later: every stage is given what the one before returned, the
run ends with the first error, reason to stop or break off, no later stage is called, and the path
of the task has the stages entered in their order.  Unless a stage is at work, the worker comes to a
stage or to the report by at most ten moves of its own. -/
theorem run_follows_pipeline (config : SchedulerConfig) (queue : β) (metrics : Option Metrics)
    (moves : List (Move η)) (r : TaskRef) (t : Task η)
    (ht : ((new config queue metrics).afterMoves moves).task? r = some t) :
    let s : Scheduler β η := (new config queue metrics).afterMoves moves
    let s' := s.move (.event (.stepTask r))
    (∀ c, t.phase = .armed c → t.status ≠ .init → ∀ later,
      (s'.afterMoves later).Settled r [] (.error .canceled)) ∧
    (∀ c, t.phase = .started c → s.pipelines.get? t.taskType = none → ∀ later,
      (s'.afterMoves later).Settled r [] (.error (.noPipeline t.taskType))) ∧
    (∀ c p, t.phase = .started c → s.pipelines.get? t.taskType = some p → ∀ later,
      (s'.watch r c {} later).Follows p (s'.afterMoves later) r) ∧
    (t.phase.isUnderWay = true → ∀ wall, s.ComesOn r wall 10) := by
  intro s s'
  have htidy : s.core.Tidy := tidy_afterMoves config queue metrics moves
  have htidy' : s'.core.Tidy := (s.core_move _).tidy htidy
  have hlater : ∀ later, (s'.afterMoves later).core.Tidy := fun later =>
    afterMoves_induction Core.Step.tidy _ htidy' later
  have hearly : t.phase.isEarly = true → t.path = [] :=
    path_eq_nil config queue metrics moves t (List.mem_of_getElem? ht)
  refine ⟨fun c hp hstatus later => ?_, fun c hp hnone later => ?_, fun c p hp hsome later => ?_,
    fun hp wall => ?_⟩
  · have ht' : s'.task? r = some _ := stepTask_of_armed ht hp
    rw [if_neg hstatus] at ht'
    have hsettled := Settled.of_outcome (o := .error .canceled) htidy' ht' rfl
    rw [← hearly (by rw [hp]; rfl)]
    exact hsettled.afterMoves htidy' later
  · have hmove : s' = _ := stepTask_of_started ht hp
    rw [hnone] at hmove
    have ht' : s'.task? r =
        some { t with phase := .stopping (.error (.noPipeline t.taskType)) } := by
      rw [hmove]
      exact task?_setPhase ht _
    have hsettled := Settled.of_outcome (o := .error (.noPipeline t.taskType)) htidy' ht' rfl
    rw [← hearly (by rw [hp]; rfl)]
    exact hsettled.afterMoves htidy' later
  · have hmove : s' = _ := stepTask_of_started ht hp
    rw [hsome] at hmove
    have ht' : s'.task? r =
        some { t with phase := .running ⟨c, p, .first, none, none⟩ [] } := by
      rw [hmove]
      exact task?_setPhase ht _
    have hstands : s'.StandsAt r c ({} : RunLog η).path (.between p .first) :=
      .between ht' (hearly (by rw [hp]; rfl)) rfl
    have hagrees : RunLog.Agrees p {} (.between p .first) :=
      .between (Nat.zero_le _) rfl (Pipeline.follow_nil p)
    obtain ⟨st, hstands', hagrees'⟩ := agrees_watch htidy' hstands hagrees later
    exact hagrees'.follows hstands' (hlater later)
  · have hbusy := (worksUnder_afterMoves config queue metrics moves ht).busy
    exact comesOn_of_underWay ht hp hbusy wall

/-- The stage of a task calls a pipeline and returns a value; another stage is registered
meanwhile. -/
def nestedHistory (wall : Timestamp) : List (Event Unit) :=
  [.stepTask 0, .callPipeline 0 ⟨1, some 10000000⟩ "other" .first, .stepTask 0,
    .register "job" ⟨"late", ()⟩, .returnFromStage 0 (.ok .null), .stepTask 0,
    .returnFromStage 0 (.ok (.bool true))] ++ ownSteps 5 ++ [.report 0 wall]

/-- A scheduler with one task, after the first moves of a history. -/
def oneTaskAfter (moves : List (Event Unit)) : Scheduler MemoryQueue Unit :=
  (new .default oneTimedTask none).afterMoves (moves.map .event)

/-- The task of `oneTaskAfter` has the phase and the status that can be computed of it. -/
theorem exists_of_oneTaskAfter (moves : List (Event Unit)) (phase : Phase Unit)
    (status : TaskStatus)
    (h : ((oneTaskAfter moves).task? 0).map (fun t => (t.phase, t.status, t.taskType)) =
      some (phase, status, "job")) :
    ∃ t, (oneTaskAfter moves).task? 0 = some t ∧ t.phase = phase ∧ t.status = status ∧
      t.taskType = "job" := by
  obtain ⟨t, ht, heq⟩ := Option.map_eq_some_iff.1 h
  obtain ⟨hp, hrest⟩ := Prod.mk.inj heq
  exact ⟨t, ht, hp, Prod.mk.inj hrest⟩

/-- In the history of one task the stage `outer` calls another pipeline and returns `true`: the fold
of the pipeline that was looked up has this result, with `outer` called once and both stages in the
path, though a stage `late` is registered meanwhile.  Canceled before its worker starts it the task
is reported as canceled, and without a pipeline as such. -/
theorem run_follows_pipeline_nested :
    let s := oneTaskAfter ((armedHistory .epoch).take 14)
    let log := (s.move (.event (.stepTask 0))).watch 0 ⟨1, some 10000000⟩ {}
      ((nestedHistory .epoch).map .event)
    let canceled := oneTaskAfter ((armedHistory .epoch).take 11 ++ [.cancel "1" .epoch])
    let lacking := oneTaskAfter (((armedHistory .epoch).take 14).drop 2)
    Pipeline.process [⟨"outer", ()⟩] log.meetings =
        (.ok (.bool true), ⟨[(⟨"outer", ()⟩, .first)], ["outer", "inner"]⟩) ∧
      s.ComesOn 0 .epoch 10 ∧
      (canceled.move (.event (.stepTask 0))).Settled 0 [] (.error .canceled) ∧
      (lacking.move (.event (.stepTask 0))).Settled 0 [] (.error (.noPipeline "job")) := by
  refine ⟨?_, ?_, ?_, ?_⟩
  · let s := oneTaskAfter ((armedHistory .epoch).take 14)
    let s' := s.move (.event (.stepTask 0))
    let log := s'.watch 0 ⟨1, some 10000000⟩ {} ((nestedHistory .epoch).map .event)
    obtain ⟨t, ht, hp, -, htype⟩ := exists_of_oneTaskAfter ((armedHistory .epoch).take 14)
      (.started ⟨1, some 10000000⟩) .running rfl
    obtain ⟨-, -, hruns, -⟩ := run_follows_pipeline .default oneTimedTask none _ 0 t ht
    have hfound : s.pipelines.get? t.taskType = some [⟨"outer", ()⟩] := by
      rw [htype]
      decide
    have hfollows : log.Follows [⟨"outer", ()⟩]
        (s'.afterMoves ((nestedHistory .epoch).map .event)) 0 := hruns _ _ hp hfound _
    have hreport : (s'.afterMoves ((nestedHistory .epoch).map .event)).reports.map
        (fun x => (x.1, x.2.outcome)) = [(0, .ok (.bool true))] := by
      decide
    have htrail : log.toTrail = ⟨[(⟨"outer", ()⟩, .first)], ["outer", "inner"]⟩ := by
      decide +kernel
    obtain ⟨⟨r, report⟩, hreports, heq⟩ := List.map_eq_singleton_iff.1 hreport
    obtain ⟨rfl, hout⟩ := Prod.mk.inj heq
    obtain ⟨hprocess, -⟩ := hfollows.reports report (hreports ▸ List.mem_singleton_self _)
    rw [htrail] at hprocess
    exact hprocess.trans (congrArg (·, _) hout)
  · obtain ⟨t, ht, hp, -⟩ := exists_of_oneTaskAfter ((armedHistory .epoch).take 14)
      (.started ⟨1, some 10000000⟩) .running rfl
    obtain ⟨-, -, -, hcomes⟩ := run_follows_pipeline .default oneTimedTask none _ 0 t ht
    exact hcomes (by rw [hp]; rfl) .epoch
  · obtain ⟨t, ht, hp, hstatus, -⟩ := exists_of_oneTaskAfter
      ((armedHistory .epoch).take 11 ++ [.cancel "1" .epoch])
      (.armed ⟨1, some 10000000⟩) .canceled rfl
    obtain ⟨hrefused, -⟩ := run_follows_pipeline .default oneTimedTask none _ 0 t ht
    exact hrefused _ hp (by rw [hstatus]; decide) []
  · obtain ⟨t, ht, hp, -, htype⟩ := exists_of_oneTaskAfter (((armedHistory .epoch).take 14).drop 2)
      (.started ⟨1, some 10000000⟩) .running rfl
    obtain ⟨-, hlacks, -⟩ := run_follows_pipeline .default oneTimedTask none _ 0 t ht
    have hnone : (oneTaskAfter (((armedHistory .epoch).take 14).drop 2)).pipelines.get? t.taskType =
        none := by
      rw [htype]
      decide
    have hsettled := hlacks _ hp hnone []
    rw [htype] at hsettled
    exact hsettled

end Scheduler

end TaskScheduler
