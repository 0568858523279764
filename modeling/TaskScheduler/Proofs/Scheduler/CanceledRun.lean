import TaskScheduler.Proofs.Scheduler.HandOver
import TaskScheduler.Proofs.Scheduler.RunSteps
import TaskScheduler.Proofs.Scheduler.Settings

/-!
# What becomes of a canceled task

Cancelation is cooperative: the worker of a task asks whether it is canceled when it starts the task
and before each stage, and nowhere else.  So what is reported of a canceled task depends on where it
stood when it was canceled.  As long as a question is ahead it is reported as canceled; a stage that
is at work has the last word by an error, by breaking off, and by a value if it is the last stage;
and an outcome that was there already is reported as it is.  `Scheduler.CanceledOutcome` lists these
outcomes, and `keepsCanceled` says that no other one is ever reported.
-/

namespace TaskScheduler

variable {β η : Type}

/-- The worker has started the task and has not looked up its pipeline. -/
def Phase.isStarted : Phase η → Bool
  | .starting _ _ | .started _ => true
  | _ => false

/-! ### From where a run stands -/

/-- What a canceled run comes to from where it stands, if this is the first thing that it meets.
Within a stage it comes to nothing before the stage ends. -/
def Standing.canceledOutcome? (path : List String) (met : Option Meeting) :
    Standing η → Option Outcome
  | .between [] .first => some (.ok .null)
  | .between [] (.value v) => some (.ok v)
  | .between (_ :: _) _ => some (.error .canceled)
  | .inside rest _ _ =>
    match met with
    | some (.returned _ (.ok v)) => some (if rest.isEmpty then .ok v else .error .canceled)
    | some (.returned _ (.error e)) => some (.error e)
    | some (.brokeOff _ (.text text)) => some (.error (.unexpected text path))
    | some (.brokeOff _ .other) =>
      some (.error (.unexpected "panic with non-string payload" path))
    | _ => none
  | .ended o => some o

/-- A canceled run before which no stage is left comes to the result that the worker takes. -/
theorem Standing.canceledOutcome?_last (path : List String) (met : Option Meeting)
    (input : StageInput) :
    (between [] input : Standing η).canceledOutcome? path met = some (.ok input.result) := by
  cases input <;> rfl

/-- A canceled run that has broken off comes to the error that the worker reports. -/
theorem Standing.canceledOutcome?_brokeOff (path inner : List String) (p : Payload)
    (rest : Pipeline η) (input : StageInput) (stage : Stage η) :
    (inside rest input stage).canceledOutcome? path (some (.brokeOff inner p)) =
      some (.error (.unexpected p.message path)) := by
  cases p <;> rfl

/-- A canceled run that comes to an outcome by itself, having met nothing, comes to the same outcome
whatever it meets. -/
theorem Standing.canceledOutcome?_of_none {path : List String} {st : Standing η} {o : Outcome}
    (h : st.canceledOutcome? path none = some o) (met : Option Meeting) :
    st.canceledOutcome? path met = some o := by
  rw [← h]
  cases st with
  | between rest input =>
    cases rest with
    | nil => rw [canceledOutcome?_last, canceledOutcome?_last]
    | cons => rfl
  | inside => exact absurd h (by simp [canceledOutcome?])
  | ended => rfl

/-- What is left of the way of a canceled run from where it stood first. -/
inductive RunLog.Awaits (log : RunLog η) (path : List String) (first : Standing η) :
    Standing η → Prop
  /-- It has not moved. -/
  | first (h : log.meetings = []) : Awaits log path first first
  /-- It comes to its outcome by itself, and that is the outcome of what it met first. -/
  | bound {st : Standing η} {o : Outcome} (h : st.canceledOutcome? path none = some o)
    (hfirst : first.canceledOutcome? path log.meetings.head? = some o) : Awaits log path first st

/-- A canceled run that comes to its outcome by itself comes to the same outcome after one meeting
more. -/
theorem RunLog.Awaits.bound_meet {log : RunLog η} {path : List String} {first st : Standing η}
    {o : Outcome} (hfirst : first.canceledOutcome? path log.meetings.head? = some o)
    (h : st.canceledOutcome? path none = some o) (m : Meeting) :
    (log.meet m).Awaits path first st := by
  refine .bound h ?_
  cases hmeetings : log.meetings with
  | nil =>
    rw [hmeetings] at hfirst
    exact Standing.canceledOutcome?_of_none hfirst _
  | cons m₀ more =>
    rw [hmeetings] at hfirst
    rw [RunLog.meet, hmeetings]
    exact hfirst

/-- A step of a canceled run that enters no stage leaves the rest of the way in `RunLog.Awaits`. -/
theorem RunStep.awaits {st st' first : Standing η} {log log' : RunLog η} {path : List String}
    (h : RunStep (some .canceled) st log st' log') (hpath : log.path = path)
    (hpath' : log'.path = path) (ha : log.Awaits path first st) : log'.Awaits path first st' := by
  have hinside : ∀ {rest : Pipeline η} {input : StageInput} {stage : Stage η} {p : Prop},
      log.Awaits path first (.inside rest input stage) →
        (first = .inside rest input stage → log.meetings = [] → p) → p := by
    intro rest input stage p ha hfirst
    cases ha with
    | first hmeetings => exact hfirst rfl hmeetings
    | bound h => exact absurd h (by simp [Standing.canceledOutcome?])
  cases h with
  | stay => exact ha
  | last =>
    cases ha with
    | first => exact .bound rfl (Standing.canceledOutcome?_last _ _ _)
    | bound h hfirst =>
      rw [Standing.canceledOutcome?_last] at h
      exact .bound h hfirst
  | stopped h =>
    obtain rfl := Option.some.inj h
    cases ha with
    | first hmeetings => exact .bound_meet (by rw [hmeetings]; rfl) rfl _
    | bound h hfirst =>
      obtain rfl := Option.some.inj h
      exact .bound_meet hfirst rfl _
  | call h => exact absurd h (by simp)
  | nest inner => exact absurd (hpath'.trans hpath.symm) (by simp [RunLog.nest])
  | @returned rest input stage _ v =>
    refine hinside ha fun hfirst hmeetings => ?_
    subst hfirst
    cases rest with
    | nil => exact .bound rfl (by rw [RunLog.meet, hmeetings]; rfl)
    | cons => exact .bound rfl (by rw [RunLog.meet, hmeetings]; rfl)
  | failed e =>
    refine hinside ha fun hfirst hmeetings => ?_
    subst hfirst
    exact .bound rfl (by rw [RunLog.meet, hmeetings]; rfl)
  | broke p =>
    refine hinside ha fun hfirst hmeetings => ?_
    subst hfirst hpath
    refine .bound rfl ?_
    rw [RunLog.meet, hmeetings]
    exact Standing.canceledOutcome?_brokeOff _ _ p _ _ _

/-! ### Canceled tasks move on -/

/-- In a `Tidy` core no task is reported twice. -/
theorem Core.Tidy.nodup_reports {c : Core β η} (hc : c.Tidy) : (c.reports.map Prod.fst).Nodup := by
  refine List.nodup_iff_count_le_one.2 fun r => ?_
  rw [hc.reported.count r]
  split <;> omega

/-- A turn of a canceled task enters no stage: its path stays the same. -/
theorem Task.Turn.path_of_canceled {s : Scheduler β η} {m : Move η} {r : TaskRef} {t t' : Task η}
    (h : Task.Turn s m r t t') (hstatus : t.status = .canceled) : t'.path = t.path := by
  rcases h.length_executing with ⟨-, hpath⟩ | ⟨c, stage, rest, input, called, callers, -, hs, -⟩
  · exact hpath
  · rw [Scheduler.stopReason, if_pos hstatus] at hs
    exact absurd hs (by simp)

namespace Scheduler

variable [TaskQueue β] {s : Scheduler β η} {r : TaskRef} {t : Task η} {c : Context}

/-- A move leaves a canceled task canceled, and its path as it is. -/
theorem canceled_move (htidy : s.core.Tidy) (ht : s.task? r = some t)
    (hstatus : t.status = .canceled) (m : Move η) :
    ∃ t', (s.move m).task? r = some t' ∧ t'.status = .canceled ∧ t'.path = t.path ∧
      Task.Turn s m r t t' := by
  obtain ⟨t', ht', hturn⟩ := (turns_move htidy.tracked m).old r t ht
  obtain ⟨u, hu, hfollows⟩ := (s.core_move m).follows htidy.tracked r t ht
  obtain rfl : t' = u := Option.some.inj (ht'.symm.trans hu)
  exact ⟨t', ht', hfollows.canceled hstatus, hturn.path_of_canceled hstatus, hturn⟩

/-- A canceled task stays canceled and enters no stage, whatever happens. -/
theorem canceled_afterMoves (htidy : s.core.Tidy) (ht : s.task? r = some t)
    (hstatus : t.status = .canceled) (later : List (Move η)) :
    ∃ t', (s.afterMoves later).task? r = some t' ∧ t'.status = .canceled ∧ t'.path = t.path := by
  induction later generalizing s t with
  | nil => exact ⟨t, ht, hstatus, rfl⟩
  | cons m later ih =>
    obtain ⟨t₁, ht₁, hstatus₁, hpath₁, -⟩ := canceled_move htidy ht hstatus m
    obtain ⟨t', ht', hstatus', hpath'⟩ := ih ((s.core_move m).tidy htidy) ht₁ hstatus₁
    exact ⟨t', ht', hstatus', hpath'.trans hpath₁⟩

/-- The log of a canceled run, watched to the end of a history, shows the way that `RunLog.Awaits`
describes. -/
theorem awaits_watch {first st : Standing η} {log : RunLog η} (htidy : s.core.Tidy)
    (ht : s.task? r = some t) (hstatus : t.status = .canceled) (hpath : log.path = t.path)
    (hstands : s.StandsAt r c log.path st) (ha : log.Awaits t.path first st)
    (later : List (Move η)) :
    ∃ st', (s.afterMoves later).StandsAt r c t.path st' ∧
      (s.watch r c log later).Awaits t.path first st' := by
  induction later generalizing s st t log with
  | nil => exact ⟨st, hpath ▸ hstands, ha⟩
  | cons m later ih =>
    have hstop : s.stopReason t c = some .canceled := if_pos hstatus
    obtain ⟨t', ht', hstatus', hpath', -⟩ := canceled_move htidy ht hstatus m
    obtain ⟨st', hstep, hstands'⟩ := runStep_move htidy ht hstands m
    rw [hstop] at hstep
    obtain ⟨u, hu, hseen⟩ := hstands'.exists_task
    obtain rfl : t' = u := Option.some.inj (ht'.symm.trans hu)
    have ha' := hstep.awaits hpath (hseen.symm.trans hpath') ha
    rw [← hpath'] at ha' ⊢
    exact ih ((s.core_move m).tidy htidy) ht' hstatus' hseen.symm hstands' ha'

/-- What is reported of a canceled run is its `canceledOutcome?` from where it stands. -/
theorem outcome_of_standsAt {st : Standing η} (htidy : s.core.Tidy) (ht : s.task? r = some t)
    (hstatus : t.status = .canceled) (hstands : s.StandsAt r c t.path st) (later : List (Move η))
    {report : TaskReport} (hmem : (r, report) ∈ (s.afterMoves later).reports) :
    st.canceledOutcome? t.path (s.watch r c { path := t.path } later).meetings.head? =
      some report.outcome := by
  have hfirst : ({ path := t.path } : RunLog η).Awaits t.path st st := .first rfl
  obtain ⟨st', hstands', ha⟩ := awaits_watch htidy ht hstatus rfl hstands hfirst later
  obtain rfl := hstands'.eq_ended (afterMoves_induction Core.Step.tidy _ htidy later) hmem
  cases ha with
  | first => rfl
  | bound h hfirst =>
    obtain rfl := Option.some.inj h
    exact hfirst

/-- A canceled task that has started and whose pipeline has not been looked up is reported as
canceled, or as one without a pipeline if it has none. -/
theorem outcome_of_started (htidy : s.core.Tidy) (hstaffed : s.pipelines.Staffed)
    (ht : s.task? r = some t) (hstatus : t.status = .canceled) (hp : t.phase.isStarted = true)
    (later : List (Move η)) {report : TaskReport}
    (hmem : (r, report) ∈ (s.afterMoves later).reports) :
    report.outcome = .error .canceled ∨
      report.outcome = .error (.noPipeline t.taskType) ∧ s.pipelines.get? t.taskType = none := by
  induction later generalizing s t with
  | nil =>
    refine absurd hmem (not_mem_reports htidy ht ?_ report)
    revert hp
    cases t.phase <;> simp [Phase.isStarted, Phase.isReported]
  | cons m later ih =>
    have htidy' := (s.core_move m).tidy htidy
    obtain ⟨t', ht', hstatus', hpath', hturn⟩ := canceled_move htidy ht hstatus m
    have hstill : t'.phase.isStarted = true → t'.popped = t.popped →
        report.outcome = .error .canceled ∨
          report.outcome = .error (.noPipeline t.taskType) ∧
            s.pipelines.get? t.taskType = none := by
      intro hp' hpopped
      have htype : t'.taskType = t.taskType := congrArg PoppedTask.taskType hpopped
      rcases ih htidy' (staffed_move hstaffed m) ht' hstatus' hp' hmem with h | ⟨h, hnone⟩
      · exact .inl h
      · rw [htype] at h hnone
        exact .inr ⟨h, get?_pipelines_move m hnone⟩
    cases hturn with
    | same | cancel | mark | drop => exact hstill hp rfl
    | countStart | gaugeStart => exact hstill rfl rfl
    | @lookUp c hat p hfound =>
      obtain ⟨stage, rest, rfl⟩ := List.exists_cons_of_ne_nil (hstaffed _ p hfound)
      have hout := outcome_of_standsAt htidy' ht' hstatus' (.between ht' rfl rfl) later hmem
      exact .inl (Option.some.inj hout).symm
    | lack hat hnone =>
      have hsettled := Settled.of_outcome (o := .error (.noPipeline t.taskType)) htidy' ht' rfl
      exact .inr ⟨(hsettled.afterMoves htidy' later).reports report hmem, hnone⟩
    | enroll hat | reject hat | take hat | spawn hat | skip hat | arm _ hat | start hat | refuse hat
    | enter hat | leave hat | returned hat | broke hat | called hat | stop hat | countStop hat
    | gaugeStop hat | record hat | report hat | release hat =>
      rw [hat] at hp
      exact absurd hp (by simp [Phase.isStarted])

end Scheduler

/-! ### All that is reported of a canceled task -/

/-- A task whose pipeline has been looked up `StandsAt` some point of its run. -/
theorem Scheduler.exists_standsAt {s : Scheduler β η} {r : TaskRef} {t : Task η}
    (htidy : s.core.Tidy) (ht : s.task? r = some t) (hbusy : t.phase.callersBusy = true)
    (hp : t.phase.isEarly = false) :
    ∃ c st, s.StandsAt r c t.path st := by
  have hended : ∀ o, t.phase.outcome? = some o → ∃ c st, s.StandsAt r c t.path st := fun o ho =>
    ⟨⟨baseToken, none⟩, .ended o, .ended (.of_outcome htidy ht ho)⟩
  have hreported : t.phase.isReported = true → ∃ c st, s.StandsAt r c t.path st := by
    intro hreported
    have hcount : s.core.reportCount r = 1 := by
      rw [htidy.reportCount_eq ht, if_pos hreported]
    have hmem : r ∈ s.core.reports.map Prod.fst := List.count_pos_iff.1 (by
      rw [← Core.reportCount, hcount]
      exact Nat.one_pos)
    obtain ⟨⟨_, report⟩, hreport, rfl⟩ := List.mem_map.1 hmem
    refine ⟨⟨baseToken, none⟩, .ended report.outcome, .ended ⟨⟨t, ht, rfl, .inr hreported⟩, ?_⟩⟩
    intro report' hreport'
    have hsame := List.inj_on_of_nodup_map htidy.nodup_reports hreport' hreport rfl
    rw [(Prod.mk.inj hsame).2]
  cases hphase : t.phase with
  | running top callers =>
    rw [hphase] at hbusy
    rcases List.eq_nil_or_concat callers with rfl | ⟨inner, own, rfl⟩
    · obtain ⟨c, rest, input, _ | stage, called⟩ := top
      · exact ⟨c, .between rest input, .between ht rfl hphase⟩
      · have hwithin : t.Within [] c rest input stage := ⟨_, _, called, hphase, rfl⟩
        exact ⟨c, .inside rest input stage, .inside ht rfl hwithin⟩
    · -- the outermost pass is the one through the pipeline of the task
      rw [List.concat_eq_append] at hphase hbusy
      obtain ⟨stage, hstage⟩ := Option.isSome_iff_exists.1
        (List.all_eq_true.1 hbusy own (List.mem_append_right _ (List.mem_singleton_self _)))
      obtain ⟨c, rest, input, stage', called⟩ := own
      obtain rfl : stage' = some stage := hstage
      have hwithin : t.Within (top :: inner) c rest input stage := ⟨_, _, called, hphase, rfl⟩
      exact ⟨c, .inside rest input stage, .inside ht rfl hwithin⟩
  | stopping o | finishing o | completing o => exact hended o (by rw [hphase]; rfl)
  | reporting report => exact hended report.outcome (by rw [hphase]; rfl)
  | releasing | ended => exact hreported (by rw [hphase]; rfl)
  | popped | waiting | dispatched | spawned | armed | starting | started =>
    rw [hphase] at hp
    exact absurd hp (by simp [Phase.isEarly])

/-- What is reported of a task that is canceled, after the moves that follow. -/
inductive Scheduler.CanceledOutcome [TaskQueue β] (s : Scheduler β η) (r : TaskRef) (t : Task η)
    (later : List (Move η)) : Outcome → Prop
  /-- The pipeline had not been looked up, and the task is reported as canceled. -/
  | early (h : t.phase.isEarly = true) : CanceledOutcome s r t later (.error .canceled)
  /-- The task had started and has no pipeline, and is reported as such. -/
  | lacking (h : t.phase.isStarted = true)
    (hnone : s.pipelines.get? t.taskType = none) :
    CanceledOutcome s r t later (.error (.noPipeline t.taskType))
  /-- It is reported with what its run comes to from where it stood, by what it met first. -/
  | stands {c : Context} {st : Standing η} {o : Outcome} (h : s.StandsAt r c t.path st)
    (ho : st.canceledOutcome? t.path (s.watch r c { path := t.path } later).meetings.head? =
      some o) : CanceledOutcome s r t later o

/-- What is true of a task that is canceled, after the moves that follow. -/
structure Scheduler.StaysCanceled [TaskQueue β] (s : Scheduler β η) (r : TaskRef) (t : Task η)
    (later : List (Move η)) : Prop where
  /-- It is still canceled and has entered no stage since. -/
  task : ∃ t', (s.afterMoves later).task? r = some t' ∧ t'.status = .canceled ∧ t'.path = t.path
  /-- It is not reported twice. -/
  once : (s.afterMoves later).core.reportCount r ≤ 1
  /-- It is reported with one of these outcomes. -/
  outcome : ∀ report, (r, report) ∈ (s.afterMoves later).reports →
    s.CanceledOutcome r t later report.outcome
  /-- As long as it is under way, its worker brings it to the end of a stage or to its report. -/
  comesOn : ∀ t', (s.afterMoves later).task? r = some t' → t'.phase.isUnderWay = true →
    ∀ wall, (s.afterMoves later).ComesOn r wall 10

namespace Scheduler

variable [TaskQueue β]

/-- A canceled task that was taken in has `StaysCanceled`, whatever happens afterwards. -/
theorem staysCanceled (config : SchedulerConfig) (queue : β) (metrics : Option Metrics)
    (moves : List (Move η)) {r : TaskRef} {t : Task η}
    (ht : ((new config queue metrics).afterMoves moves).task? r = some t)
    (hstatus : t.status = .canceled) (hp : t.phase ≠ .popped) (later : List (Move η)) :
    ((new config queue metrics).afterMoves moves).StaysCanceled r t later := by
  let s : Scheduler β η := (new config queue metrics).afterMoves moves
  have htidy : s.core.Tidy := tidy_afterMoves config queue metrics moves
  have htidy' : (s.afterMoves later).core.Tidy := afterMoves_induction Core.Step.tidy _ htidy later
  have hstaffed : s.pipelines.Staffed := staffed_afterMoves (by simp [new, PipelineTable.Staffed]) _
  have happend : s.afterMoves later = (new config queue metrics).afterMoves (moves ++ later) :=
    (afterMoves_append _ moves later).symm
  obtain ⟨t', ht', hstatus', hpath'⟩ := canceled_afterMoves htidy ht hstatus later
  refine ⟨⟨t', ht', hstatus', hpath'⟩, ?_, fun report hmem => ?_, fun t'' ht'' hunder wall => ?_⟩
  · rw [htidy'.reportCount_eq ht']
    split <;> omega
  · by_cases hpending : t.phase.isPending = true
    · have hearly : t.phase.isEarly = true := by
        revert hpending
        cases t.phase <;> simp [Phase.isPending, Phase.isEarly]
      have hforsaken : t.Forsaken := ⟨hstatus,
        path_eq_nil config queue metrics moves t (List.mem_of_getElem? ht) hearly, by
          revert hpending
          cases t.phase <;> simp [Phase.isPending, Phase.forsaken]⟩
      have hnone : ∀ report, (r, report) ∉ s.reports := not_mem_reports htidy ht (by
        revert hpending
        cases t.phase <;> simp [Phase.isPending, Phase.isReported])
      obtain ⟨-, -, -, hout⟩ := forsaken_afterMoves htidy ht hforsaken
        (fun report hmem => absurd hmem (hnone report)) later
      rw [hout report hmem]
      exact .early hearly
    by_cases hstarted : t.phase.isStarted = true
    · rcases outcome_of_started htidy hstaffed ht hstatus hstarted later hmem with h | ⟨h, hnone⟩
      · rw [h]
        refine .early ?_
        revert hstarted
        cases t.phase <;> simp [Phase.isStarted, Phase.isEarly]
      · rw [h]
        exact .lacking hstarted hnone
    · have hlate : t.phase.isEarly = false := by
        revert hpending hstarted hp
        cases t.phase <;> simp [Phase.isPending, Phase.isStarted, Phase.isEarly]
      have hworks := worksUnder_afterMoves config queue metrics moves ht
      obtain ⟨c, st, hstands⟩ := exists_standsAt htidy ht hworks.busy hlate
      exact .stands hstands (outcome_of_standsAt htidy ht hstatus hstands later hmem)
  · rw [happend] at ht''
    have hworks := worksUnder_afterMoves config queue metrics (moves ++ later) ht''
    rw [← happend] at ht''
    exact comesOn_of_underWay ht'' hunder hworks.busy wall

end Scheduler

end TaskScheduler
