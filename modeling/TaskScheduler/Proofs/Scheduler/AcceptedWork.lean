import TaskScheduler.Proofs.Scheduler.Feeding
import TaskScheduler.Proofs.Scheduler.OwnMoves

/-!
# Accepted tasks have pipelines

The pipeline of a task is looked up when a worker has started the task, after any number of
registrations, pops and cancelations since the push.  As long as the scheduler alone feeds its
queue, the lookup finds a pipeline with a stage.

A pass with a stage ahead of it cannot end with nothing.  So whatever value a task ends with was
returned by a stage of this task, and so was the error that there is no pipeline, if a task ends
with it: neither comes from the scheduler.
-/

namespace TaskScheduler

variable {β η : Type}

/-! ### Outcomes that only stages bring about -/

/-- Whether an outcome has to come from a stage: a value, or the error that there is no
pipeline. -/
def Outcome.needsStage : Outcome → Bool
  | .ok _ => true
  | .error (.noPipeline _) => true
  | .error _ => false

/-- A pass that stands between two stages has one ahead of it, or the value of the one behind it. -/
def Frame.Grounded (made : Outcome → Prop) (f : Frame η) : Prop :=
  f.stage = none → f.rest ≠ [] ∨ ∃ v, f.input = .value v ∧ made (.ok v)

/-- The passes of a task are grounded, and its outcome was made by a stage if it needs one. -/
def Phase.Grounded (made : Outcome → Prop) : Phase η → Prop
  | .running top callers => ∀ f ∈ top :: callers, f.Grounded made
  | p => ∀ o, p.outcome? = some o → o.needsStage = true → made o

variable {made made' : Outcome → Prop}

/-- A pass whose stage is at work is `Grounded`. -/
theorem Frame.Grounded.of_stage {f : Frame η} {stage : Stage η} (h : f.stage = some stage) :
    f.Grounded made :=
  fun hnone => absurd (h.symm.trans hnone) (by simp)

/-- A pass that has just been called is `Grounded` if its pipeline has a stage. -/
theorem Frame.Grounded.of_rest {f : Frame η} (h : f.rest ≠ []) : f.Grounded made := fun _ => .inl h

/-- A phase stays `Grounded` when stages have made more outcomes. -/
theorem Phase.Grounded.mono {p : Phase η} (h : p.Grounded made) (hmade : ∀ o, made o → made' o) :
    p.Grounded made' := by
  cases p with
  | running top callers =>
    intro f hf hstage
    exact (h f hf hstage).imp_right fun ⟨v, hv, hmade'⟩ => ⟨v, hv, hmade _ hmade'⟩
  | _ => exact fun o ho hneeds => hmade o (h o ho hneeds)

/-- Leaving a pipeline with an outcome keeps a phase `Grounded`, if a stage made the outcome
wherever it needs one. -/
theorem Phase.Grounded.leave {o : Outcome} {callers : List (Frame η)}
    (h : ∀ f ∈ callers, f.Grounded made) (ho : o.needsStage = true → made o) :
    (Scheduler.leavePipeline o callers).Grounded made := by
  cases callers with
  | nil =>
    rintro o' ⟨⟩ hneeds
    exact ho hneeds
  | cons f callers =>
    obtain ⟨hf, hcallers⟩ := List.forall_mem_cons.1 h
    exact List.forall_mem_cons.2 ⟨hf, hcallers⟩

/-- The `stopReason` of a task, for which it has to stop, needs no stage. -/
theorem Scheduler.needsStage_stopReason {s : Scheduler β η} {t : Task η} {c : Context}
    {e : TaskError} (h : s.stopReason t c = some e) :
    Outcome.needsStage (.error e) = false := by
  unfold stopReason ContextStore.err at h
  split at h
  next =>
    obtain rfl := Option.some.inj h
    rfl
  next =>
    split at h
    next =>
      obtain rfl := Option.some.inj h
      rfl
    next =>
      split at h
      next =>
        obtain rfl := Option.some.inj h
        rfl
      next => exact absurd h (by simp)

/-- A turn keeps the phase of a task with a pipeline `Grounded`, if what its stage returns counts as
made. -/
theorem Task.Turn.grounded {s : Scheduler β η} {m : Move η} {r : TaskRef} {t t' : Task η}
    (hturn : Task.Turn s m r t t') (h : t.phase.Grounded made) (hstaffed : s.pipelines.Staffed)
    (hfound : s.pipelines.contains t.taskType = true)
    (hreturn : ∀ o, m = .event (.returnFromStage r o) → t.inStage = true → made o) :
    t'.phase.Grounded made := by
  have hquiet : ∀ {p : Phase η}, p.outcome? = none → ∀ o, p.outcome? = some o →
      o.needsStage = true → made o := fun hp o ho => absurd (hp.symm.trans ho) (by simp)
  have hfree : ∀ {p : Phase η} {o : Outcome}, p.outcome? = some o → o.needsStage = false →
      ∀ o', p.outcome? = some o' → o'.needsStage = true → made o' := by
    intro p o hp hfree o' ho' hneeds
    obtain rfl : o = o' := Option.some.inj (hp.symm.trans ho')
    exact absurd (hfree.symm.trans hneeds) (by simp)
  have hreturned : ∀ {c rest input stage called callers} {o : Outcome},
      t.phase = .running ⟨c, rest, input, some stage, called⟩ callers →
      m = .event (.returnFromStage r o) → made o := by
    intro c rest input stage called callers o hat hm
    refine hreturn o hm ?_
    rw [Task.inStage, hat]
  cases hturn with
  | same | cancel | mark | drop => exact h
  | enroll | take | spawn | arm | start | countStart | gaugeStart | report | release =>
    exact hquiet rfl
  | reject | skip | refuse => exact hfree rfl rfl
  | broke _ e he => exact hfree rfl (by rw [he]; rfl)
  | lookUp _ hget => exact List.forall_mem_singleton.2 (.of_rest (hstaffed _ _ hget))
  | lack _ hget =>
    rw [FiniteMap.contains, hget] at hfound
    exact absurd hfound (by simp)
  | enter hat =>
    rw [hat] at h
    exact List.forall_mem_cons.2 ⟨.of_stage rfl, (List.forall_mem_cons.1 h).2⟩
  | leave hat o hl =>
    rw [hat] at h
    obtain ⟨htop, hcallers⟩ := List.forall_mem_cons.1 h
    refine .leave hcallers fun hneeds => ?_
    cases hl with
    | done hat' =>
      -- no stage is ahead, so the value is that of the stage behind
      obtain ⟨rfl, -⟩ := Phase.running.inj (hat.symm.trans hat')
      rcases htop rfl with hrest | ⟨v, rfl, hmade⟩
      · exact absurd rfl hrest
      · exact hmade
    | stopped _ hs =>
      have hfree := Scheduler.needsStage_stopReason hs
      exact absurd (hfree.symm.trans hneeds) (by simp)
    | failed hat' hm => exact hreturned hat' hm
  | returned hat v hm =>
    rw [hat] at h
    refine List.forall_mem_cons.2 ⟨fun _ => .inr ⟨v, rfl, ?_⟩, (List.forall_mem_cons.1 h).2⟩
    exact hreturned hat hm
  | called hat _ hget =>
    rw [hat] at h
    refine List.forall_mem_cons.2 ⟨.of_rest (hstaffed _ _ hget), ?_⟩
    exact List.forall_mem_cons.2 ⟨.of_stage rfl, (List.forall_mem_cons.1 h).2⟩
  | stop hat | countStop hat | gaugeStop hat | record hat =>
    rw [hat] at h
    exact h

/-! ### Outcomes along a history -/

namespace Scheduler

variable [TaskQueue β] {s₀ : Scheduler β η} {C : TypeContract β} {moves : List (FedMove β η)}
  {r : TaskRef} {o : Outcome}

/-- In the course of a history an executing stage of a task has returned an outcome. -/
def StageReturned (s₀ : Scheduler β η) (moves : List (FedMove β η)) (r : TaskRef) (o : Outcome) :
    Prop :=
  ∃ before after t, moves = before ++ .own (.event (.returnFromStage r o)) :: after ∧
    (s₀.afterFed before).task? r = some t ∧ t.inStage = true

/-- What a stage has returned in a history it has returned in every longer one. -/
theorem StageReturned.concat (h : s₀.StageReturned moves r o) (m : FedMove β η) :
    s₀.StageReturned (moves ++ [m]) r o := by
  obtain ⟨before, after, t, rfl, ht⟩ := h
  exact ⟨before, after ++ [m], t, by simp, ht⟩

/-- At the end of a history every outcome that needs a stage was made by one, in the tasks and in
the reports. -/
structure Grounded (s₀ : Scheduler β η) (moves : List (FedMove β η)) : Prop where
  /-- The tasks. -/
  tasks : ∀ r t, (s₀.afterFed moves).task? r = some t →
    t.phase.Grounded (s₀.StageReturned moves r)
  /-- The reports. -/
  reports : ∀ r report, (r, report) ∈ (s₀.afterFed moves).reports →
    report.outcome.needsStage = true → s₀.StageReturned moves r report.outcome

/-- A move of a `Furnished` scheduler keeps its outcomes grounded. -/
theorem Grounded.own (h : s₀.Grounded moves) (hs : (s₀.afterFed moves).Furnished C) (m : Move η) :
    s₀.Grounded (moves ++ [.own m]) := by
  have hkeep : ∀ {r : TaskRef} {o : Outcome}, s₀.StageReturned moves r o →
      s₀.StageReturned (moves ++ [.own m]) r o := fun hreturned => hreturned.concat _
  have hnext : s₀.afterFed (moves ++ [.own m]) = (s₀.afterFed moves).move m := afterFed_concat ..
  constructor
  · intro r t' ht'
    rw [hnext] at ht'
    have hturns := turns_move hs.tidy.tracked m
    cases ht : (s₀.afterFed moves).task? r with
    | none =>
      obtain ⟨p, rfl⟩ := hturns.new r t' ht ht'
      exact fun o ho => absurd ho (by simp [Phase.outcome?])
    | some t =>
      obtain ⟨u, hu, hturn⟩ := hturns.old r t ht
      obtain rfl : t' = u := Option.some.inj (ht'.symm.trans hu)
      have hmem : t.popped ∈ (s₀.afterFed moves).tasks.map Task.popped :=
        List.mem_map_of_mem (List.mem_of_getElem? ht)
      refine hturn.grounded ((h.tasks r t ht).mono fun o => hkeep) hs.staffed
        (hs.types.popped _ hmem) fun o hm hstage => ?_
      exact ⟨moves, [], t, by rw [hm], ht, hstage⟩
  · intro r report hmem hneeds
    rw [hnext] at hmem
    rcases mem_reports_move hs.tidy hmem with hold | ⟨t, ht, hp⟩
    · exact hkeep (h.reports r report hold hneeds)
    · have hphase := h.tasks r t ht
      rw [hp] at hphase
      exact hkeep (hphase _ rfl hneeds)

/-- A move that changes nothing but the queue keeps the outcomes grounded. -/
theorem Grounded.queue (h : s₀.Grounded moves) {m : FedMove β η} {queue : β}
    (hm : (s₀.afterFed moves).moveFed m = { s₀.afterFed moves with queue := queue }) :
    s₀.Grounded (moves ++ [m]) := by
  have hnext : s₀.afterFed (moves ++ [m]) = { s₀.afterFed moves with queue := queue } :=
    (afterFed_concat ..).trans hm
  constructor
  · intro r t ht
    rw [hnext] at ht
    exact (h.tasks r t ht).mono fun o hreturned => hreturned.concat m
  · intro r report hmem hneeds
    rw [hnext] at hmem
    exact (h.reports r report hmem hneeds).concat m

/-- A new scheduler that alone feeds its queue has `Grounded` outcomes whatever happens. -/
theorem FedOnly.grounded {config : SchedulerConfig} {queue : β} {metrics : Option Metrics}
    (h : FedOnly C (new config queue metrics) moves) (hqueue : C.Holds (fun _ => False) queue) :
    (new config queue metrics).Grounded moves := by
  have hnew : (new config queue metrics : Scheduler β η).Furnished C :=
    furnished_new config hqueue metrics
  induction h with
  | nil =>
    constructor
    · intro r t ht
      exact absurd ht (by simp [afterFed, new, task?])
    · intro r report hmem
      exact absurd hmem (by simp [afterFed, new])
  | own hfed m ih => exact ih.own (hfed.furnished hnew) m
  | pushChecked _ _ _ ih => exact ih.queue rfl
  | others _ _ ih => exact ih.queue rfl

/-! ### From the push to the outcome -/

/-- At the end of a history a scheduler refuses tasks of types without a pipeline, has a pipeline
for every task that it accepted, and makes up no outcome for want of one. -/
structure Provides (s₀ : Scheduler β η) (moves : List (FedMove β η)) : Prop where
  /-- A push of a type of which no stage was registered is refused and changes nothing. -/
  refused : ∀ taskType, (∀ stage, .own (.event (.register taskType stage)) ∉ moves) →
    ∀ data timeout priority, (s₀.afterFed moves).push taskType data timeout priority =
      (.error (.unknownTaskType taskType), s₀.afterFed moves)
  /-- A push of any other type is answered by the queue. -/
  accepted : ∀ taskType stage, .own (.event (.register taskType stage)) ∈ moves →
    ∀ data timeout priority, ((s₀.afterFed moves).push taskType data timeout priority).1 =
      (TaskQueue.push (s₀.afterFed moves).queue (.new taskType data timeout)
        (priority.getD (s₀.afterFed moves).config.defaultPriority)).1.mapError .backend
  /-- A task that the queue hands out has a pipeline with a stage. -/
  queued : ∀ now p, (TaskQueue.pop (s₀.afterFed moves).queue now).1 = .ok p →
    ∃ first rest, (s₀.afterFed moves).pipelines.get? p.taskType = some (first :: rest)
  /-- Every task that was popped has a pipeline with a stage. -/
  popped : ∀ r t, (s₀.afterFed moves).task? r = some t →
    ∃ first rest, (s₀.afterFed moves).pipelines.get? t.taskType = some (first :: rest)
  /-- The worker of a task that has started looks it up and comes to the first stage. -/
  lookedUp : ∀ r t c, (s₀.afterFed moves).task? r = some t → t.phase = .started c →
    ∃ first rest, (s₀.afterFed moves).pipelines.get? t.taskType = some (first :: rest) ∧
      ((s₀.afterFed moves).move (.event (.stepTask r))).task? r =
        some { t with phase := .running ⟨c, first :: rest, .first, none, none⟩ [] }
  /-- A value or the error that there is no pipeline was returned by a stage of the task. -/
  outcome : ∀ r t o, (s₀.afterFed moves).task? r = some t → t.phase.outcome? = some o →
    o.needsStage = true → s₀.StageReturned moves r o
  /-- Such an outcome in a report was returned by a stage of the task. -/
  reported : ∀ r report, (r, report) ∈ (s₀.afterFed moves).reports →
    report.outcome.needsStage = true → s₀.StageReturned moves r report.outcome

/-- Whatever happens to a new scheduler that alone feeds its queue, accepted tasks have pipelines,
as `Provides` says: a type without a pipeline is refused, the worker of an accepted task finds a
pipeline with a stage, and neither the error that there is no pipeline nor the value of an empty
pipeline comes from the scheduler. -/
theorem accepted_tasks_have_pipelines (C : TypeContract β) (config : SchedulerConfig) {queue : β}
    (hqueue : C.Holds (fun _ => False) queue) (metrics : Option Metrics)
    {moves : List (FedMove β η)} (hfed : FedOnly C (new config queue metrics) moves) :
    (new config queue metrics).Provides moves := by
  have hfurnished := hfed.furnished (furnished_new config hqueue metrics)
  have hgrounded := hfed.grounded hqueue
  have hknown := contains_pipelines_afterFed_iff (new config queue metrics) moves
  have hpopped : ∀ r t, ((new config queue metrics).afterFed moves).task? r = some t →
      ∃ first rest, ((new config queue metrics).afterFed moves).pipelines.get? t.taskType =
        some (first :: rest) := by
    intro r t ht
    exact hfurnished.exists_pipeline
      (hfurnished.types.popped t.popped (List.mem_map_of_mem (List.mem_of_getElem? ht)))
  constructor
  · intro taskType hnone data timeout priority
    unfold push
    rw [if_neg]
    rw [hknown]
    rintro (hfound | ⟨stage, hstage⟩)
    · exact absurd hfound (by simp [new, FiniteMap.contains])
    · exact hnone stage hstage
  · intro taskType stage hstage data timeout priority
    unfold push
    rw [if_pos ((hknown taskType).2 (.inr ⟨stage, hstage⟩))]
  · intro now p hp
    exact hfurnished.exists_pipeline (C.popped hfurnished.types.queued hp)
  · exact hpopped
  · intro r t c ht hp
    obtain ⟨first, rest, hget⟩ := hpopped r t ht
    have hstep : ((new config queue metrics).afterFed moves).move (.event (.stepTask r)) = _ :=
      stepTask_of_started ht hp
    rw [hget] at hstep
    rw [hstep]
    exact ⟨first, rest, hget, task?_setPhase ht _⟩
  · intro r t o ht ho hneeds
    have hphase := hgrounded.tasks r t ht
    revert ho hphase
    cases t.phase with
    | running => exact fun ho => absurd ho (by simp [Phase.outcome?])
    | _ => exact fun ho hphase => hphase o ho hneeds
  · exact hgrounded.reports

/-- A scheduler with a new queue in memory. -/
def inMemory : Scheduler MemoryQueue Unit := new .default {} none

/-- A scheduler with a queue in an empty store. -/
def inRedis : Scheduler RedisConnection Unit :=
  new .default { queue := RedisQueue.defaultClient, store := .empty } none

/-- A stage of a type is registered. -/
def oneStage : List (FedMove MemoryQueue Unit) := [.own (.event (.register "job" ⟨"outer", ()⟩))]

/-- Between the two halves of a push there is another push. -/
def twoPushes : List (FedMove MemoryQueue Unit) :=
  oneStage ++ [.own (.event (.push "job" .null none none))] ++
    [.pushChecked (.new "job" .null none) 0]

/-- Others take the first task, and a run takes the second one to its report. -/
def sharedQueueHistory (wall : Timestamp) : List (FedMove MemoryQueue Unit) :=
  let run : List (Event Unit) := armedHistory wall ++ .stepTask 0 ::
    .returnFromStage 0 (.ok (.bool true)) :: ownSteps 5 ++ [.report 0 wall]
  twoPushes ++ [.others (inMemory.afterFed twoPushes).queue.pop.2] ++ (run.map .event).map .own

/-- Another client of the prefix asks for a task, and there is a push and a run after that. -/
def sharedStoreHistory (wall : Timestamp) : List (FedMove RedisConnection Unit) :=
  let asked := RedisQueue.Event.step inRedis.queue.store
    (.call RedisQueue.defaultClient (.pop wall))
  let run : List (Event Unit) := .register "job" ⟨"outer", ()⟩ :: .push "job" .null none none ::
    armedHistory wall
  [.others { inRedis.queue with store := asked.2 }] ++ (run.map .event).map .own

/-- In `sharedQueueHistory` only the scheduler feeds the queue in memory: the other user takes a
task. -/
theorem fedOnly_sharedQueueHistory :
    FedOnly MemoryQueue.typeContract inMemory (sharedQueueHistory .epoch) := by
  have hregistered : FedOnly MemoryQueue.typeContract inMemory oneStage := .own .nil _
  have hpushed : FedOnly MemoryQueue.typeContract inMemory twoPushes :=
    (hregistered.own _).pushChecked (by decide) 0
  exact (hpushed.others fun P h => MemoryQueue.typeContract.pop h .epoch).owns _

/-- In `sharedStoreHistory` only the scheduler feeds the queue in Redis: the other client asks for a
task. -/
theorem fedOnly_sharedStoreHistory :
    FedOnly RedisConnection.typeContract inRedis (sharedStoreHistory .epoch) := by
  let asks : RedisQueue.Event := .call RedisQueue.defaultClient (.pop .epoch)
  have hasked : RedisConnection.typeContract.AddsNone inRedis.queue
      { inRedis.queue with store := (asks.step inRedis.queue.store).2 } :=
    RedisConnection.addsNone_event inRedis.queue (by simp [asks])
  exact (FedOnly.nil.others hasked).owns _

/-- In `sharedQueueHistory` the task that the run takes is reported with the value that its stage
returned, and a task of another type is refused.  In `sharedStoreHistory`, with a queue in Redis,
accepted tasks have pipelines as well. -/
theorem accepted_tasks_have_pipelines_sharedQueueHistory :
    FedOnly MemoryQueue.typeContract inMemory (sharedQueueHistory .epoch) ∧
    ((inMemory.afterFed (sharedQueueHistory .epoch)).reports.map fun x =>
      (x.1, x.2.id, x.2.outcome)) = [(0, "2", .ok (.bool true))] ∧
    inMemory.StageReturned (sharedQueueHistory .epoch) 0 (.ok (.bool true)) ∧
    ((inMemory.afterFed (sharedQueueHistory .epoch)).push "other job" .null none none).1 =
      .error (.unknownTaskType "other job") ∧
    inRedis.Provides (sharedStoreHistory .epoch) := by
  have hprovides := accepted_tasks_have_pipelines MemoryQueue.typeContract .default
    MemoryQueue.typeContract_holds_new none fedOnly_sharedQueueHistory
  have hstore := accepted_tasks_have_pipelines RedisConnection.typeContract .default
    (RedisConnection.typeContract_holds_new _) none fedOnly_sharedStoreHistory
  have hreports : ((inMemory.afterFed (sharedQueueHistory .epoch)).reports.map fun x =>
      (x.1, x.2.id, x.2.outcome)) = [(0, "2", .ok (.bool true))] := by decide
  have hunknown : ∀ stage,
      .own (.event (.register "other job" stage)) ∉ sharedQueueHistory .epoch := by
    intro stage hmem
    simp [sharedQueueHistory, twoPushes, oneStage, armedHistory, ownSteps] at hmem
  refine ⟨fedOnly_sharedQueueHistory, hreports, ?_, ?_, hstore⟩
  · obtain ⟨⟨r, report⟩, hmem, hparts⟩ := List.mem_map.1 (hreports ▸ List.mem_singleton_self _)
    obtain ⟨rfl, -, houtcome⟩ := by simpa only [Prod.mk.injEq] using hparts
    have hreturned := hprovides.reported 0 report hmem (by rw [houtcome]; rfl)
    rwa [houtcome] at hreturned
  · exact congrArg Prod.fst (hprovides.refused "other job" hunknown .null none none)

end Scheduler

end TaskScheduler
