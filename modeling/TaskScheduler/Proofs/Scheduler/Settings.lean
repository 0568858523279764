import TaskScheduler.Proofs.Scheduler.Core

/-!
# What a scheduler is given

A scheduler is given its settings when it is made, and its pipelines by those who register stages.
No other step changes either of the two.  There is one lemma for each step function; the functions
that two step functions share come first.
-/

namespace TaskScheduler

/-- The pipelines after a move: a stage that is registered is added to them. -/
def Move.registers {η : Type} : Move η → PipelineTable η → PipelineTable η
  | .event (.register taskType stage), t => t.register taskType stage
  | _, t => t

namespace Scheduler

variable {β η : Type} (s : Scheduler β η) (r : TaskRef) (i : Nat)

/-! ### Parts of steps -/

@[grind .] theorem given_modifyTask (f : Task η → Task η) :
    (s.modifyTask r f).config = s.config ∧ (s.modifyTask r f).pipelines = s.pipelines := ⟨rfl, rfl⟩

@[grind .] theorem given_setPhase (p : Phase η) :
    (s.setPhase r p).config = s.config ∧ (s.setPhase r p).pipelines = s.pipelines := ⟨rfl, rfl⟩

@[grind .] theorem given_setRunPhase (p : RunPhase) :
    (s.setRunPhase i p).config = s.config ∧ (s.setRunPhase i p).pipelines = s.pipelines :=
  ⟨rfl, rfl⟩

@[grind .] theorem given_setLoops (l : Loops) :
    (s.setLoops i l).config = s.config ∧ (s.setLoops i l).pipelines = s.pipelines := ⟨rfl, rfl⟩

@[grind .] theorem given_measure (f : Metrics → Metrics) :
    (s.measure f).config = s.config ∧ (s.measure f).pipelines = s.pipelines := ⟨rfl, rfl⟩

@[grind .] theorem given_cancelToken (k : TokenId) :
    (s.cancelToken k).config = s.config ∧ (s.cancelToken k).pipelines = s.pipelines := ⟨rfl, rfl⟩

@[grind .] theorem given_dispatchTask :
    (s.dispatchTask r).2.config = s.config ∧ (s.dispatchTask r).2.pipelines = s.pipelines := by
  unfold dispatchTask
  grind

@[grind .] theorem given_releaseTask :
    (s.releaseTask r).2.config = s.config ∧ (s.releaseTask r).2.pipelines = s.pipelines := by
  unfold releaseTask
  grind

@[grind .] theorem given_armTask (k : TokenId) :
    (s.armTask r k).config = s.config ∧ (s.armTask r k).pipelines = s.pipelines := by
  unfold armTask
  grind

@[grind .] theorem given_startTask :
    (s.startTask r).2.config = s.config ∧ (s.startTask r).2.pipelines = s.pipelines := by
  unfold startTask
  grind

/-! ### The loops of a run -/

@[grind .] theorem given_callRun :
    s.callRun.config = s.config ∧ s.callRun.pipelines = s.pipelines := by
  unfold callRun
  grind

@[grind .] theorem given_answerPing (answer : Except QueueError Unit) :
    (s.answerPing i answer).config = s.config ∧
      (s.answerPing i answer).pipelines = s.pipelines := by
  unfold answerPing
  grind

@[grind .] theorem given_answerPop (answer : Except QueueError PoppedTask) :
    (s.answerPop i answer).config = s.config ∧
      (s.answerPop i answer).pipelines = s.pipelines := by
  unfold answerPop
  grind

@[grind .] theorem given_takeIn (l : Loops) :
    (s.takeIn i l r).config = s.config ∧ (s.takeIn i l r).pipelines = s.pipelines := by
  unfold takeIn
  grind

@[grind .] theorem given_stepPop :
    (s.stepPop i).config = s.config ∧ (s.stepPop i).pipelines = s.pipelines := by
  unfold stepPop putBuffer
  grind

@[grind .] theorem given_stepDispatch :
    (s.stepDispatch i).config = s.config ∧ (s.stepDispatch i).pipelines = s.pipelines := by
  unfold stepDispatch takeBuffer
  grind

/-! ### Workers and completions -/

@[grind .] theorem given_armWorker :
    (s.armWorker r).config = s.config ∧ (s.armWorker r).pipelines = s.pipelines := by
  unfold armWorker
  grind

@[grind .] theorem given_startWorker :
    (s.startWorker r).config = s.config ∧ (s.startWorker r).pipelines = s.pipelines := by
  unfold startWorker
  grind

@[grind .] theorem given_countStart :
    (s.countStart r).config = s.config ∧ (s.countStart r).pipelines = s.pipelines := by
  unfold countStart
  grind

@[grind .] theorem given_lookUpPipeline :
    (s.lookUpPipeline r).config = s.config ∧ (s.lookUpPipeline r).pipelines = s.pipelines := by
  unfold lookUpPipeline
  grind

@[grind .] theorem given_enterStage :
    (s.enterStage r).config = s.config ∧ (s.enterStage r).pipelines = s.pipelines := by
  unfold enterStage
  split
  next =>
    split
    next =>
      split
      next => exact ⟨rfl, rfl⟩
      next => split <;> exact ⟨rfl, rfl⟩
    next => exact ⟨rfl, rfl⟩
  next => exact ⟨rfl, rfl⟩

@[grind .] theorem given_returnFromStage (o : Outcome) :
    (s.returnFromStage r o).config = s.config ∧
      (s.returnFromStage r o).pipelines = s.pipelines := by
  unfold returnFromStage
  grind

@[grind .] theorem given_breakOff (p : Payload) :
    (s.breakOff r p).config = s.config ∧ (s.breakOff r p).pipelines = s.pipelines := by
  unfold breakOff
  grind

@[grind .] theorem given_callPipeline (c : Context) (taskType : String) (input : StageInput) :
    (s.callPipeline r c taskType input).config = s.config ∧
      (s.callPipeline r c taskType input).pipelines = s.pipelines := by
  unfold callPipeline
  grind

@[grind .] theorem given_stopWorker :
    (s.stopWorker r).config = s.config ∧ (s.stopWorker r).pipelines = s.pipelines := by
  unfold stopWorker finishTask
  grind

@[grind .] theorem given_countStop :
    (s.countStop r).config = s.config ∧ (s.countStop r).pipelines = s.pipelines := by
  unfold countStop
  grind

@[grind .] theorem given_recordOutcome :
    (s.recordOutcome r).config = s.config ∧ (s.recordOutcome r).pipelines = s.pipelines := by
  unfold recordOutcome
  grind

@[grind .] theorem given_endTask :
    (s.endTask r).config = s.config ∧ (s.endTask r).pipelines = s.pipelines := by
  unfold endTask
  grind

@[grind .] theorem given_stepTask :
    (s.stepTask r).config = s.config ∧ (s.stepTask r).pipelines = s.pipelines := by
  unfold stepTask
  grind

/-! ### Cancelations, and all steps -/

@[grind .] theorem given_cancelTask :
    (s.cancelTask r).config = s.config ∧ (s.cancelTask r).pipelines = s.pipelines := by
  unfold cancelTask
  grind

@[grind .] theorem given_dropCanceled :
    (s.dropCanceled r).config = s.config ∧ (s.dropCanceled r).pipelines = s.pipelines := by
  unfold dropCanceled
  grind

variable [TaskQueue β]

@[grind .] theorem given_popQueue (wall : Timestamp) :
    (s.popQueue i wall).config = s.config ∧ (s.popQueue i wall).pipelines = s.pipelines := by
  unfold popQueue
  grind

@[grind .] theorem given_sendReport (wall : Timestamp) :
    (s.sendReport r wall).config = s.config ∧ (s.sendReport r wall).pipelines = s.pipelines := by
  unfold sendReport
  grind

@[grind .] theorem given_cancel (id : String) (wall : Timestamp) :
    (s.cancel id wall).2.config = s.config ∧ (s.cancel id wall).2.pipelines = s.pipelines := by
  unfold cancel
  grind

@[grind .] theorem given_push (taskType : String) (data : Json) (timeout : Option Duration)
    (priority : Option Int64) :
    (s.push taskType data timeout priority).2.config = s.config ∧
      (s.push taskType data timeout priority).2.pipelines = s.pipelines := by
  unfold push
  grind

/-- An event registers a stage at most, and leaves everything else that the scheduler is given. -/
theorem given_step (e : Event η) : (s.step e).config = s.config ∧
    (s.step e).pipelines = (Move.event e).registers s.pipelines := by
  cases e with
  | pass | fireTimer | background | derive | cancelToken | shutDown | register => exact ⟨rfl, rfl⟩
  | callRun => exact s.given_callRun
  | ping i => exact s.given_answerPing i _
  | stepPop i => exact s.given_stepPop i
  | pop i wall => exact s.given_popQueue i wall
  | stepDispatch i => exact s.given_stepDispatch i
  | stepTask r => exact s.given_stepTask r
  | report r wall => exact s.given_sendReport r wall
  | returnFromStage r o => exact s.given_returnFromStage r o
  | breakOff r p => exact s.given_breakOff r p
  | callPipeline r c taskType input => exact s.given_callPipeline r c taskType input
  | cancelTask r => exact s.given_cancelTask r
  | cancel id wall => exact s.given_cancel id wall
  | push taskType data timeout priority => exact s.given_push taskType data timeout priority

/-- A move registers a stage at most, and leaves everything else that the scheduler is given. -/
theorem given_move (m : Move η) : (s.move m).config = s.config ∧
    (s.move m).pipelines = m.registers s.pipelines := by
  cases m with
  | event e => exact s.given_step e
  | markCanceled | cancelQueued => exact ⟨rfl, rfl⟩
  | dropCanceled r => exact s.given_dropCanceled r

/-! ### The settings -/

/-- No move changes the settings. -/
@[simp] theorem config_move (m : Move η) : (s.move m).config = s.config := (s.given_move m).1

/-- No history of moves changes the settings. -/
@[simp] theorem config_afterMoves (moves : List (Move η)) :
    (s.afterMoves moves).config = s.config := by
  induction moves generalizing s with
  | nil => rfl
  | cons m moves ih => exact (ih (s.move m)).trans (s.config_move m)

end Scheduler

/-! ### The pipelines -/

/-- A pipeline into which `Pipeline.upsert` has put a stage is not empty. -/
theorem Pipeline.upsert_ne_nil {η : Type} (stage : Stage η) (p : Pipeline η) :
    Pipeline.upsert stage p ≠ [] := by
  cases p with
  | nil => exact List.cons_ne_nil _ _
  | cons first rest =>
    unfold Pipeline.upsert
    split <;> exact List.cons_ne_nil _ _

/-- Every pipeline of a table has a stage. -/
def PipelineTable.Staffed {η : Type} (t : PipelineTable η) : Prop :=
  ∀ taskType p, t.get? taskType = some p → p ≠ []

/-- A registration keeps a table `Staffed`. -/
theorem PipelineTable.Staffed.register {η : Type} {t : PipelineTable η} (h : t.Staffed)
    (taskType : String) (stage : Stage η) : (t.register taskType stage).Staffed := by
  intro taskType' p hp
  rw [PipelineTable.register, FiniteMap.get?_insert] at hp
  split at hp
  next => exact Option.some.inj hp ▸ Pipeline.upsert_ne_nil stage _
  next => exact h taskType' p hp

namespace Scheduler

variable {β η : Type} [TaskQueue β] {s : Scheduler β η}

/-- A move keeps the table of pipelines `Staffed`. -/
theorem staffed_move (h : s.pipelines.Staffed) (m : Move η) : (s.move m).pipelines.Staffed := by
  rw [(s.given_move m).2]
  unfold Move.registers
  split
  next taskType stage => exact h.register taskType stage
  next => exact h

/-- Every history of moves keeps the table of pipelines `Staffed`. -/
theorem staffed_afterMoves (h : s.pipelines.Staffed) (moves : List (Move η)) :
    (s.afterMoves moves).pipelines.Staffed := by
  induction moves generalizing s with
  | nil => exact h
  | cons m moves ih => exact ih (staffed_move h m)

/-- A type has a pipeline after a move exactly if it had one before or a stage of it is
registered. -/
theorem contains_pipelines_move_iff (m : Move η) (taskType : String) :
    (s.move m).pipelines.contains taskType = true ↔
      s.pipelines.contains taskType = true ∨ ∃ stage, m = .event (.register taskType stage) := by
  rw [(s.given_move m).2]
  unfold Move.registers FiniteMap.contains
  split
  next taskType' stage =>
    rw [PipelineTable.register, FiniteMap.get?_insert]
    by_cases heq : taskType = taskType'
    · subst heq
      simp
    · rw [if_neg heq]
      simp [Ne.symm heq]
  next hm =>
    refine (or_iff_left ?_).symm
    rintro ⟨stage, rfl⟩
    exact hm taskType stage rfl

/-- A type without a pipeline after a move had none before it. -/
theorem get?_pipelines_move {taskType : String} (m : Move η)
    (hnone : (s.move m).pipelines.get? taskType = none) : s.pipelines.get? taskType = none := by
  rw [← Option.not_isSome_iff_eq_none] at hnone ⊢
  exact fun hfound => hnone ((contains_pipelines_move_iff m taskType).2 (.inl hfound))

end Scheduler

end TaskScheduler
