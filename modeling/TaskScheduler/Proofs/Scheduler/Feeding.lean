import TaskScheduler.Proofs.Queue.TaskTypes
import TaskScheduler.Proofs.Scheduler.OwnMoves
import TaskScheduler.Proofs.Scheduler.Settings

/-!
# Schedulers that alone feed their queues

The type of a task is checked when the task is pushed.  A push may be taken apart: between the check
and the call of the queue other steps may come.  Others may use the queue meanwhile, as long as they
add no type to it.

The table of pipelines only grows, so "the type has a pipeline" is a property that stays true of a
type.  `TypeContract` carries it from the push through the queue to the pop, and a popped task keeps
its type.  A scheduler is `Furnished` if all its tasks have it, and every pipeline a stage.
-/

namespace TaskScheduler

variable {β η : Type}

/-! ### What a move asks of the queue -/

/-- A queue with its other operations as they are, closed to new tasks. -/
abbrev TaskQueue.closed [TaskQueue β] : TaskQueue β where
  ping := TaskQueue.ping
  push q _ _ := (.error .empty, q)
  pop := TaskQueue.pop
  cancel := TaskQueue.cancel
  report := TaskQueue.report

/-- A call of a queue that is `TaskQueue.closed` to new tasks adds no type, and what it pops was
queued. -/
theorem QueueStep.types [TaskQueue β] {C : TypeContract β} {P : String → Prop} {q q' : β}
    {popped : List PoppedTask} {reported : List TaskReport}
    (h : @QueueStep β TaskQueue.closed q popped reported q') (hq : C.Holds P q) :
    C.Holds P q' ∧ ∀ p ∈ popped, P p.taskType := by
  have hnone : ∀ p ∈ ([] : List PoppedTask), P p.taskType := List.forall_mem_nil _
  cases h with
  | same | push => exact ⟨hq, hnone⟩
  | @popped p wall ha => exact ⟨C.pop hq wall, List.forall_mem_singleton.2 (C.popped hq ha)⟩
  | @unpopped _ wall => exact ⟨C.pop hq wall, hnone⟩
  | cancel id wall => exact ⟨C.cancel hq id wall, hnone⟩
  | report r wall => exact ⟨C.report hq r wall, hnone⟩

namespace Scheduler

variable [TaskQueue β] {s : Scheduler β η} {C : TypeContract β} {P Q : String → Prop}

/-- The tasks of a scheduler and those in its queue have types with a property. -/
structure HasTypes (C : TypeContract β) (P : String → Prop) (s : Scheduler β η) : Prop where
  /-- The queued tasks. -/
  queued : C.Holds P s.queue
  /-- The tasks that were popped. -/
  popped : ∀ p ∈ s.tasks.map Task.popped, P p.taskType

/-- If the types of a scheduler have a property, they have every weaker one. -/
theorem HasTypes.mono (h : s.HasTypes C P) (hPQ : ∀ taskType, P taskType → Q taskType) :
    s.HasTypes C Q :=
  ⟨C.mono h.queued hPQ, fun p hp => hPQ _ (h.popped p hp)⟩

/-- A move adds no type to those of a scheduler but that of a task which it pushes. -/
theorem HasTypes.move (h : s.HasTypes C P) (m : Move η)
    (hpush : ∀ taskType data timeout priority, m = .event (.push taskType data timeout priority) →
      s.pipelines.contains taskType = true → P taskType) : (s.move m).HasTypes C P := by
  by_cases hm : ∃ taskType data timeout priority, m = .event (.push taskType data timeout priority)
  · obtain ⟨taskType, data, timeout, priority, rfl⟩ := hm
    change HasTypes C P (s.push taskType data timeout priority).2
    unfold push
    split
    next hknown =>
      have hadded := C.push h.queued (e := .new taskType data timeout)
        (hpush taskType data timeout priority rfl hknown)
      exact ⟨hadded _, h.popped⟩
    next => exact h
  · -- any other move is the same with a queue that is closed to new tasks
    have hsame : @Scheduler.move β η TaskQueue.closed s m = s.move m := by
      cases m with
      | event e =>
        cases e with
        | push taskType data timeout priority =>
          exact absurd ⟨taskType, data, timeout, priority, rfl⟩ hm
        | _ => rfl
      | _ => rfl
    obtain ⟨popped, reported, hcall, htasks, -⟩ :=
      @Core.Step.queueStep β η TaskQueue.closed _ _ _ (@core_move β η TaskQueue.closed s m)
    rw [hsame] at hcall htasks
    obtain ⟨hqueued, hpopped⟩ := hcall.types h.queued
    refine ⟨hqueued, ?_⟩
    have hall : (s.move m).tasks.map Task.popped = s.tasks.map Task.popped ++ popped := htasks
    rw [hall]
    exact List.forall_mem_append.2 ⟨h.popped, hpopped⟩

/-! ### Schedulers that alone feed their queues -/

/-- The pipelines, the queue and the tasks go together: every queued or popped task has a pipeline,
and every pipeline a stage. -/
structure Furnished (C : TypeContract β) (s : Scheduler β η) : Prop where
  /-- Loops, places, reports and completions are in order. -/
  tidy : s.core.Tidy
  /-- Every pipeline has a stage. -/
  staffed : s.pipelines.Staffed
  /-- Every task has a pipeline. -/
  types : s.HasTypes C fun taskType => s.pipelines.contains taskType = true

/-- A new scheduler whose queue is empty is `Furnished`. -/
theorem furnished_new (config : SchedulerConfig) {queue : β}
    (hqueue : C.Holds (fun _ => False) queue) (metrics : Option Metrics) :
    (new config queue metrics : Scheduler β η).Furnished C where
  tidy := tidy_new config queue metrics
  staffed := by
    intro taskType p hp
    exact absurd hp (by simp [new])
  types := ⟨C.mono hqueue fun _ h => h.elim, List.forall_mem_nil _⟩

/-- A move of the scheduler keeps it `Furnished`. -/
theorem Furnished.move (h : s.Furnished C) (m : Move η) : (s.move m).Furnished C where
  tidy := (s.core_move m).tidy h.tidy
  staffed := staffed_move h.staffed m
  types := (h.types.move m fun _ _ _ _ _ hknown => hknown).mono fun taskType hknown =>
    (contains_pipelines_move_iff m taskType).2 (.inl hknown)

/-- A change of the queue keeps a scheduler `Furnished` if it adds no type without a pipeline. -/
theorem Furnished.setQueue (h : s.Furnished C) {queue : β}
    (hqueue : C.Holds (fun taskType => s.pipelines.contains taskType = true) queue) :
    ({ s with queue := queue } : Scheduler β η).Furnished C where
  tidy := ⟨h.tidy.ordered, h.tidy.tracked, h.tidy.reported, h.tidy.watched⟩
  staffed := h.staffed
  types := ⟨hqueue, h.types.popped⟩

/-- A task of a `Furnished` scheduler has a pipeline with a stage. -/
theorem Furnished.exists_pipeline {p : PoppedTask} (h : s.Furnished C)
    (hp : s.pipelines.contains p.taskType = true) :
    ∃ first rest, s.pipelines.get? p.taskType = some (first :: rest) := by
  obtain ⟨pipeline, hget⟩ := Option.isSome_iff_exists.1 hp
  obtain ⟨first, rest, rfl⟩ := List.exists_cons_of_ne_nil (h.staffed p.taskType pipeline hget)
  exact ⟨first, rest, hget⟩

end Scheduler

/-- What happens to a scheduler that alone feeds its queue. -/
inductive FedMove (β η : Type) where
  /-- A move of the scheduler. -/
  | own (m : Move η)
  /-- The second half of a push: the queue is given a task whose type was looked up before. -/
  | pushChecked (e : Envelope) (priority : Int64)
  /-- Others have used the queue and leave it like this. -/
  | others (queue : β)

namespace Scheduler

variable [TaskQueue β] {s s₀ : Scheduler β η} {C : TypeContract β} {moves : List (FedMove β η)}

/-- The scheduler after a move of it or of others. -/
def moveFed (s : Scheduler β η) : FedMove β η → Scheduler β η
  | .own m => s.move m
  | .pushChecked e priority => { s with queue := (TaskQueue.push s.queue e priority).2 }
  | .others queue => { s with queue := queue }

/-- The scheduler after a history of moves of it and of others. -/
def afterFed (s : Scheduler β η) (moves : List (FedMove β η)) : Scheduler β η :=
  moves.foldl moveFed s

/-- The state after a history with one move more is that of `moveFed` from where the history
ends. -/
theorem afterFed_concat (s : Scheduler β η) (moves : List (FedMove β η)) (m : FedMove β η) :
    s.afterFed (moves ++ [m]) = (s.afterFed moves).moveFed m :=
  List.foldl_append

/-- In a history only the scheduler feeds its queue: a late half of a push follows a check of the
type, and others add no type. -/
inductive FedOnly (C : TypeContract β) (s₀ : Scheduler β η) : List (FedMove β η) → Prop
  /-- Nothing has happened. -/
  | nil : FedOnly C s₀ []
  /-- The scheduler moves. -/
  | own {moves : List (FedMove β η)} (h : FedOnly C s₀ moves) (m : Move η) :
    FedOnly C s₀ (moves ++ [.own m])
  /-- A push goes on whose type had a pipeline when it was looked up. -/
  | pushChecked {earlier later : List (FedMove β η)} (h : FedOnly C s₀ (earlier ++ later))
    {e : Envelope} (he : (s₀.afterFed earlier).pipelines.contains e.taskType = true)
    (priority : Int64) : FedOnly C s₀ (earlier ++ later ++ [.pushChecked e priority])
  /-- Others use the queue. -/
  | others {moves : List (FedMove β η)} (h : FedOnly C s₀ moves) {queue : β}
    (hqueue : C.AddsNone (s₀.afterFed moves).queue queue) : FedOnly C s₀ (moves ++ [.others queue])

/-- A history in which only the scheduler feeds its queue may go on with moves of this scheduler. -/
theorem FedOnly.owns (h : FedOnly C s₀ moves) (more : List (Move η)) :
    FedOnly C s₀ (moves ++ more.map .own) := by
  induction more using List.reverseRecOn with
  | nil => rwa [List.map_nil, List.append_nil]
  | append_singleton more m ih =>
    rw [List.map_append, ← List.append_assoc]
    exact ih.own m

/-- A type has a pipeline after `afterFed` exactly if it had one before or a stage of it was
registered in the history. -/
theorem contains_pipelines_afterFed_iff (s : Scheduler β η) (moves : List (FedMove β η))
    (taskType : String) : (s.afterFed moves).pipelines.contains taskType = true ↔
      s.pipelines.contains taskType = true ∨
        ∃ stage, .own (.event (.register taskType stage)) ∈ moves := by
  induction moves using List.reverseRecOn with
  | nil => simp [afterFed]
  | append_singleton moves m ih =>
    rw [afterFed_concat]
    cases m with
    | own m =>
      change ((s.afterFed moves).move m).pipelines.contains taskType = true ↔ _
      rw [contains_pipelines_move_iff, ih]
      simp only [List.mem_append, List.mem_singleton, FedMove.own.injEq, exists_or, or_assoc,
        eq_comm]
    | pushChecked e priority =>
      change (s.afterFed moves).pipelines.contains taskType = true ↔ _
      rw [ih]
      simp
    | others queue =>
      change (s.afterFed moves).pipelines.contains taskType = true ↔ _
      rw [ih]
      simp

/-- A type that had a pipeline in the course of a history has one at the end. -/
theorem contains_pipelines_afterFed_append {earlier : List (FedMove β η)} {taskType : String}
    (h : (s.afterFed earlier).pipelines.contains taskType = true) (later : List (FedMove β η)) :
    (s.afterFed (earlier ++ later)).pipelines.contains taskType = true := by
  have hsplit : s.afterFed (earlier ++ later) = (s.afterFed earlier).afterFed later :=
    List.foldl_append
  rw [hsplit]
  exact (contains_pipelines_afterFed_iff _ later taskType).2 (.inl h)

/-- A `Furnished` scheduler that alone feeds its queue stays so. -/
theorem FedOnly.furnished (h : FedOnly C s₀ moves) (hs : s₀.Furnished C) :
    (s₀.afterFed moves).Furnished C := by
  induction h with
  | nil => exact hs
  | own _ m ih =>
    rw [afterFed_concat]
    exact ih.move m
  | @pushChecked earlier later _ e he priority ih =>
    rw [afterFed_concat]
    exact ih.setQueue
      (C.push ih.types.queued (contains_pipelines_afterFed_append he later) priority)
  | others _ hqueue ih =>
    rw [afterFed_concat]
    exact ih.setQueue (hqueue _ ih.types.queued)

end Scheduler

end TaskScheduler
