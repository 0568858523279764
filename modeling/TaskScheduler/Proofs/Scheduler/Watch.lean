import TaskScheduler.Proofs.Scheduler.TaskSteps

/-!
# Completions without a worker

A task that is rejected, or canceled before its dispatch, is completed by the loop that holds it,
and the loop goes on only when the report is out.  `Watched` says that every task which is completed
without a worker has such a loop, so that loops which have ended leave no such task behind.
-/

namespace TaskScheduler

variable {β η : Type}

/-! ### Watching -/

/-- The outcome of the task is known and the task has not ended. -/
def Phase.isCompleting : Phase η → Bool
  | .completing _ | .reporting _ | .releasing => true
  | _ => false

/-- The task is completed without a worker. -/
def Task.IsWatched (t : Task η) : Prop := t.token = none ∧ t.phase.isCompleting

/-- A loop waits for the report of a task. -/
def Loops.Watches (l : Loops) (r : TaskRef) : Prop :=
  l.pop = .rejecting r ∨ l.pop = .skipping r ∨ l.dispatch = .skipping r

/-- A loop of a run waits for the report of a task. -/
def Run.Watches (run : Run) (r : TaskRef) : Prop := ∃ l, run.phase = .looping l ∧ l.Watches r

/-- Every task that is completed without a worker has a loop that waits for its report. -/
def Watched (tasks : List (Task η)) (runs : List Run) : Prop :=
  ∀ r t, tasks[r]? = some t → t.IsWatched → ∃ run ∈ runs, run.Watches r

namespace Watched

variable {tasks : List (Task η)} {runs : List Run} {i : Nat} {run : Run} {r : TaskRef}

/-- A change of a task keeps the tasks `Watched` if the task was completed without a worker before,
or is not so afterwards, or a run watches it. -/
theorem modifyTask (h : Watched tasks runs) {f : Task η → Task η}
    (hf : ∀ t, tasks[r]? = some t → (f t).IsWatched →
      t.IsWatched ∨ ∃ run ∈ runs, run.Watches r) : Watched (tasks.modify r f) runs := by
  intro r' t' ht' hw
  rw [List.getElem?_modify] at ht'
  obtain ⟨t, ht, rfl⟩ := Option.map_eq_some_iff.1 ht'
  by_cases heq : r = r'
  · subst heq
    rcases hf t ht (by simpa using hw) with hw | hw
    · exact h r t ht hw
    · exact hw
  · simp only [heq, if_false] at hw
    exact h r' t ht hw

/-- A changed run that goes on to watch what has to be watched keeps the tasks `Watched`. -/
theorem modifyRun (h : Watched tasks runs) (hrun : runs[i]? = some run) {f : Run → Run}
    (hf : ∀ r t, tasks[r]? = some t → t.IsWatched → run.Watches r → (f run).Watches r) :
    Watched tasks (runs.modify i f) := by
  intro r t ht hw
  obtain ⟨run', hmem, hwatches⟩ := h r t ht hw
  obtain ⟨j, hj⟩ := List.mem_iff_getElem?.1 hmem
  by_cases heq : i = j
  · subst heq
    obtain rfl : run = run' := by simpa [hrun] using hj
    refine ⟨f run, List.mem_of_getElem? (i := i) ?_, hf r t ht hw hwatches⟩
    simp [hrun]
  · refine ⟨run', List.mem_of_getElem? (i := j) ?_, hwatches⟩
    simp [heq, hj]

/-- A new task, which is not completed, keeps the tasks `Watched`. -/
theorem addTask (h : Watched tasks runs) (p : PoppedTask) (now : Instant) :
    Watched (tasks ++ [{ popped := p, createdAt := now }]) runs := by
  intro r t ht hw
  rw [List.getElem?_append] at ht
  split at ht
  next => exact h r t ht hw
  next =>
    rw [List.getElem?_singleton] at ht
    split at ht
    next =>
      obtain rfl := Option.some.inj ht
      exact absurd hw.2 (by simp [Phase.isCompleting])
    next => exact absurd ht (by simp)

/-- One more run keeps the tasks `Watched`. -/
theorem addRun (h : Watched tasks runs) (run : Run) : Watched tasks (runs ++ [run]) := by
  intro r t ht hw
  obtain ⟨run', hmem, hwatches⟩ := h r t ht hw
  exact ⟨run', List.mem_append_left _ hmem, hwatches⟩

end Watched

/-! ### Watching along a step -/

/-- A run in the phase `looping` `Watches` what its loops watch. -/
theorem Run.watches_mk {l : Loops} {b : Bool} {r : TaskRef} :
    (⟨.looping l, b⟩ : Run).Watches r ↔ l.Watches r := by
  constructor
  · rintro ⟨l', hl', hw⟩
    obtain rfl : l = l' := by simpa using hl'
    exact hw
  · exact fun hw => ⟨l, rfl, hw⟩

/-- A task that is completed without a worker has not ended. -/
theorem Task.IsWatched.isEnded_eq {t : Task η} (h : t.IsWatched) : t.isEnded = false := by
  have hp := h.2
  unfold Task.isEnded
  split
  next hended => exact absurd hp (by simp [hended, Phase.isCompleting])
  next => rfl

/-- If a task that has worked is completed without a worker, it was so before. -/
theorem Task.Works.isWatched {t t' : Task η} (h : t.Works t') (hs : t.Sound) (hw : t'.IsWatched) :
    t.IsWatched := by
  obtain ⟨htoken, hp⟩ := hw
  have hnone : t.phase.isWorking → t.token ≠ none := fun hworking =>
    Option.isSome_iff_ne_none.1 (hs.token hworking)
  cases h with
  | arm c k h => exact absurd hp (by simp [Phase.isCompleting])
  | start h => exact absurd hp (by simp [Phase.isCompleting])
  | skip h => exact absurd htoken (hnone (by simp [h, Phase.isWorking]))
  | countStart h => exact absurd hp (by simp [Phase.isCompleting])
  | gaugeStart h => exact absurd hp (by simp [Phase.isCompleting])
  | lookUp h => exact absurd hp (by simp [Phase.isCompleting])
  | lack h => exact absurd hp (by simp [Phase.isCompleting])
  | pass h => exact absurd hp (by simp [Phase.isCompleting])
  | leave h => exact absurd hp (by simp [Phase.isCompleting])
  | stop h => exact absurd hp (by simp [Phase.isCompleting])
  | countStop h => exact absurd hp (by simp [Phase.isCompleting])
  | gaugeStop h => exact absurd htoken (hnone (by simp [h, Phase.isWorking]))
  | record h => exact ⟨htoken, by simp [h, Phase.isCompleting]⟩

/-- A run in the phase `pinging`, which waits for the queue, watches nothing. -/
theorem Run.not_watches_pinging {b : Bool} {r : TaskRef} : ¬ (⟨.pinging, b⟩ : Run).Watches r := by
  rintro ⟨l, hl, -⟩
  exact absurd hl (by simp)

/-- A run keeps watching a task when a popping loop that does not watch it goes anywhere. -/
theorem Run.Watches.setPop {l : Loops} {b : Bool} {r : TaskRef} {p : PopPhase}
    (h : (⟨.looping l, b⟩ : Run).Watches r) (hr : l.pop ≠ .rejecting r) (hs : l.pop ≠ .skipping r) :
    (⟨.looping { l with pop := p }, b⟩ : Run).Watches r := by
  rcases Run.watches_mk.1 h with hw | hw | hw
  · exact absurd hw hr
  · exact absurd hw hs
  · exact Run.watches_mk.2 (.inr (.inr hw))

/-- Loops in order whose dispatching loop is `draining`, that is, only waits for the registry, watch
nothing. -/
theorem Loops.Ordered.not_watches {l : Loops} (h : l.Ordered) (hd : l.dispatch = .draining)
    {r : TaskRef} : ¬ l.Watches r := by
  have hclosed : l.closed = true := h.closed (by simp [hd, DispatchPhase.isClosing])
  have hend : l.pop = .ended := h.ended hclosed (by simp [hd])
  rintro (hw | hw | hw)
  · exact absurd (hend.symm.trans hw) (by simp)
  · exact absurd (hend.symm.trans hw) (by simp)
  · exact absurd (hd.symm.trans hw) (by simp)

namespace Core

variable {c c' : Core β η} {n : Nat} {l l' l'' : Loops} {r : TaskRef}

/-- After `setLoops` of a run at work there is a run with these loops. -/
theorem mem_setLoops {i : Nat} {b : Bool} (h : c.runs[i]? = some ⟨.looping l, b⟩) (l' : Loops) :
    ⟨.looping l', b⟩ ∈ (c.setLoops i l').runs := by
  apply List.mem_of_getElem? (i := i)
  simp [setLoops, setRunPhase, h]

/-- In a `LoopStep` a loop lets go of a task that it watches only after the end of the task. -/
theorem LoopStep.watches {b : Bool} (h : c.LoopStep b n l l') {t : Task η}
    (ht : c.tasks[r]? = some t) (ht' : t.IsWatched) (hw : l.Watches r) : l'.Watches r := by
  have hended : c.hasEnded r = false := by simp [hasEnded, ht, ht'.isEnded_eq]
  cases h with
  | rejected hp he | skipped hp he =>
    rcases hw with hw | hw | hw
    · simp_all
    · simp_all
    · exact .inr (.inr hw)
  | passedOver hd he =>
    rcases hw with hw | hw | hw
    · exact .inl hw
    · exact .inr (.inl hw)
    · simp_all
  | ask hp | quit hp | wake hp | send hp =>
    rcases hw with hw | hw | hw
    · exact absurd (hp.symm.trans hw) (by simp)
    · exact absurd (hp.symm.trans hw) (by simp)
    · exact .inr (.inr hw)
  | close hd | empty hd | drain hd | await hd | again hd =>
    rcases hw with hw | hw | hw
    · exact .inl hw
    · exact .inr (.inl hw)
    · exact absurd (hd.symm.trans hw) (by simp)

/-- A loop that `Takes` a task for dispatch did not watch, and the other one goes on to watch. -/
theorem Takes.watches (h : Takes l r l') {r' : TaskRef} (hw : l.Watches r') : l'.Watches r' := by
  cases h with
  | refused hp hc =>
    rcases hw with hw | hw | hw
    · exact absurd (hp.symm.trans hw) (by simp)
    · exact absurd (hp.symm.trans hw) (by simp)
    · exact .inr (.inr hw)
  | received hb hd =>
    rcases hw with hw | hw | hw
    · exact .inl hw
    · exact .inr (.inl hw)
    · rcases hd with hd | hd <;> exact absurd (hd.symm.trans hw) (by simp)

/-- A loop that hands a task over did not watch, and the other one goes on to watch. -/
theorem HandOver.watches (h : HandOver l r l' l'') {r' : TaskRef} (hw : l.Watches r') :
    l'.Watches r' ∧ l''.Watches r' := by
  cases h with
  | pop hp =>
    rcases hw with hw | hw | hw
    · exact absurd (hp.symm.trans hw) (by simp)
    · exact absurd (hp.symm.trans hw) (by simp)
    · exact ⟨.inr (.inr hw), .inr (.inr hw)⟩
  | dispatch hd =>
    rcases hw with hw | hw | hw
    · exact ⟨.inl hw, .inl hw⟩
    · exact ⟨.inr (.inl hw), .inr (.inl hw)⟩
    · exact absurd (hd.symm.trans hw) (by simp)

/-- A loop whose task was refused in a `HandOver`, and which has to complete it, `Watches` it. -/
theorem HandOver.watches_self (h : HandOver l r l' l'') : l''.Watches r := by
  cases h with
  | pop hp => exact .inr (.inl rfl)
  | dispatch hd => exact .inr (.inr rfl)

/-- Every step of the core keeps the tasks `Watched`: one that is completed without a worker has a
loop that waits for its report. -/
theorem Step.watched [TaskQueue β] (h : Step n c c') (ho : ∀ run ∈ c.runs, run.Ordered)
    (hs : ∀ t ∈ c.tasks, t.Sound) (hw : Watched c.tasks c.runs) : Watched c'.tasks c'.runs := by
  cases h with
  | idle => exact hw
  | push e priority => exact hw
  | cancelQueued id wall => exact hw
  | refuse e => exact hw.addRun _
  | begin h => exact hw.addRun _
  | fail h e => exact hw.modifyRun h fun _ _ _ _ hold => absurd hold Run.not_watches_pinging
  | loop h => exact hw.modifyRun h fun _ _ _ _ hold => absurd hold Run.not_watches_pinging
  | breakOff h => exact hw.modifyRun h fun _ _ _ _ hold => absurd hold Run.not_watches_pinging
  | shutDown i =>
    cases hrun : c.runs[i]? with
    | none =>
      have hself : (c.runs.modify i fun run => { run with shutdown := true }) = c.runs :=
        modify_eq_self_of_none _ hrun
      dsimp only
      rw [hself]
      exact hw
    | some run => exact hw.modifyRun hrun fun _ _ _ _ hold => hold
  | loops h hl =>
    refine hw.modifyRun h fun r t ht ht' hold => ?_
    exact Run.watches_mk.2 (hl.watches ht ht' (Run.watches_mk.1 hold))
  | @popped i l p wall h hp ha now =>
    obtain ⟨b, hrun⟩ := runs_of_loops? h
    have hruns : Watched c.tasks (c.setLoops i { l with pop := .holding c.tasks.length }).runs :=
      hw.modifyRun hrun fun r t _ _ hold => hold.setPop (by simp [hp]) (by simp [hp])
    exact hruns.addTask p now
  | unpopped h hp =>
    obtain ⟨b, hrun⟩ := runs_of_loops? h
    exact hw.modifyRun hrun fun r t _ _ hold => hold.setPop (by simp [hp]) (by simp [hp])
  | @enroll i l r t h hp =>
    obtain ⟨b, hrun⟩ := runs_of_loops? h
    have hruns : Watched c.tasks (c.setLoops i { l with pop := .sending r }).runs :=
      hw.modifyRun hrun fun r t _ _ hold => hold.setPop (by simp [hp]) (by simp [hp])
    exact hruns.modifyTask fun t _ hnew => absurd hnew.2 (by simp [Phase.isCompleting])
  | @reject i l r t h hp =>
    obtain ⟨b, hrun⟩ := runs_of_loops? h
    have hruns : Watched c.tasks (c.setLoops i { l with pop := .rejecting r }).runs :=
      hw.modifyRun hrun fun r t _ _ hold => hold.setPop (by simp [hp]) (by simp [hp])
    refine hruns.modifyTask fun t _ _ => .inr ⟨_, mem_setLoops hrun _, ?_⟩
    exact Run.watches_mk.2 (.inl rfl)
  | @take i l l' r h hl =>
    obtain ⟨b, hrun⟩ := runs_of_loops? h
    have hruns : Watched c.tasks (c.setLoops i l').runs :=
      hw.modifyRun hrun fun r t _ _ hold =>
        Run.watches_mk.2 (hl.watches (Run.watches_mk.1 hold))
    exact hruns.modifyTask fun t _ hnew => absurd hnew.2 (by simp [Phase.isCompleting])
  | @spawn i l l' l'' r t h hl =>
    obtain ⟨b, hrun⟩ := runs_of_loops? h
    have hruns : Watched c.tasks (c.setLoops i l').runs :=
      hw.modifyRun hrun fun r t _ _ hold =>
        Run.watches_mk.2 (hl.watches (Run.watches_mk.1 hold)).1
    exact hruns.modifyTask fun t _ hnew => absurd hnew.2 (by simp [Phase.isCompleting])
  | @skip i l l' l'' r h hl =>
    obtain ⟨b, hrun⟩ := runs_of_loops? h
    have hruns : Watched c.tasks (c.setLoops i l'').runs :=
      hw.modifyRun hrun fun r t _ _ hold =>
        Run.watches_mk.2 (hl.watches (Run.watches_mk.1 hold)).2
    refine hruns.modifyTask fun t _ _ => .inr ⟨_, mem_setLoops hrun _, ?_⟩
    exact Run.watches_mk.2 hl.watches_self
  | @finish i l h hd =>
    obtain ⟨b, hrun⟩ := runs_of_loops? h
    have hordered := looping_of_loops? ho h
    refine hw.modifyRun hrun fun r t _ _ hold => ?_
    exact absurd (Run.watches_mk.1 hold) (hordered.not_watches hd)
  | work ht h =>
    have hsound := hs _ (List.mem_of_getElem? ht)
    refine hw.modifyTask fun t' ht' hnew => .inl ?_
    rw [ht] at ht'
    exact Option.some.inj ht' ▸ h.isWatched hsound hnew
  | report ht hp =>
    refine hw.modifyTask fun t' ht' hnew => .inl ⟨hnew.1, ?_⟩
    rw [ht] at ht'
    obtain rfl := Option.some.inj ht'
    simp [hp, Phase.isCompleting]
  | cancel ht hs released => exact hw.modifyTask fun _ _ hnew => .inl hnew
  | release ht hp =>
    exact hw.modifyTask fun t _ hnew => absurd hnew.2 (by simp [Phase.isCompleting])

end Core

end TaskScheduler
