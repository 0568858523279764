import TaskScheduler.Proofs.Context.Tokens
import TaskScheduler.Proofs.Scheduler.Drain

/-!
# What a move makes of a task

`Core.Step` leaves open which move of the scheduler a step of the core stands for, and it forgets
the clock and the contexts.  Both matter for what is said of one task along a history: whose move
cancels it, and under which context it enters a stage.

`Task.Turn` lists what one move can make of one task, with everything that the move looked at before
it did so, and `turns_move` says that every move makes of every task one of these, that a task that
is new was just popped, and that the tree of tokens grows.  As with the core there is one lemma for
each step function; a loop that passes a task on knows the phase of the task from its place.
-/

namespace TaskScheduler

variable {β η : Type}

/-! ### Turns of one task -/

/-- Why a pass through a pipeline ends that has these passes behind it, and with which outcome. -/
inductive Task.Leaves (s : Scheduler β η) (m : Move η) (r : TaskRef) (t : Task η)
    (callers : List (Frame η)) : Outcome → Prop
  /-- No stage is left. -/
  | done {c : Context} {input : StageInput} {called : Option Outcome}
    (h : t.phase = .running ⟨c, [], input, none, called⟩ callers)
    (hm : m = .event (.stepTask r)) : Leaves s m r t callers (.ok input.result)
  /-- The task has to stop before a stage. -/
  | stopped {c : Context} {stage : Stage η} {rest : Pipeline η} {input : StageInput}
    {called : Option Outcome} {e : TaskError}
    (h : t.phase = .running ⟨c, stage :: rest, input, none, called⟩ callers)
    (hs : s.stopReason t c = some e) (hm : m = .event (.stepTask r)) :
    Leaves s m r t callers (.error e)
  /-- A stage has returned an error. -/
  | failed {c : Context} {rest : Pipeline η} {input : StageInput} {stage : Stage η}
    {called : Option Outcome} {e : TaskError}
    (h : t.phase = .running ⟨c, rest, input, some stage, called⟩ callers)
    (hm : m = .event (.returnFromStage r (.error e))) : Leaves s m r t callers (.error e)

/-- What a move of a scheduler makes of the task in a place. -/
inductive Task.Turn (s : Scheduler β η) (m : Move η) (r : TaskRef) (t : Task η) : Task η → Prop
  /-- Nothing. -/
  | same : Turn s m r t t
  /-- The task is registered, because its id is free. -/
  | enroll (h : t.phase = .popped) (hn : s.registry.contains t.id = false) :
    Turn s m r t { t with createdAt := s.now, phase := .waiting, registered := true }
  /-- The task is rejected, because its id is taken. -/
  | reject (h : t.phase = .popped) (hn : s.registry.contains t.id = true) :
    Turn s m r t { t with
      createdAt := s.now
      phase := .completing (.error (Scheduler.idTaken t.id)) }
  /-- It is taken for dispatch. -/
  | take (h : t.phase = .waiting) : Turn s m r t { t with phase := .dispatched }
  /-- It is given to a worker. -/
  | spawn (h : t.phase = .dispatched) (hs : t.status = .init) :
    Turn s m r t { t with phase := .spawned }
  /-- It is not given to a worker, because it was canceled. -/
  | skip (h : t.phase = .dispatched) (hs : t.status ≠ .init) :
    Turn s m r t { t with phase := .completing (.error .canceled) }
  /-- Its worker makes the context of the run. -/
  | arm (hm : m = .event (.stepTask r)) (h : t.phase = .spawned) {c : Context}
    (hc : (s.contexts.childOf baseToken t.popped.timeout).1 = c) :
    Turn s m r t { t with token := t.token.or (some c.token), phase := .armed c }
  /-- It starts. -/
  | start {c : Context} (h : t.phase = .armed c) (hs : t.status = .init)
    (hm : m = .event (.stepTask r)) :
    Turn s m r t { t with status := .running, phase := .starting c false }
  /-- It does not start, because it was canceled. -/
  | refuse {c : Context} (h : t.phase = .armed c) (hs : t.status ≠ .init)
    (hm : m = .event (.stepTask r)) :
    Turn s m r t { t with phase := .completing (.error .canceled) }
  /-- The counter of running tasks is raised for it. -/
  | countStart {c : Context} (h : t.phase = .starting c false) (hm : m = .event (.stepTask r)) :
    Turn s m r t { t with phase := .starting c true }
  /-- The gauge of running tasks is raised for it. -/
  | gaugeStart {c : Context} (h : t.phase = .starting c true) (hm : m = .event (.stepTask r)) :
    Turn s m r t { t with phase := .started c }
  /-- Its pipeline is looked up. -/
  | lookUp {c : Context} (h : t.phase = .started c) {p : Pipeline η}
    (hp : s.pipelines.get? t.taskType = some p) (hm : m = .event (.stepTask r)) :
    Turn s m r t { t with phase := .running ⟨c, p, .first, none, none⟩ [] }
  /-- It has no pipeline. -/
  | lack {c : Context} (h : t.phase = .started c) (hp : s.pipelines.get? t.taskType = none)
    (hm : m = .event (.stepTask r)) :
    Turn s m r t { t with phase := .stopping (.error (.noPipeline t.taskType)) }
  /-- It enters a stage, because nothing says that it has to stop. -/
  | enter {c : Context} {stage : Stage η} {rest : Pipeline η} {input : StageInput}
    {called : Option Outcome} {callers : List (Frame η)}
    (h : t.phase = .running ⟨c, stage :: rest, input, none, called⟩ callers)
    (hs : s.stopReason t c = none) (hm : m = .event (.stepTask r)) :
    Turn s m r t { t with
      path := t.path ++ [stage.name]
      phase := .running ⟨c, rest, input, some stage, none⟩ callers }
  /-- Its innermost pass through a pipeline ends. -/
  | leave {top : Frame η} {callers : List (Frame η)} (h : t.phase = .running top callers)
    (o : Outcome) (hl : Task.Leaves s m r t callers o) :
    Turn s m r t { t with phase := Scheduler.leavePipeline o callers }
  /-- Its stage returns a value. -/
  | returned {c : Context} {rest : Pipeline η} {input : StageInput} {stage : Stage η}
    {called : Option Outcome} {callers : List (Frame η)}
    (h : t.phase = .running ⟨c, rest, input, some stage, called⟩ callers) (v : Json)
    (hm : m = .event (.returnFromStage r (.ok v))) :
    Turn s m r t { t with phase := .running ⟨c, rest, .value v, none, none⟩ callers }
  /-- Its stage breaks off. -/
  | broke {c : Context} {rest : Pipeline η} {input : StageInput} {stage : Stage η}
    {called : Option Outcome} {callers : List (Frame η)}
    (h : t.phase = .running ⟨c, rest, input, some stage, called⟩ callers)
    (e : TaskError) {p : Payload} (he : e = .unexpected p.message t.path)
    (hm : m = .event (.breakOff r p)) : Turn s m r t { t with phase := .stopping (.error e) }
  /-- Its stage calls a pipeline. -/
  | called {c c' : Context} {rest p : Pipeline η} {input input' : StageInput} {stage : Stage η}
    {called : Option Outcome} {callers : List (Frame η)} {taskType : String}
    (h : t.phase = .running ⟨c, rest, input, some stage, called⟩ callers)
    (hm : m = .event (.callPipeline r c' taskType input'))
    (hp : s.pipelines.get? taskType = some p) :
    Turn s m r t { t with
      phase := .running ⟨c', p, input', none, none⟩
        (⟨c, rest, input, some stage, none⟩ :: callers) }
  /-- It finishes. -/
  | stop {o : Outcome} (h : t.phase = .stopping o) (hm : m = .event (.stepTask r)) :
    Turn s m r t { t with
      status := if t.status = .running then .done else t.status
      phase := .finishing o true }
  /-- The counter of running tasks is lowered for it. -/
  | countStop {o : Outcome} (h : t.phase = .finishing o true) (hm : m = .event (.stepTask r)) :
    Turn s m r t { t with phase := .finishing o false }
  /-- The gauge of running tasks is lowered for it. -/
  | gaugeStop {o : Outcome} (h : t.phase = .finishing o false) (hm : m = .event (.stepTask r)) :
    Turn s m r t { t with phase := .completing o }
  /-- Its outcome is recorded. -/
  | record {o : Outcome} (h : t.phase = .completing o) (hm : m = .event (.stepTask r)) :
    Turn s m r t { t with
      error := (t.report s.now o).error?.or t.error
      phase := .reporting (t.report s.now o) }
  /-- Its report is handed over. -/
  | report {report : TaskReport} (h : t.phase = .reporting report) {wall : Timestamp}
    (hm : m = .event (.report r wall)) :
    Turn s m r t { t with phase := .releasing }
  /-- It is released after its report. -/
  | release (h : t.phase = .releasing) (hm : m = .event (.stepTask r)) :
    Turn s m r t { t with released := true, phase := .ended }
  /-- It is canceled in one piece, by somebody who holds it or by its id. -/
  | cancel (hm : m = .event (.cancelTask r) ∨
      ∃ id wall, m = .event (.cancel id wall) ∧ s.registry.get? id = some r)
    (hs : t.status.isTerminal = false) :
    Turn s m r t { t with status := .canceled, released := true }
  /-- It is marked as canceled. -/
  | mark (hm : m = .markCanceled r) (hs : t.status.isTerminal = false) :
    Turn s m r t { t with status := .canceled }
  /-- It was marked as canceled and is released. -/
  | drop (hm : m = .dropCanceled r) (hs : t.status = .canceled) :
    Turn s m r t { t with released := true }

/-- A `Task.Turn` leaves what was popped as it was, and a released task released. -/
theorem Task.Turn.kept {s : Scheduler β η} {m : Move η} {r : TaskRef} {t t' : Task η}
    (h : Task.Turn s m r t t') :
    t'.popped = t.popped ∧ (t.released = true → t'.released = true) := by
  cases h with
  | release | cancel | drop => exact ⟨rfl, fun _ => rfl⟩
  | _ => exact ⟨rfl, fun hreleased => hreleased⟩

namespace Scheduler

/-- A move makes one of its turns of every task, a new task was just popped, and tokens are only
added and canceled. -/
structure Turns (s : Scheduler β η) (m : Move η) (s' : Scheduler β η) : Prop where
  /-- What becomes of the tasks that are there. -/
  old : ∀ (r : TaskRef) (t : Task η), s.task? r = some t →
    ∃ t', s'.task? r = some t' ∧ Task.Turn s m r t t'
  /-- What the tasks are that come. -/
  new : ∀ (r : TaskRef) (t : Task η), s.task? r = none → s'.task? r = some t →
    ∃ p, t = { popped := p, createdAt := s.now }
  /-- What becomes of the tokens. -/
  tree : s.contexts.tree.Grows s'.contexts.tree

variable {s s' : Scheduler β η} {m : Move η} {r : TaskRef}

/-- A move that leaves all tasks as they are makes `Turns`. -/
theorem Turns.of_tasks_eq (h : s'.tasks = s.tasks)
    (hc : s.contexts.tree.Grows s'.contexts.tree) : Turns s m s' where
  old r t ht := ⟨t, by rw [task?, h]; exact ht, .same⟩
  new r t hnone ht := by
    rw [task?, h] at ht
    exact absurd (hnone.symm.trans ht) (by simp)
  tree := hc

/-- A move that makes a turn of one task, and leaves the others, makes `Turns`. -/
theorem Turns.of_modify {f : Task η → Task η} (h : s'.tasks = s.tasks.modify r f)
    (hc : s.contexts.tree.Grows s'.contexts.tree)
    (hf : ∀ t, s.task? r = some t → Task.Turn s m r t (f t)) : Turns s m s' where
  old r' t ht := by
    have hlist : s.tasks[r']? = some t := ht
    have hnew : s'.task? r' = some (if r = r' then f t else t) := by
      rw [task?, h, List.getElem?_modify, hlist]
      rfl
    refine ⟨_, hnew, ?_⟩
    by_cases heq : r = r'
    · subst heq
      rw [if_pos rfl]
      exact hf t ht
    · rw [if_neg heq]
      exact .same
  new r' t hnone ht := by
    have hlist : s.tasks[r']? = none := hnone
    rw [task?, h, List.getElem?_modify, hlist] at ht
    exact absurd ht (by simp)
  tree := hc

/-- A move that makes a turn of the task in a place that is known makes `Turns`. -/
theorem Turns.of_task {t : Task η} {f : Task η → Task η} (ht : s.task? r = some t)
    (h : s'.tasks = s.tasks.modify r f) (hc : s.contexts.tree.Grows s'.contexts.tree)
    (hf : Task.Turn s m r t (f t)) : Turns s m s' := by
  refine .of_modify h hc fun t' ht' => ?_
  obtain rfl : t = t' := Option.some.inj (ht.symm.trans ht')
  exact hf

/-- A move that adds a task which was just popped makes `Turns`. -/
theorem Turns.of_append {p : PoppedTask}
    (h : s'.tasks = s.tasks ++ [{ popped := p, createdAt := s.now }])
    (hc : s.contexts.tree.Grows s'.contexts.tree) : Turns s m s' where
  old r t ht := by
    have hlt : r < s.tasks.length := (List.getElem?_eq_some_iff.1 ht).1
    refine ⟨t, ?_, .same⟩
    rw [task?, h, List.getElem?_append_left hlt]
    exact ht
  new r t hnone ht := by
    have hle : s.tasks.length ≤ r := List.getElem?_eq_none_iff.1 hnone
    rw [task?, h, List.getElem?_append_right hle, List.getElem?_singleton] at ht
    split at ht
    next => exact ⟨p, (Option.some.inj ht).symm⟩
    next => exact absurd ht (by simp)
  tree := hc

/-- A move that makes `Turns` may change the loops of a run as well. -/
theorem Turns.setLoops (h : Turns s m s') (i : Nat) (l : Loops) : Turns s m (s'.setLoops i l) :=
  ⟨h.old, h.new, h.tree⟩

/-- Along `Turns`, what new tasks have and every turn leaves all tasks have after a move. -/
theorem Turns.forall_mem {P : Task η → Prop} (h : Turns s m s')
    (hnew : ∀ p now, P { popped := p, createdAt := now })
    (hturn : ∀ r t t', s.task? r = some t → Task.Turn s m r t t' → P t') : ∀ t ∈ s'.tasks, P t := by
  intro t' ht'
  obtain ⟨r, hr⟩ := List.mem_iff_getElem?.1 ht'
  cases ht : s.task? r with
  | none =>
    obtain ⟨p, rfl⟩ := h.new r t' ht hr
    exact hnew p s.now
  | some t =>
    obtain ⟨u, hu, hut⟩ := h.old r t ht
    obtain rfl : t' = u := Option.some.inj (hr.symm.trans hu)
    exact hturn r t t' ht hut

/-! ### Tokens -/

/-- `releaseTask` cancels at most the token of the task. -/
theorem tree_releaseTask (s : Scheduler β η) (r : TaskRef) :
    (s.releaseTask r).2.contexts.tree = s.contexts.tree ∨
      ∃ t k, s.task? r = some t ∧ t.token = some k ∧
        (s.releaseTask r).2.contexts.tree = s.contexts.tree.cancel k := by
  unfold releaseTask
  split
  next => exact .inl rfl
  next t ht =>
    split
    next => exact .inl rfl
    next =>
      have hsame : ∀ b : Bool, (if b then
          { s.modifyTask r (fun t => { t with released := true }) with
            registry := s.registry.erase t.id }
        else s.modifyTask r fun t => { t with released := true }).contexts = s.contexts := by
        intro b
        cases b <;> rfl
      dsimp only
      split
      next k hk =>
        have hcancel := congrArg (fun c => (ContextStore.cancel c k).tree) (hsame t.registered)
        exact .inr ⟨t, k, ht, hk, hcancel⟩
      next => exact .inl (congrArg ContextStore.tree (hsame t.registered))

/-- `releaseTask` adds no token and keeps canceled tokens canceled. -/
theorem grows_releaseTask (s : Scheduler β η) (r : TaskRef) :
    s.contexts.tree.Grows (s.releaseTask r).2.contexts.tree := by
  rcases s.tree_releaseTask r with h | ⟨t, k, -, -, h⟩ <;> rw [h]
  exact s.contexts.tree.grows_cancel k

/-- `armTask` cancels at most the token that it gives to the task. -/
theorem tree_armTask (s : Scheduler β η) (r : TaskRef) (k : TokenId) :
    (s.armTask r k).contexts.tree = s.contexts.tree ∨
      (s.armTask r k).contexts.tree = s.contexts.tree.cancel k := by
  unfold armTask
  split
  next => exact .inl rfl
  next t ht =>
    split
    next => exact .inl rfl
    next =>
      dsimp only
      split
      next => exact .inr rfl
      next => exact .inl rfl

/-- `armTask` adds no token and keeps canceled tokens canceled. -/
theorem grows_armTask (s : Scheduler β η) (r : TaskRef) (k : TokenId) :
    s.contexts.tree.Grows (s.armTask r k).contexts.tree := by
  rcases s.tree_armTask r k with h | h <;> rw [h]
  exact s.contexts.tree.grows_cancel k

/-! ### The loops -/

/-- Where the tasks are `Tracked`, a task that a loop holds is in the phase of its place. -/
theorem phase_of_placed (htracked : Tracked s.tasks s.runs) {i : Nat} {l : Loops}
    (hl : s.loops? i = some l) {p : Place} (hmem : (p, r) ∈ l.placed) {t : Task η}
    (ht : s.task? r = some t) : t.phase = p.phase := by
  have hl' : s.core.loops? i = some l := hl
  obtain ⟨t', ht', hplace⟩ := Tracked.exists_of_loops? (c := s.core) htracked hl' hmem
  obtain rfl : t = t' := Option.some.inj (ht.symm.trans ht')
  exact Phase.eq_of_place? hplace

/-- `callRun` leaves all tasks as they are. -/
theorem turns_callRun (s : Scheduler β η) (m : Move η) : Turns s m s.callRun := by
  unfold callRun
  split
  next => exact .of_tasks_eq rfl .rfl
  next => split <;> exact .of_tasks_eq rfl .rfl

/-- `answerPing` leaves all tasks as they are. -/
theorem turns_answerPing (s : Scheduler β η) (m : Move η) (i : Nat)
    (answer : Except QueueError Unit) : Turns s m (s.answerPing i answer) := by
  unfold answerPing
  split
  next =>
    split
    next => exact .of_tasks_eq rfl .rfl
    next => split <;> exact .of_tasks_eq rfl .rfl
  next => exact .of_tasks_eq rfl .rfl

/-- `popQueue` brings at most one new task. -/
theorem turns_popQueue [TaskQueue β] (s : Scheduler β η) (m : Move η) (i : Nat)
    (wall : Timestamp) : Turns s m (s.popQueue i wall) := by
  have hanswer : ∀ (queue : β) (answer : Except QueueError PoppedTask),
      Turns s m (({ s with queue := queue }).answerPop i answer) := by
    intro queue answer
    unfold answerPop
    split
    next =>
      split
      next =>
        cases answer with
        | error e => exact .of_tasks_eq rfl .rfl
        | ok p => exact .of_append rfl .rfl
      next => exact .of_tasks_eq rfl .rfl
    next => exact .of_tasks_eq rfl .rfl
  unfold popQueue
  split
  next =>
    split
    next => exact hanswer _ _
    next => exact .of_tasks_eq rfl .rfl
  next => exact .of_tasks_eq rfl .rfl

/-- `takeIn` makes the turn of a popped task that the popping loop takes in. -/
theorem turns_takeIn (htracked : Tracked s.tasks s.runs) (m : Move η) {i : Nat} {l : Loops}
    (hl : s.loops? i = some l) (hp : l.pop = .holding r) : Turns s m (s.takeIn i l r) := by
  unfold takeIn
  split
  next => exact .of_tasks_eq rfl .rfl
  next t ht =>
    have hphase : t.phase = .popped :=
      phase_of_placed htracked hl (Loops.mem_placed_of_holding hp) ht
    split
    next hn => exact .of_task ht rfl .rfl (.reject hphase hn)
    next hn => exact .of_task ht rfl .rfl (.enroll hphase (Bool.eq_false_iff.2 hn))

/-- A loop that `Takes` a task for dispatch makes the turn of a waiting task. -/
theorem turns_take (htracked : Tracked s.tasks s.runs) (m : Move η) {i : Nat} {l l' : Loops}
    (hl : s.loops? i = some l) (htakes : Core.Takes l r l')
    (h : s'.tasks = s.tasks.modify r fun t => { t with phase := .dispatched })
    (hc : s.contexts.tree.Grows s'.contexts.tree) : Turns s m s' :=
  .of_modify h hc fun _ ht => .take (phase_of_placed htracked hl htakes.mem_placed ht)

/-- A loop that dispatches the task it holds makes the turn of a task in dispatch. -/
theorem turns_dispatchTask (htracked : Tracked s.tasks s.runs) (m : Move η) {i : Nat}
    {l l' l'' : Loops} (hl : s.loops? i = some l) (hd : Core.HandOver l r l' l'') :
    Turns s m (s.dispatchTask r).2 := by
  unfold dispatchTask
  split
  next => exact .of_tasks_eq rfl .rfl
  next t ht =>
    have hphase : t.phase = .dispatched := phase_of_placed htracked hl hd.mem_placed ht
    split
    next hs => exact .of_task ht rfl .rfl (.spawn hphase hs)
    next hs => exact .of_task ht rfl .rfl (.skip hphase hs)

/-- `stepPop` makes one of its turns of every task. -/
theorem turns_stepPop (htracked : Tracked s.tasks s.runs) (m : Move η) (i : Nat) :
    Turns s m (s.stepPop i) := by
  unfold stepPop
  cases hl : s.loops? i with
  | none => exact .of_tasks_eq rfl .rfl
  | some l =>
    dsimp only
    cases hp : l.pop with
    | checking => exact .of_tasks_eq rfl .rfl
    | asking => exact .of_tasks_eq rfl .rfl
    | holding r => exact turns_takeIn htracked m hl hp
    | rejecting r =>
      dsimp only
      split <;> exact .of_tasks_eq rfl .rfl
    | sending r =>
      dsimp only
      split
      next hc => exact turns_take htracked m hl (.refused hp hc) rfl .rfl
      next =>
        split <;> exact .of_tasks_eq rfl .rfl
    | passing r =>
      have hturns := turns_dispatchTask htracked m hl (.pop hp)
      dsimp only
      split
      next s' hgiven =>
        rw [hgiven] at hturns
        exact hturns.setLoops i _
      next s' hkept =>
        rw [hkept] at hturns
        exact hturns.setLoops i _
    | skipping r =>
      dsimp only
      split <;> exact .of_tasks_eq rfl .rfl
    | resting w =>
      dsimp only
      split <;> exact .of_tasks_eq rfl .rfl
    | ended => exact .of_tasks_eq rfl .rfl

/-- `stepDispatch` makes one of its turns of every task. -/
theorem turns_stepDispatch (htracked : Tracked s.tasks s.runs) (m : Move η) (i : Nat) :
    Turns s m (s.stepDispatch i) := by
  unfold stepDispatch
  cases hl : s.loops? i with
  | none => exact .of_tasks_eq rfl .rfl
  | some l =>
    dsimp only
    cases hd : l.dispatch with
    | receiving =>
      dsimp only
      split
      next => exact .of_tasks_eq rfl .rfl
      next =>
        split
        next => exact .of_tasks_eq rfl .rfl
        next r rest hb => exact turns_take htracked m hl (.received hb (.inl hd)) rfl .rfl
    | passing r =>
      have hturns := turns_dispatchTask htracked m hl (.dispatch hd)
      dsimp only
      split
      next s' hgiven =>
        rw [hgiven] at hturns
        exact hturns.setLoops i _
      next s' hkept =>
        rw [hkept] at hturns
        exact hturns.setLoops i _
    | skipping r =>
      dsimp only
      split <;> exact .of_tasks_eq rfl .rfl
    | closing =>
      dsimp only
      split <;> exact .of_tasks_eq rfl .rfl
    | emptying =>
      dsimp only
      split
      next => exact .of_tasks_eq rfl .rfl
      next r rest hb => exact turns_take htracked m hl (.received hb (.inr hd)) rfl .rfl
    | draining =>
      dsimp only
      split <;> exact .of_tasks_eq rfl .rfl
    | resting w =>
      dsimp only
      split <;> exact .of_tasks_eq rfl .rfl

/-! ### Workers and completions -/

/-- `armWorker` makes the turn of a task whose worker makes the context of the run. -/
theorem turns_armWorker (s : Scheduler β η) (r : TaskRef) :
    Turns s (.event (.stepTask r)) (s.armWorker r) := by
  unfold armWorker
  split
  next t ht =>
    split
    next hp =>
      generalize hmade : s.contexts.childOf baseToken t.popped.timeout = made
      obtain ⟨c, contexts⟩ := made
      have htasks : ((({ s with contexts := contexts }).armTask r c.token).setPhase r
            (.armed c)).tasks =
          s.tasks.modify r fun t =>
            { t with token := t.token.or (some c.token), phase := .armed c } := by
        have hcore := congrArg Core.tasks
          (core_armTask ({ s with contexts := contexts }) r c.token)
        have harm : (({ s with contexts := contexts }).armTask r c.token).tasks =
            s.tasks.modify r fun t => { t with token := t.token.or (some c.token) } := hcore
        simp only [setPhase, modifyTask, harm, List.modify_modify_eq]
        rfl
      have htree := s.contexts.grows_childOf baseToken t.popped.timeout
      rw [hmade] at htree
      have harmed := ({ s with contexts := contexts }).grows_armTask r c.token
      exact .of_task ht htasks (htree.trans harmed) (.arm rfl hp (congrArg Prod.fst hmade))
    next => exact .of_tasks_eq rfl .rfl
  next => exact .of_tasks_eq rfl .rfl

/-- `startWorker` makes the turn of a task that starts, or is found canceled. -/
theorem turns_startWorker (s : Scheduler β η) (r : TaskRef) :
    Turns s (.event (.stepTask r)) (s.startWorker r) := by
  unfold startWorker
  split
  next t ht =>
    split
    next c hp =>
      unfold startTask
      rw [ht]
      dsimp only
      by_cases hs : t.status = .init
      · rw [if_pos hs]
        have htasks : (s.tasks.modify r fun t => { t with status := .running }).modify r
              (fun t => { t with phase := .starting c false }) =
            s.tasks.modify r fun t => { t with status := .running, phase := .starting c false } :=
          List.modify_modify_eq ..
        exact .of_task ht htasks .rfl (.start hp hs rfl)
      · rw [if_neg hs]
        exact .of_task ht rfl .rfl (.refuse hp hs rfl)
    next => exact .of_tasks_eq rfl .rfl
  next => exact .of_tasks_eq rfl .rfl

/-- `countStart` makes the turn of a started task that is counted. -/
theorem turns_countStart (s : Scheduler β η) (r : TaskRef) :
    Turns s (.event (.stepTask r)) (s.countStart r) := by
  unfold countStart
  split
  next t ht =>
    split
    next hp => exact .of_task ht rfl .rfl (.countStart hp rfl)
    next hp => exact .of_task ht rfl .rfl (.gaugeStart hp rfl)
    next => exact .of_tasks_eq rfl .rfl
  next => exact .of_tasks_eq rfl .rfl

/-- `lookUpPipeline` makes the turn of a task whose pipeline is looked up. -/
theorem turns_lookUpPipeline (s : Scheduler β η) (r : TaskRef) :
    Turns s (.event (.stepTask r)) (s.lookUpPipeline r) := by
  unfold lookUpPipeline
  split
  next t ht =>
    split
    next c hp =>
      split
      next p hfound => exact .of_task ht rfl .rfl (.lookUp hp hfound rfl)
      next hnone => exact .of_task ht rfl .rfl (.lack hp hnone rfl)
    next => exact .of_tasks_eq rfl .rfl
  next => exact .of_tasks_eq rfl .rfl

/-- `enterStage` makes the turn of a task that enters a stage, or leaves a pipeline. -/
theorem turns_enterStage (s : Scheduler β η) (r : TaskRef) :
    Turns s (.event (.stepTask r)) (s.enterStage r) := by
  unfold enterStage
  split
  next t ht =>
    split
    next c rest input called callers hp =>
      split
      next => exact .of_task ht rfl .rfl (.leave hp _ (.done hp rfl))
      next stage rest =>
        split
        next e hs => exact .of_task ht rfl .rfl (.leave hp _ (.stopped hp hs rfl))
        next hs => exact .of_task ht rfl .rfl (.enter hp hs rfl)
    next => exact .of_tasks_eq rfl .rfl
  next => exact .of_tasks_eq rfl .rfl

/-- `returnFromStage` makes the turn of a task whose stage returns. -/
theorem turns_returnFromStage (s : Scheduler β η) (r : TaskRef) (o : Outcome) :
    Turns s (.event (.returnFromStage r o)) (s.returnFromStage r o) := by
  unfold returnFromStage
  split
  next t ht =>
    split
    next hp =>
      cases o with
      | ok v => exact .of_task ht rfl .rfl (.returned hp v rfl)
      | error e => exact .of_task ht rfl .rfl (.leave hp _ (.failed hp rfl))
    next => exact .of_tasks_eq rfl .rfl
  next => exact .of_tasks_eq rfl .rfl

/-- `breakOff` makes the turn of a task whose stage breaks off. -/
theorem turns_breakOff (s : Scheduler β η) (r : TaskRef) (p : Payload) :
    Turns s (.event (.breakOff r p)) (s.breakOff r p) := by
  unfold breakOff
  split
  next t ht =>
    split
    next hp => exact .of_task ht rfl .rfl (.broke hp _ rfl rfl)
    next => exact .of_tasks_eq rfl .rfl
  next => exact .of_tasks_eq rfl .rfl

/-- `callPipeline` makes the turn of a task whose stage calls a pipeline. -/
theorem turns_callPipeline (s : Scheduler β η) (r : TaskRef) (c : Context) (taskType : String)
    (input : StageInput) :
    Turns s (.event (.callPipeline r c taskType input)) (s.callPipeline r c taskType input) := by
  unfold callPipeline
  split
  next t ht =>
    split
    next hp =>
      split
      next p hfound => exact .of_task ht rfl .rfl (.called hp rfl hfound)
      next => exact .of_tasks_eq rfl .rfl
    next => exact .of_tasks_eq rfl .rfl
  next => exact .of_tasks_eq rfl .rfl

/-- `stopWorker` makes the turn of a task that finishes. -/
theorem turns_stopWorker (s : Scheduler β η) (r : TaskRef) :
    Turns s (.event (.stepTask r)) (s.stopWorker r) := by
  unfold stopWorker
  split
  next t ht =>
    split
    next o hp =>
      have htasks : (s.tasks.modify r fun t =>
            if t.status = .running then { t with status := .done } else t).modify r
              (fun t => { t with phase := .finishing o true }) =
          s.tasks.modify r fun t =>
            { t with
              status := if t.status = .running then .done else t.status
              phase := .finishing o true } := by
        rw [List.modify_modify_eq]
        congr 1
        funext t
        simp only [Function.comp_apply]
        split <;> rfl
      exact .of_task ht htasks .rfl (.stop hp rfl)
    next => exact .of_tasks_eq rfl .rfl
  next => exact .of_tasks_eq rfl .rfl

/-- `countStop` makes the turn of a finished task that is no longer counted. -/
theorem turns_countStop (s : Scheduler β η) (r : TaskRef) :
    Turns s (.event (.stepTask r)) (s.countStop r) := by
  unfold countStop
  split
  next t ht =>
    split
    next hp => exact .of_task ht rfl .rfl (.countStop hp rfl)
    next hp => exact .of_task ht rfl .rfl (.gaugeStop hp rfl)
    next => exact .of_tasks_eq rfl .rfl
  next => exact .of_tasks_eq rfl .rfl

/-- `recordOutcome` makes the turn of a task whose outcome is recorded. -/
theorem turns_recordOutcome (s : Scheduler β η) (r : TaskRef) :
    Turns s (.event (.stepTask r)) (s.recordOutcome r) := by
  unfold recordOutcome
  split
  next t ht =>
    split
    next o hp => exact .of_task ht rfl .rfl (.record hp rfl)
    next => exact .of_tasks_eq rfl .rfl
  next => exact .of_tasks_eq rfl .rfl

/-- `sendReport` makes the turn of a task whose report is handed over. -/
theorem turns_sendReport [TaskQueue β] (s : Scheduler β η) (r : TaskRef) (wall : Timestamp) :
    Turns s (.event (.report r wall)) (s.sendReport r wall) := by
  unfold sendReport
  split
  next t ht =>
    split
    next report hp => exact .of_task ht rfl .rfl (.report hp rfl)
    next => exact .of_tasks_eq rfl .rfl
  next => exact .of_tasks_eq rfl .rfl

/-- `releaseTask` marks the task as released and leaves the other tasks. -/
theorem tasks_releaseTask {t : Task η} (ht : s.task? r = some t) :
    (s.releaseTask r).2.tasks = s.tasks.modify r fun t => { t with released := true } :=
  congrArg Core.tasks (core_releaseTask ht)

/-- `endTask` makes the turn of a reported task that is released. -/
theorem turns_endTask (s : Scheduler β η) (r : TaskRef) :
    Turns s (.event (.stepTask r)) (s.endTask r) := by
  unfold endTask
  split
  next t ht =>
    split
    next hp =>
      have htasks : ((s.releaseTask r).2.setPhase r .ended).tasks =
          s.tasks.modify r fun t => { t with released := true, phase := .ended } := by
        simp only [setPhase, modifyTask, tasks_releaseTask ht, List.modify_modify_eq]
        rfl
      exact .of_task ht htasks (s.grows_releaseTask r) (.release hp rfl)
    next => exact .of_tasks_eq rfl .rfl
  next => exact .of_tasks_eq rfl .rfl

/-- `stepTask` makes one of its turns of every task. -/
theorem turns_stepTask (s : Scheduler β η) (r : TaskRef) :
    Turns s (.event (.stepTask r)) (s.stepTask r) := by
  unfold stepTask
  split
  next t ht =>
    split
    next => exact s.turns_armWorker r
    next => exact s.turns_startWorker r
    next => exact s.turns_countStart r
    next => exact s.turns_lookUpPipeline r
    next => exact s.turns_enterStage r
    next => exact s.turns_stopWorker r
    next => exact s.turns_countStop r
    next => exact s.turns_recordOutcome r
    next => exact s.turns_endTask r
    next => exact .of_tasks_eq rfl .rfl
  next => exact .of_tasks_eq rfl .rfl

/-! ### Cancelations -/

/-- `cancelTask` makes the turn of a task that is canceled in one piece. -/
theorem turns_cancelTask (s : Scheduler β η) {m : Move η} {r : TaskRef}
    (hm : m = .event (.cancelTask r) ∨
      ∃ id wall, m = .event (.cancel id wall) ∧ s.registry.get? id = some r) :
    Turns s m (s.cancelTask r) := by
  unfold cancelTask
  split
  next => exact .of_tasks_eq rfl .rfl
  next t ht =>
    split
    next => exact .of_tasks_eq rfl .rfl
    next hs =>
      have hlist : s.tasks[r]? = some t := ht
      have hmarked : (s.modifyTask r fun t => { t with status := .canceled }).task? r =
          some { t with status := .canceled } := by
        simp [task?, modifyTask, hlist]
      have htasks :
          ((s.modifyTask r fun t => { t with status := .canceled }).releaseTask r).2.tasks =
          s.tasks.modify r fun t => { t with status := .canceled, released := true } := by
        rw [tasks_releaseTask hmarked, modifyTask, List.modify_modify_eq]
        rfl
      have htree := (s.modifyTask r fun t => { t with status := .canceled }).grows_releaseTask r
      exact .of_task ht htasks htree (.cancel hm (Bool.eq_false_iff.2 hs))

/-- `markCanceled` makes the turn of a task that is marked as canceled. -/
theorem turns_markCanceled (s : Scheduler β η) (r : TaskRef) :
    Turns s (.markCanceled r) (s.markCanceled r) := by
  refine .of_modify rfl .rfl fun t ht => ?_
  split
  next => exact .same
  next hs => exact .mark rfl (Bool.eq_false_iff.2 hs)

/-- `dropCanceled` makes the turn of a marked task that is released. -/
theorem turns_dropCanceled (s : Scheduler β η) (r : TaskRef) :
    Turns s (.dropCanceled r) (s.dropCanceled r) := by
  unfold dropCanceled
  split
  next hcanceled =>
    obtain ⟨t, ht, hs⟩ := (Option.any_eq_true _ _).1 hcanceled
    exact .of_task ht (tasks_releaseTask ht) (s.grows_releaseTask r)
      (.drop rfl (of_decide_eq_true hs))
  next => exact .of_tasks_eq rfl .rfl

/-- `cancel` makes one of its turns of every task. -/
theorem turns_cancel [TaskQueue β] (s : Scheduler β η) (id : String) (wall : Timestamp) :
    Turns s (.event (.cancel id wall)) (s.cancel id wall).2 := by
  unfold cancel
  split
  next r hr =>
    have hturns := s.turns_cancelTask (.inr ⟨id, wall, rfl, hr⟩)
    dsimp only
    split
    next => exact hturns
    next => exact hturns
  next => exact .of_tasks_eq rfl .rfl

/-! ### All moves -/

/-- Every move makes `Turns`, where the tasks are `Tracked`. -/
theorem turns_move [TaskQueue β] (htracked : Tracked s.tasks s.runs) (m : Move η) :
    Turns s m (s.move m) := by
  cases m with
  | event e =>
    cases e with
    | pass span => exact .of_tasks_eq rfl .rfl
    | fireTimer => exact .of_tasks_eq rfl (s.contexts.grows_fireDue [] _)
    | background => exact .of_tasks_eq rfl s.contexts.tree.grows_addRoot
    | derive parent timeout => exact .of_tasks_eq rfl (s.contexts.grows_childOf parent timeout)
    | cancelToken k => exact .of_tasks_eq rfl (s.contexts.tree.grows_cancel k)
    | callRun => exact s.turns_callRun _
    | ping i => exact s.turns_answerPing _ i _
    | shutDown i => exact .of_tasks_eq rfl .rfl
    | stepPop i => exact turns_stepPop htracked _ i
    | pop i wall => exact s.turns_popQueue _ i wall
    | stepDispatch i => exact turns_stepDispatch htracked _ i
    | stepTask r => exact s.turns_stepTask r
    | report r wall => exact s.turns_sendReport r wall
    | returnFromStage r o => exact s.turns_returnFromStage r o
    | breakOff r p => exact s.turns_breakOff r p
    | callPipeline r c taskType input => exact s.turns_callPipeline r c taskType input
    | cancelTask r => exact s.turns_cancelTask (.inl rfl)
    | cancel id wall => exact s.turns_cancel id wall
    | push taskType data timeout priority =>
      change Turns s _ (s.push taskType data timeout priority).2
      unfold push
      split <;> exact .of_tasks_eq rfl .rfl
    | register taskType stage => exact .of_tasks_eq rfl .rfl
  | markCanceled r => exact s.turns_markCanceled r
  | dropCanceled r => exact s.turns_dropCanceled r
  | cancelQueued id wall => exact .of_tasks_eq rfl .rfl

end Scheduler

end TaskScheduler
