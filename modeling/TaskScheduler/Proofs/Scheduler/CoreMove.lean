import TaskScheduler.Proofs.Scheduler.Core

/-!
# Every step is a step of the core

`core_move` puts every step of a scheduler, halves of cancelations included, among the steps that
`Core.Step` lists.  There is one lemma for each step function of the scheduler; where such a
function changes a task twice, the two changes are first made one.
-/

namespace TaskScheduler

variable {β η : Type}

/-! ### Changing one element of a list -/

/-- `List.modify` depends only on the value of the change at the element that is there. -/
theorem modify_congr {α : Type} {l : List α} {i : Nat} {a : α} {f g : α → α} (h : l[i]? = some a)
    (hfg : f a = g a) : l.modify i f = l.modify i g := by
  apply List.ext_getElem?
  intro j
  rw [List.getElem?_modify, List.getElem?_modify]
  by_cases hij : i = j
  · subst hij
    simp [h, hfg]
  · simp [hij]

/-- `List.modify` at a place without an element changes nothing. -/
theorem modify_eq_self_of_none {α : Type} {l : List α} {i : Nat} (f : α → α) (h : l[i]? = none) :
    l.modify i f = l := by
  apply List.ext_getElem?
  intro j
  rw [List.getElem?_modify]
  by_cases hij : i = j
  · subst hij
    simp [h]
  · simp [hij]

namespace Core

variable {c : Core β η} {r : TaskRef}

/-- `modifyTask` depends only on the value of the change at the task that is there. -/
theorem modifyTask_congr {t : Task η} {f g : Task η → Task η} (h : c.tasks[r]? = some t)
    (hfg : f t = g t) : c.modifyTask r f = c.modifyTask r g := by
  unfold modifyTask
  rw [modify_congr h hfg]

/-- `modifyTask` with a change that leaves the task that is there alone changes nothing. -/
theorem modifyTask_eq_self {f : Task η → Task η} (h : ∀ t, c.tasks[r]? = some t → f t = t) :
    c.modifyTask r f = c := by
  unfold modifyTask
  cases ht : c.tasks[r]? with
  | none => rw [modify_eq_self_of_none f ht]
  | some t =>
    have hid : c.tasks.modify r f = c.tasks.modify r id := modify_congr ht (h t ht)
    rw [hid, List.modify_id]

/-- Two changes of a task by `modifyTask` are one. -/
@[simp] theorem modifyTask_modifyTask (c : Core β η) (r : TaskRef) (f g : Task η → Task η) :
    (c.modifyTask r f).modifyTask r g = c.modifyTask r (g ∘ f) := by
  unfold modifyTask
  rw [List.modify_modify_eq]

end Core

namespace Scheduler

variable {s : Scheduler β η} {r : TaskRef} {i : Nat}

/-! ### The core of a changed scheduler -/

@[simp] theorem core_modifyTask (s : Scheduler β η) (r : TaskRef) (f : Task η → Task η) :
    (s.modifyTask r f).core = s.core.modifyTask r f := rfl

@[simp] theorem core_setPhase (s : Scheduler β η) (r : TaskRef) (p : Phase η) :
    (s.setPhase r p).core = s.core.modifyTask r fun t => { t with phase := p } := rfl

@[simp] theorem core_setLoops (s : Scheduler β η) (i : Nat) (l : Loops) :
    (s.setLoops i l).core = s.core.setLoops i l := rfl

@[simp] theorem core_setRunPhase (s : Scheduler β η) (i : Nat) (p : RunPhase) :
    (s.setRunPhase i p).core = s.core.setRunPhase i p := rfl

@[simp] theorem core_measure (s : Scheduler β η) (f : Metrics → Metrics) :
    (s.measure f).core = s.core := rfl

@[simp] theorem core_cancelToken (s : Scheduler β η) (k : TokenId) :
    (s.cancelToken k).core = s.core := rfl

@[simp] theorem task?_eq (s : Scheduler β η) (r : TaskRef) : s.task? r = s.core.tasks[r]? := rfl

/-- A run whose `loops?` are at work has them and the wish to stop that is known of it. -/
theorem runs_of_loops? {l : Loops} (h : s.loops? i = some l) :
    s.core.runs[i]? = some ⟨.looping l, s.isShutdown i⟩ := by
  unfold loops? at h
  split at h
  next l' b hrun =>
    obtain rfl : l' = l := Option.some.inj h
    have hb : s.isShutdown i = b := by simp [isShutdown, hrun]
    rw [hb]
    exact hrun
  next => exact absurd h (by simp)

/-- `dispatchTask` changes at most the phase of a task. -/
theorem core_dispatchTask (s : Scheduler β η) (r : TaskRef) :
    (∃ t, s.task? r = some t ∧ t.status = .init ∧
      s.dispatchTask r = (true, s.setPhase r .spawned)) ∨
    ((∀ t, s.task? r = some t → t.status ≠ .init) ∧
      (s.dispatchTask r).1 = false ∧
      (s.dispatchTask r).2.core =
        s.core.modifyTask r fun t => { t with phase := .completing (.error .canceled) }) := by
  unfold dispatchTask
  cases ht : s.task? r with
  | none =>
    refine Or.inr ⟨by simp, rfl, ?_⟩
    simp only [Core.modifyTask]
    rw [modify_eq_self_of_none _ (by simpa using ht)]
  | some t =>
    by_cases hs : t.status = .init
    · exact Or.inl ⟨t, rfl, hs, if_pos hs⟩
    · refine Or.inr ⟨?_, ?_⟩
      · intro t' ht'
        obtain rfl := Option.some.inj ht'
        exact hs
      · simp [hs]

/-- `armTask` gives a task a token only if it has none: the first one counts. -/
theorem core_armTask (s : Scheduler β η) (r : TaskRef) (k : TokenId) :
    (s.armTask r k).core =
      s.core.modifyTask r fun t => { t with token := t.token.or (some k) } := by
  unfold armTask
  cases ht : s.task? r with
  | none =>
    rw [Core.modifyTask_eq_self]
    intro t ht'
    rw [← task?_eq, ht] at ht'
    exact absurd ht' (by simp)
  | some t =>
    have ht' : s.core.tasks[r]? = some t := ht
    dsimp only
    cases htoken : t.token with
    | none =>
      have hfirst : s.core.modifyTask r (fun t => { t with token := some k }) =
          s.core.modifyTask r fun t => { t with token := t.token.or (some k) } :=
        Core.modifyTask_congr ht' (by simp [htoken])
      rw [← hfirst]
      simp only [Option.isSome_none, Bool.false_eq_true, if_false]
      split <;> rfl
    | some k' =>
      rw [Core.modifyTask_eq_self]
      · rfl
      · intro t' ht''
        obtain rfl : t = t' := by simpa [ht'] using ht''
        have hor : t.token.or (some k) = t.token := by simp [htoken]
        simp only [hor]

/-- `releaseTask` marks the task as released and takes it out of the registry. -/
theorem core_releaseTask {t : Task η} (ht : s.task? r = some t) :
    (s.releaseTask r).2.core =
      { s.core.modifyTask r (fun t => { t with released := true }) with
        registry := if !t.released && t.registered then s.core.registry.erase t.id
          else s.core.registry } := by
  have ht' : s.core.tasks[r]? = some t := ht
  unfold releaseTask
  rw [ht]
  dsimp only
  cases hreleased : t.released with
  | true =>
    have hself : s.core.modifyTask r (fun t => { t with released := true }) = s.core := by
      apply Core.modifyTask_eq_self
      intro t' ht''
      obtain rfl : t = t' := by simpa [ht'] using ht''
      simp [← hreleased]
    rw [hself]
    rfl
  | false =>
    cases hregistered : t.registered <;> cases t.token <;> rfl

variable [TaskQueue β]

/-! ### Starting and stopping a run -/

/-- `callRun`, a call for a run, is a step of the core. -/
theorem core_callRun (s : Scheduler β η) : Core.Step s.config.waitBuffer s.core s.callRun.core := by
  unfold callRun
  split
  next e _ => exact .refuse (.config e)
  next =>
    split
    next => exact .refuse .alreadyRunning
    next h =>
      have hidle : s.core.active = false := Bool.eq_false_iff.2 h
      exact .begin hidle

/-- `answerPing`, the answer to the question whether the queue is there, is a step of the core. -/
theorem core_answerPing (s : Scheduler β η) (i : Nat) (answer : Except QueueError Unit) :
    Core.Step s.config.waitBuffer s.core (s.answerPing i answer).core := by
  unfold answerPing
  split
  next b hrun =>
    cases answer with
    | error e => exact .fail hrun (.backendUnavailable e)
    | ok =>
      dsimp only
      split
      next hc => exact .loop hrun hc
      next hc => exact .breakOff hrun (Nat.lt_of_not_le hc)
  next => exact .idle

/-! ### Popping -/

/-- `popQueue`, with which a loop asks the queue for a task, is a step of the core. -/
theorem core_popQueue (s : Scheduler β η) (i : Nat) (wall : Timestamp) :
    Core.Step s.config.waitBuffer s.core (s.popQueue i wall).core := by
  unfold popQueue
  split
  next l hl =>
    have hl' : s.core.loops? i = some l := hl
    split
    next hp =>
      have hpop : ∀ answer queue, (TaskQueue.pop s.queue wall) = (answer, queue) →
          Core.Step s.config.waitBuffer s.core
            (({ s with queue := queue }).answerPop i answer).core := by
        intro answer queue heq
        have hqueue : (TaskQueue.pop s.core.queue wall).2 = queue := congrArg Prod.snd heq
        have hanswer : (TaskQueue.pop s.core.queue wall).1 = answer := congrArg Prod.fst heq
        have hloops : ({ s with queue := queue }).loops? i = some l := hl
        subst hqueue
        unfold answerPop
        rw [hloops]
        dsimp only
        rw [hp]
        cases answer with
        | error e => exact .unpopped hl' hp hanswer _
        | ok p => exact .popped hl' hp hanswer s.now
      exact hpop _ _ rfl
    next => exact .idle
  next => exact .idle

/-- `takeIn`, with which a loop takes in a popped task, is a step of the core. -/
theorem core_takeIn {l : Loops} (hl : s.loops? i = some l) (hp : l.pop = .holding r) :
    Core.Step s.config.waitBuffer s.core (s.takeIn i l r).core := by
  have hl' : s.core.loops? i = some l := hl
  unfold takeIn
  split
  next => exact .idle
  next t ht =>
    have ht' : s.core.tasks[r]? = some t := ht
    split
    next hn =>
      have hn' : s.core.registry.contains t.id = true := hn
      exact .reject hl' hp ht' hn' s.now
    next hn =>
      have hn' : s.core.registry.contains t.id = false := Bool.eq_false_iff.2 hn
      exact .enroll hl' hp ht' hn' s.now

/-! ### Dispatching -/

/-- A loop that gives the task it holds to `dispatchTask` takes a step of the core. -/
theorem core_handOver {l l' l'' : Loops} (hl : s.loops? i = some l)
    (hd : Core.HandOver l r l' l'') :
    Core.Step s.config.waitBuffer s.core
      ((s.dispatchTask r).2.setLoops i (if (s.dispatchTask r).1 then l' else l'')).core := by
  have hl' : s.core.loops? i = some l := hl
  obtain ⟨t, ht, hs, hgiven⟩ | ⟨hs, hkept, hcore⟩ := s.core_dispatchTask r
  · rw [hgiven]
    exact .spawn hl' hd ht hs
  · rw [core_setLoops, hcore, hkept]
    exact .skip hl' hd hs

/-- A step of the popping loop by `stepPop` is a step of the core. -/
theorem core_stepPop (s : Scheduler β η) (i : Nat) :
    Core.Step s.config.waitBuffer s.core (s.stepPop i).core := by
  unfold stepPop
  cases hl : s.loops? i with
  | none => exact .idle
  | some l =>
    have hl' : s.core.loops? i = some l := hl
    have hrun := runs_of_loops? hl
    dsimp only
    cases hp : l.pop with
    | checking =>
      cases hs : s.isShutdown i with
      | false => exact .loops hrun (.ask hp hs)
      | true => exact .loops hrun (.quit hp hs)
    | asking => exact .idle
    | holding r => exact core_takeIn hl hp
    | rejecting r =>
      dsimp only
      split
      next he => exact .loops hrun (.rejected hp he)
      next => exact .idle
    | sending r =>
      dsimp only
      split
      next hc => exact .take hl' (.refused hp hc)
      next hc =>
        split
        next hlen => exact .loops hrun (.send hp (by simpa using hc) hlen)
        next => exact .idle
    | passing r =>
      have hstep := core_handOver hl (.pop hp)
      dsimp only
      split
      next s' hgiven => simpa [hgiven] using hstep
      next s' hkept => simpa [hkept] using hstep
    | skipping r =>
      dsimp only
      split
      next he => exact .loops hrun (.skipped hp he)
      next => exact .idle
    | resting w =>
      dsimp only
      split
      next => exact .loops hrun (.wake hp)
      next => exact .idle
    | ended => exact .idle

/-- A step of the dispatching loop by `stepDispatch` is a step of the core. -/
theorem core_stepDispatch (s : Scheduler β η) (i : Nat) :
    Core.Step s.config.waitBuffer s.core (s.stepDispatch i).core := by
  unfold stepDispatch
  cases hl : s.loops? i with
  | none => exact .idle
  | some l =>
    have hl' : s.core.loops? i = some l := hl
    have hrun := runs_of_loops? hl
    dsimp only
    cases hd : l.dispatch with
    | receiving =>
      dsimp only
      split
      next hs => exact .loops hrun (.close hd hs)
      next =>
        split
        next => exact .idle
        next r rest hb => exact .take hl' (.received hb (.inl hd))
    | passing r =>
      have hstep := core_handOver hl (.dispatch hd)
      dsimp only
      split
      next s' hgiven => simpa [hgiven] using hstep
      next s' hkept => simpa [hkept] using hstep
    | skipping r =>
      dsimp only
      split
      next he => exact .loops hrun (.passedOver hd he)
      next => exact .idle
    | closing =>
      dsimp only
      split
      next hp => exact .loops hrun (.empty hd hp)
      next => exact .idle
    | emptying =>
      dsimp only
      split
      next hb => exact .loops hrun (.drain hd hb)
      next r rest hb => exact .take hl' (.received hb (.inr hd))
    | draining =>
      dsimp only
      split
      next hr => exact .finish hl' hd hr
      next hr =>
        have hleft : s.core.registry.isEmpty = false := Bool.eq_false_iff.2 hr
        exact .loops hrun (.await hd hleft _)
    | resting w =>
      dsimp only
      split
      next => exact .loops hrun (.again hd)
      next => exact .idle

/-! ### Workers and completions -/

/-- Replacing a task that its worker has by one that has worked, in the sense of `Task.Works`, is a
step of the core. -/
theorem core_step_of_works {t : Task η} (ht : s.task? r = some t) (f : Task η → Task η)
    (hw : t.Works (f t)) : Core.Step s.config.waitBuffer s.core (s.core.modifyTask r f) := by
  have ht' : s.core.tasks[r]? = some t := ht
  have hmodify : s.core.modifyTask r f = s.core.modifyTask r fun _ => f t :=
    Core.modifyTask_congr ht' rfl
  rw [hmodify]
  exact .work ht' hw

/-- `armWorker`, which makes the context of a run, is a step of the core. -/
theorem core_armWorker (s : Scheduler β η) (r : TaskRef) :
    Core.Step s.config.waitBuffer s.core (s.armWorker r).core := by
  unfold armWorker
  split
  next t ht =>
    split
    next hp =>
      generalize s.contexts.childOf baseToken t.popped.timeout = made
      obtain ⟨c, contexts⟩ := made
      have hcore : ((({ s with contexts := contexts }).armTask r c.token).setPhase r
            (.armed c)).core =
          s.core.modifyTask r fun t =>
            { t with token := t.token.or (some c.token), phase := .armed c } := by
        rw [core_setPhase, core_armTask, Core.modifyTask_modifyTask]
        rfl
      dsimp only
      rw [hcore]
      exact core_step_of_works ht _ (.arm c c.token hp)
    next => exact .idle
  next => exact .idle

/-- `startWorker`, which starts a task or finds it canceled, is a step of the core. -/
theorem core_startWorker (s : Scheduler β η) (r : TaskRef) :
    Core.Step s.config.waitBuffer s.core (s.startWorker r).core := by
  unfold startWorker
  split
  next t ht =>
    split
    next c hp =>
      unfold startTask
      rw [ht]
      dsimp only
      by_cases hs : t.status = .init
      · rw [if_pos hs]
        have hcore : (s.core.modifyTask r fun t => { t with status := .running }).modifyTask r
              (fun t => { t with phase := .starting c false }) =
            s.core.modifyTask r fun t =>
              { t with status := .running, phase := .starting c false } :=
          Core.modifyTask_modifyTask ..
        have hstep := core_step_of_works ht
          (fun t => { t with status := .running, phase := .starting c false }) (.start hp hs)
        rw [← hcore] at hstep
        exact hstep
      · rw [if_neg hs]
        exact core_step_of_works ht (fun t => { t with phase := .completing (.error .canceled) })
          (.skip hp hs)
    next => exact .idle
  next => exact .idle

/-- `countStart`, which counts a started task, is a step of the core. -/
theorem core_countStart (s : Scheduler β η) (r : TaskRef) :
    Core.Step s.config.waitBuffer s.core (s.countStart r).core := by
  unfold countStart
  split
  next t ht =>
    split
    next c hp =>
      exact core_step_of_works ht (fun t => { t with phase := .starting c true }) (.countStart hp)
    next c hp =>
      exact core_step_of_works ht (fun t => { t with phase := .started c }) (.gaugeStart hp)
    next => exact .idle
  next => exact .idle

/-- `lookUpPipeline` is a step of the core. -/
theorem core_lookUpPipeline (s : Scheduler β η) (r : TaskRef) :
    Core.Step s.config.waitBuffer s.core (s.lookUpPipeline r).core := by
  unfold lookUpPipeline
  split
  next t ht =>
    split
    next c hp =>
      split
      next p _ =>
        exact core_step_of_works ht
          (fun t => { t with phase := .running ⟨c, p, .first, none, none⟩ [] })
          (.lookUp hp _)
      next =>
        exact core_step_of_works ht
          (fun t' => { t' with phase := .stopping (.error (.noPipeline t.taskType)) }) (.lack hp _)
    next => exact .idle
  next => exact .idle

/-- Leaving a pass by `leavePipeline` is work in the sense of `Task.Works`. -/
theorem works_leavePipeline {t : Task η} {top : Frame η} {callers : List (Frame η)}
    (hp : t.phase = .running top callers) (o : Outcome) :
    t.Works { t with phase := leavePipeline o callers } := by
  cases callers with
  | nil => exact .leave hp o
  | cons f callers => exact .pass hp t.path { f with called := some o } callers

/-- `enterStage`, which enters a stage or leaves the pipeline, is a step of the core. -/
theorem core_enterStage (s : Scheduler β η) (r : TaskRef) :
    Core.Step s.config.waitBuffer s.core (s.enterStage r).core := by
  unfold enterStage
  split
  next t ht =>
    split
    next c rest input called callers hp =>
      split
      next =>
        exact core_step_of_works ht
          (fun t => { t with phase := leavePipeline (.ok input.result) callers })
          (works_leavePipeline hp _)
      next stage rest =>
        split
        next e _ =>
          exact core_step_of_works ht
            (fun t => { t with phase := leavePipeline (.error e) callers })
            (works_leavePipeline hp _)
        next =>
          exact core_step_of_works ht
            (fun t => { t with
              path := t.path ++ [stage.name]
              phase := .running ⟨c, rest, input, some stage, none⟩ callers })
            (.pass hp _ _ _)
    next => exact .idle
  next => exact .idle

/-- `returnFromStage` is a step of the core, whatever the stage returns. -/
theorem core_returnFromStage (s : Scheduler β η) (r : TaskRef) (o : Outcome) :
    Core.Step s.config.waitBuffer s.core (s.returnFromStage r o).core := by
  unfold returnFromStage
  split
  next t ht =>
    split
    next c rest _ _ _ callers hp =>
      cases o with
      | ok v =>
        exact core_step_of_works ht
          (fun t => { t with phase := .running ⟨c, rest, .value v, none, none⟩ callers })
          (.pass hp t.path _ _)
      | error e =>
        exact core_step_of_works ht (fun t => { t with phase := leavePipeline (.error e) callers })
          (works_leavePipeline hp _)
    next => exact .idle
  next => exact .idle

/-- `breakOff`, with which a stage breaks off, is a step of the core. -/
theorem core_breakOff (s : Scheduler β η) (r : TaskRef) (p : Payload) :
    Core.Step s.config.waitBuffer s.core (s.breakOff r p).core := by
  unfold breakOff
  split
  next t ht =>
    split
    next hp =>
      exact core_step_of_works ht
        (fun t' => { t' with phase := .stopping (.error (.unexpected p.message t.path)) })
        (.leave hp _)
    next => exact .idle
  next => exact .idle

/-- `callPipeline`, with which a stage calls a pipeline, is a step of the core. -/
theorem core_callPipeline (s : Scheduler β η) (r : TaskRef) (c : Context) (taskType : String)
    (input : StageInput) :
    Core.Step s.config.waitBuffer s.core (s.callPipeline r c taskType input).core := by
  unfold callPipeline
  split
  next t ht =>
    split
    next c' rest input' stage _ callers hp =>
      split
      next p _ =>
        exact core_step_of_works ht
          (fun t => { t with
            phase := .running ⟨c, p, input, none, none⟩
              (⟨c', rest, input', some stage, none⟩ :: callers) })
          (.pass hp t.path _ _)
      next => exact .idle
    next => exact .idle
  next => exact .idle

/-- `stopWorker`, which finishes a task, is a step of the core. -/
theorem core_stopWorker (s : Scheduler β η) (r : TaskRef) :
    Core.Step s.config.waitBuffer s.core (s.stopWorker r).core := by
  unfold stopWorker
  split
  next t ht =>
    split
    next o hp =>
      have hcore : (s.core.modifyTask r fun t =>
            if t.status = .running then { t with status := .done } else t).modifyTask r
              (fun t => { t with phase := .finishing o true }) =
          s.core.modifyTask r fun t =>
            { t with
              status := if t.status = .running then .done else t.status
              phase := .finishing o true } := by
        rw [Core.modifyTask_modifyTask]
        congr 1
        funext t
        simp only [Function.comp_apply]
        split <;> rfl
      have hstep := core_step_of_works ht
        (fun t => { t with
          status := if t.status = .running then .done else t.status
          phase := .finishing o true }) (.stop hp)
      rw [← hcore] at hstep
      exact hstep
    next => exact .idle
  next => exact .idle

/-- `countStop`, after which a finished task is not counted any more, is a step of the core. -/
theorem core_countStop (s : Scheduler β η) (r : TaskRef) :
    Core.Step s.config.waitBuffer s.core (s.countStop r).core := by
  unfold countStop
  split
  next t ht =>
    split
    next o hp =>
      exact core_step_of_works ht (fun t => { t with phase := .finishing o false }) (.countStop hp)
    next o hp =>
      exact core_step_of_works ht (fun t => { t with phase := .completing o }) (.gaugeStop hp)
    next => exact .idle
  next => exact .idle

/-- `recordOutcome`, which counts an outcome, is a step of the core. -/
theorem core_recordOutcome (s : Scheduler β η) (r : TaskRef) :
    Core.Step s.config.waitBuffer s.core (s.recordOutcome r).core := by
  unfold recordOutcome
  split
  next t ht =>
    split
    next o hp =>
      exact core_step_of_works ht
        (fun t' => { t' with
          error := (t.report s.now o).error?.or t'.error
          phase := .reporting (t.report s.now o) })
        (.record hp s.now)
    next => exact .idle
  next => exact .idle

/-! ### Reports, cancelations and releases -/

/-- `sendReport`, which hands a report to the queue, is a step of the core. -/
theorem core_sendReport (s : Scheduler β η) (r : TaskRef) (wall : Timestamp) :
    Core.Step s.config.waitBuffer s.core (s.sendReport r wall).core := by
  unfold sendReport
  split
  next t ht =>
    have ht' : s.core.tasks[r]? = some t := ht
    split
    next report hp => exact .report ht' hp wall
    next => exact .idle
  next => exact .idle

/-- `endTask`, which releases a reported task, is a step of the core. -/
theorem core_endTask (s : Scheduler β η) (r : TaskRef) :
    Core.Step s.config.waitBuffer s.core (s.endTask r).core := by
  unfold endTask
  split
  next t ht =>
    have ht' : s.core.tasks[r]? = some t := ht
    split
    next hp =>
      have hcore : ((s.releaseTask r).2.setPhase r .ended).core =
          { s.core.modifyTask r (fun t => { t with released := true, phase := .ended }) with
            registry := if !t.released && t.registered then s.core.registry.erase t.id
              else s.core.registry } := by
        rw [core_setPhase, core_releaseTask ht]
        simp only [Core.modifyTask, List.modify_modify_eq]
        rfl
      rw [hcore]
      exact .release ht' hp
    next => exact .idle
  next => exact .idle

/-- A step of a worker or of a completion by `stepTask` is a step of the core. -/
theorem core_stepTask (s : Scheduler β η) (r : TaskRef) :
    Core.Step s.config.waitBuffer s.core (s.stepTask r).core := by
  unfold stepTask
  split
  next t ht =>
    split
    next => exact s.core_armWorker r
    next => exact s.core_startWorker r
    next => exact s.core_countStart r
    next => exact s.core_lookUpPipeline r
    next => exact s.core_enterStage r
    next => exact s.core_stopWorker r
    next => exact s.core_countStop r
    next => exact s.core_recordOutcome r
    next => exact s.core_endTask r
    next => exact .idle
  next => exact .idle

/-- `cancelTask`, a cancelation in one piece, is a step of the core. -/
theorem core_cancelTask (s : Scheduler β η) (r : TaskRef) :
    Core.Step s.config.waitBuffer s.core (s.cancelTask r).core := by
  unfold cancelTask
  split
  next => exact .idle
  next t ht =>
    have ht' : s.core.tasks[r]? = some t := ht
    split
    next => exact .idle
    next hs =>
      have hdone : t.status ≠ .done := by
        intro hdone
        rw [hdone] at hs
        exact hs rfl
      have hmarked : (s.modifyTask r fun t => { t with status := .canceled }).task? r =
          some { t with status := .canceled } := by
        simp [Core.modifyTask, ht']
      have hcore : ((s.modifyTask r fun t => { t with status := .canceled }).releaseTask r).2.core =
          { s.core.modifyTask r (fun t =>
              { t with status := .canceled, released := t.released || true }) with
            registry := if true && !t.released && t.registered then s.core.registry.erase t.id
              else s.core.registry } := by
        rw [core_releaseTask hmarked]
        simp only [core_modifyTask, Core.modifyTask, List.modify_modify_eq, Bool.or_true,
          Bool.true_and]
        rfl
      rw [hcore]
      exact .cancel ht' hdone true

/-- `markCanceled`, the first half of a cancelation, is a step of the core. -/
theorem core_markCanceled (s : Scheduler β η) (r : TaskRef) :
    Core.Step s.config.waitBuffer s.core (s.markCanceled r).core := by
  unfold markCanceled
  rw [core_modifyTask]
  cases ht : s.core.tasks[r]? with
  | none =>
    rw [Core.modifyTask_eq_self (by simp [ht])]
    exact .idle
  | some t =>
    cases hs : t.status.isTerminal with
    | true =>
      have hself : s.core.modifyTask r
          (fun t => if t.status.isTerminal then t else { t with status := .canceled }) =
          s.core := by
        apply Core.modifyTask_eq_self
        intro t' ht'
        obtain rfl : t = t' := by simpa [ht] using ht'
        simp [hs]
      rw [hself]
      exact .idle
    | false =>
      have hmark : s.core.modifyTask r
            (fun t => if t.status.isTerminal then t else { t with status := .canceled }) =
          s.core.modifyTask r fun t =>
            { t with status := .canceled, released := t.released || false } :=
        Core.modifyTask_congr ht (by simp [hs])
      have hdone : t.status ≠ .done := by
        intro hdone
        rw [hdone] at hs
        exact absurd hs (by decide)
      rw [hmark]
      exact .cancel ht hdone false

/-- `dropCanceled`, the second half of a cancelation, is a step of the core. -/
theorem core_dropCanceled (s : Scheduler β η) (r : TaskRef) :
    Core.Step s.config.waitBuffer s.core (s.dropCanceled r).core := by
  unfold dropCanceled
  split
  next hcanceled =>
    obtain ⟨t, ht, hs⟩ := (Option.any_eq_true _ _).1 hcanceled
    have ht' : s.core.tasks[r]? = some t := ht
    have hcanceled : t.status = .canceled := of_decide_eq_true hs
    have hdone : t.status ≠ .done := by
      rw [hcanceled]
      decide
    have hrelease : s.core.modifyTask r (fun t => { t with released := true }) =
        s.core.modifyTask r fun t =>
          { t with status := .canceled, released := t.released || true } :=
      Core.modifyTask_congr ht' (by simp [← hcanceled])
    rw [core_releaseTask ht, hrelease]
    exact .cancel ht' hdone true
  next => exact .idle

/-! ### All steps -/

/-- `cancel`, a cancelation by id, is a step of the core. -/
theorem core_cancel (s : Scheduler β η) (id : String) (wall : Timestamp) :
    Core.Step s.config.waitBuffer s.core (s.cancel id wall).2.core := by
  unfold cancel
  split
  next r _ =>
    have hstep := s.core_cancelTask r
    dsimp only
    split
    next => exact hstep
    next => exact hstep
  next => exact .cancelQueued id wall

/-- `push` is a step of the core, whether the type is known or not. -/
theorem core_push (s : Scheduler β η) (taskType : String) (data : Json)
    (timeout : Option Duration) (priority : Option Int64) :
    Core.Step s.config.waitBuffer s.core (s.push taskType data timeout priority).2.core := by
  unfold push
  split
  next => exact .push _ _
  next => exact .idle

/-- Every event is one `Core.Step` of the core. -/
theorem core_step (s : Scheduler β η) (e : Event η) :
    Core.Step s.config.waitBuffer s.core (s.step e).core := by
  cases e with
  | pass span => exact .idle
  | fireTimer => exact .idle
  | background => exact .idle
  | derive parent timeout => exact .idle
  | cancelToken k => exact .idle
  | callRun => exact s.core_callRun
  | ping i => exact s.core_answerPing i (TaskQueue.ping s.queue)
  | shutDown i => exact .shutDown i
  | stepPop i => exact s.core_stepPop i
  | pop i wall => exact s.core_popQueue i wall
  | stepDispatch i => exact s.core_stepDispatch i
  | stepTask r => exact s.core_stepTask r
  | report r wall => exact s.core_sendReport r wall
  | returnFromStage r o => exact s.core_returnFromStage r o
  | breakOff r p => exact s.core_breakOff r p
  | callPipeline r c taskType input => exact s.core_callPipeline r c taskType input
  | cancelTask r => exact s.core_cancelTask r
  | cancel id wall => exact s.core_cancel id wall
  | push taskType data timeout priority => exact s.core_push taskType data timeout priority
  | register taskType stage => exact .idle

/-- Every move is one `Core.Step` of the core. -/
theorem core_move (s : Scheduler β η) (m : Move η) :
    Core.Step s.config.waitBuffer s.core (s.move m).core := by
  cases m with
  | event e => exact s.core_step e
  | markCanceled r => exact s.core_markCanceled r
  | dropCanceled r => exact s.core_dropCanceled r
  | cancelQueued id wall => exact .cancelQueued id wall

end Scheduler

end TaskScheduler
