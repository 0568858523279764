import Mathlib.Data.List.Induction
import TaskScheduler.Proofs.Context.Tokens
import TaskScheduler.Proofs.Scheduler.Reports
import TaskScheduler.Simulation.FaultyQueue

/-!
# The life of one task

Many hands work on one task: its worker starts it, gives it a token and finishes it, its completion
releases it, and whoever holds it may cancel it.  They call in any order, so a task may be released
before it has a token, or canceled after it has finished.

`TaskCall` lists the calls, and `releases` collects what the releases among them have answered,
those that come with a cancelation included.  `TaskEffect` says what a call does to the scheduler by
what it makes of the task alone: the entry in the registry goes when the task comes to be released,
and a token is canceled when the task comes to have one and to be released, whichever is the later.
Effects compose, so a row of calls has the effect of one.
-/

namespace TaskScheduler

variable {β η : Type}

/-! ### Calls -/

/-- A call on a task. -/
inductive TaskCall where
  /-- The worker starts the task. -/
  | start
  /-- The worker finishes it. -/
  | finish
  /-- Somebody cancels it. -/
  | cancel
  /-- The worker gives it a token. -/
  | arm (k : TokenId)
  /-- It is released. -/
  | release
  deriving DecidableEq, Repr

/-- The token that a call brings. -/
def TaskCall.token? : TaskCall → Option TokenId
  | arm k => some k
  | _ => none

/-- The first token that a row of calls brings. -/
def firstToken (calls : List TaskCall) : Option TokenId := calls.findSome? TaskCall.token?

/-- The status after a call. -/
def TaskStatus.after : TaskStatus → TaskCall → TaskStatus
  | .init, .start => .running
  | .running, .finish => .done
  | .init, .cancel => .canceled
  | .running, .cancel => .canceled
  | st, _ => st

/-- A call of `start` leaves every status but `init` as it is. -/
theorem TaskStatus.after_start_of_ne_init {st : TaskStatus} (h : st ≠ .init) :
    st.after .start = st := by
  cases st <;> first | rfl | exact absurd rfl h

/-- A call of `finish` makes a running task done and leaves every other status as it is. -/
theorem TaskStatus.after_finish (st : TaskStatus) :
    st.after .finish = if st = .running then .done else st := by
  cases st <;> rfl

/-- A call of `cancel` makes every status `canceled` that is not final. -/
theorem TaskStatus.after_cancel (st : TaskStatus) :
    st.after .cancel = if st.isTerminal then st else .canceled := by
  cases st <;> rfl

@[simp] theorem TaskStatus.after_arm (st : TaskStatus) (k : TokenId) : st.after (.arm k) = st := by
  cases st <;> rfl

@[simp] theorem TaskStatus.after_release (st : TaskStatus) : st.after .release = st := by
  cases st <;> rfl

/-- How a status may change. -/
inductive TaskStatus.Moves : TaskStatus → TaskStatus → Prop
  /-- The task starts. -/
  | start : Moves .init .running
  /-- It is canceled before it starts. -/
  | cancelWaiting : Moves .init .canceled
  /-- It is canceled while it is running. -/
  | cancelRunning : Moves .running .canceled
  /-- It finishes. -/
  | finish : Moves .running .done

/-- A call leaves the status, or changes it in one of the ways of `TaskStatus.Moves`. -/
theorem TaskStatus.after_eq_or_moves (st : TaskStatus) (c : TaskCall) :
    st.after c = st ∨ st.Moves (st.after c) := by
  cases st <;> cases c <;> simp only [after, true_or] <;> right <;> constructor

/-- After a row of calls the status is `init` still exactly if none of them was `start` or
`cancel`. -/
theorem foldl_after_eq_init_iff (calls : List TaskCall) :
    calls.foldl TaskStatus.after .init = .init ↔ .start ∉ calls ∧ .cancel ∉ calls := by
  induction calls using List.reverseRecOn with
  | nil => simp
  | append_singleton calls c ih =>
    rw [List.foldl_append, List.foldl_cons, List.foldl_nil, List.mem_append, List.mem_append,
      List.mem_singleton, List.mem_singleton]
    generalize calls.foldl TaskStatus.after .init = st at ih ⊢
    cases st <;> cases c <;> simp_all [TaskStatus.after]

namespace Scheduler

/-- The scheduler after a call on a task. -/
def afterCall (s : Scheduler β η) (r : TaskRef) : TaskCall → Scheduler β η
  | .start => (s.startTask r).2
  | .finish => s.finishTask r
  | .cancel => s.cancelTask r
  | .arm k => s.armTask r k
  | .release => (s.releaseTask r).2

/-- The scheduler after a row of calls on a task. -/
def afterCalls (s : Scheduler β η) (r : TaskRef) (calls : List TaskCall) : Scheduler β η :=
  calls.foldl (fun s c => s.afterCall r c) s

/-- What the release answers that a call makes, if it makes one.  A cancelation makes one after it
has marked the task, unless the status was final. -/
def releaseOf (s : Scheduler β η) (r : TaskRef) : TaskCall → Option Bool
  | .release => some (s.releaseTask r).1
  | .cancel =>
    if (s.task? r).any fun t => !t.status.isTerminal then
      some ((s.modifyTask r fun t => { t with status := .canceled }).releaseTask r).1
    else none
  | _ => none

/-- The answers of all releases that a row of calls makes, oldest first. -/
def releases (s : Scheduler β η) (r : TaskRef) : List TaskCall → List Bool
  | [] => []
  | c :: calls => (s.releaseOf r c).toList ++ (s.afterCall r c).releases r calls

/-- The state after a row of calls with one more is that of `afterCall` from where the row ends. -/
theorem afterCalls_concat (s : Scheduler β η) (r : TaskRef) (calls : List TaskCall) (c : TaskCall) :
    s.afterCalls r (calls ++ [c]) = (s.afterCalls r calls).afterCall r c := by
  simp [afterCalls]

/-- The `releases` of a row of calls with one more are those of the row and what the last call
releases. -/
theorem releases_concat (s : Scheduler β η) (r : TaskRef) (calls : List TaskCall) (c : TaskCall) :
    s.releases r (calls ++ [c]) =
      s.releases r calls ++ ((s.afterCalls r calls).releaseOf r c).toList := by
  induction calls generalizing s with
  | nil => simp [releases, afterCalls]
  | cons d calls ih => simp [releases, afterCalls, ih]

end Scheduler

/-! ### Effects -/

/-- The token that a task has canceled. -/
def Task.canceledToken? (t : Task η) : Option TokenId := if t.released then t.token else none

/-- What calls do to a scheduler that make one task out of another: the entry of the task in the
registry goes when it comes to be released, and the token that it comes to cancel is canceled. -/
structure TaskEffect (s s' : Scheduler β η) (r : TaskRef) (t t' : Task η) : Prop where
  /-- The task is there. -/
  here : s.task? r = some t
  /-- No other task changes. -/
  tasks : s'.tasks = s.tasks.modify r fun _ => t'
  /-- The task keeps what was popped. -/
  popped : t'.popped = t.popped
  /-- It stays registered, or not. -/
  registered : t'.registered = t.registered
  /-- It stays released. -/
  released : t.released = true → t'.released = true
  /-- It keeps the token that it has canceled. -/
  canceled : ∀ k, t.canceledToken? = some k → t'.canceledToken? = some k
  /-- The entry in the registry. -/
  registry : s'.registry =
    if t'.released && !t.released && t.registered then s.registry.erase t.id else s.registry
  /-- The tokens. -/
  contexts : s'.contexts =
    match t.canceledToken?, t'.canceledToken? with
    | none, some k => s.contexts.cancel k
    | _, _ => s.contexts

namespace TaskEffect

variable {s s' s'' : Scheduler β η} {r : TaskRef} {t t' t'' : Task η}

/-- After the calls of a `TaskEffect` the task is the new one. -/
theorem task (h : TaskEffect s s' r t t') : s'.task? r = some t' := by
  have hlist : s.tasks[r]? = some t := h.here
  simp [Scheduler.task?, h.tasks, hlist]

/-- After the calls of a `TaskEffect` every other task is as it was. -/
theorem other (h : TaskEffect s s' r t t') {r' : TaskRef} (hne : r ≠ r') :
    s'.task? r' = s.task? r' := by
  simp [Scheduler.task?, h.tasks, hne]

/-- A scheduler that stays as it is has the `TaskEffect` of a task that stays as it is. -/
theorem rfl (ht : s.task? r = some t) : TaskEffect s s r t t where
  here := ht
  tasks := by
    have hlist : s.tasks[r]? = some t := ht
    apply List.ext_getElem?
    intro r'
    rw [List.getElem?_modify]
    by_cases hr : r = r'
    · subst hr
      simp [hlist]
    · simp [hr]
  popped := Eq.refl _
  registered := Eq.refl _
  released := id
  canceled _ := id
  registry := by simp
  contexts := by cases t.canceledToken? <;> simp

/-- The task in a `TaskEffect` may be written in another way. -/
theorem congr (h : TaskEffect s s' r t t') (h' : t' = t'') : TaskEffect s s' r t t'' := h' ▸ h

/-- A change of the status alone, which releases nothing and cancels no token, is a `TaskEffect`. -/
theorem setStatus (ht : s.task? r = some t) {f : Task η → Task η} {st : TaskStatus}
    (hf : f t = { t with status := st }) : TaskEffect s (s.modifyTask r f) r t (f t) where
  here := ht
  tasks := modify_congr ht (Eq.refl _)
  popped := by rw [hf]
  registered := by rw [hf]
  released := by
    rw [hf]
    exact id
  canceled k := by
    rw [hf]
    exact id
  registry := by
    rw [hf]
    simp [Scheduler.modifyTask]
  contexts := by
    have hsame : (f t).canceledToken? = t.canceledToken? := by
      rw [hf]
      exact Eq.refl _
    rw [hsame]
    cases t.canceledToken? <;> simp [Scheduler.modifyTask]

/-- Two instances of `TaskEffect` that follow each other make one. -/
theorem trans (h : TaskEffect s s' r t t') (h' : TaskEffect s' s'' r t' t'') :
    TaskEffect s s'' r t t'' where
  here := h.here
  tasks := by
    rw [h'.tasks, h.tasks, List.modify_modify_eq]
    exact Eq.refl _
  popped := h'.popped.trans h.popped
  registered := h'.registered.trans h.registered
  released := h'.released ∘ h.released
  canceled k := h'.canceled k ∘ h.canceled k
  registry := by
    have hid : t'.id = t.id := congrArg PoppedTask.id h.popped
    have hfirst := h.released
    have hsecond := h'.released
    rw [h'.registry, h.registry, h.registered, hid]
    cases hr : t.registered <;> cases h₀ : t.released <;> cases h₁ : t'.released <;>
      cases h₂ : t''.released <;> simp_all
  contexts := by
    have hfirst := h.canceled
    have hsecond := h'.canceled
    rw [h'.contexts, h.contexts]
    cases h₀ : t.canceledToken? <;> cases h₁ : t'.canceledToken? <;>
      cases h₂ : t''.canceledToken? <;> simp_all

end TaskEffect

namespace Scheduler

variable {s : Scheduler β η} {r : TaskRef} {t : Task η}

/-- `releaseTask` answers that it did the work exactly if the task was not released before. -/
theorem releaseTask_fst (ht : s.task? r = some t) : (s.releaseTask r).1 = !t.released := by
  unfold releaseTask
  rw [ht]
  dsimp only
  cases t.released with
  | true => rfl
  | false =>
    cases t.token <;> rfl

/-- `releaseTask` of a task that was released before changes nothing. -/
theorem releaseTask_of_released (ht : s.task? r = some t) (hr : t.released = true) :
    s.releaseTask r = (false, s) := by
  unfold releaseTask
  rw [ht]
  simp [hr]

/-- The `TaskEffect` of `releaseTask`: the task is released. -/
theorem taskEffect_releaseTask (ht : s.task? r = some t) :
    TaskEffect s (s.releaseTask r).2 r t { t with released := true } := by
  cases hr : t.released with
  | true =>
    have hself : ({ t with released := true } : Task η) = t := by rw [← hr]
    rw [s.releaseTask_of_released ht hr, hself]
    exact .rfl ht
  | false =>
    have hcore := core_releaseTask ht
    refine ⟨ht, (congrArg Core.tasks hcore).trans (modify_congr ht rfl), rfl, rfl, fun _ => rfl, ?_,
      ?_, ?_⟩
    · simp [Task.canceledToken?, hr]
    · have hregistry : (s.releaseTask r).2.registry =
          if !t.released && t.registered then s.registry.erase t.id else s.registry :=
        congrArg Core.registry hcore
      rw [hregistry, hr, Bool.true_and]
    · unfold releaseTask
      rw [ht]
      cases htoken : t.token <;> cases hreg : t.registered <;>
        simp [hr, hreg, Task.canceledToken?, cancelToken, modifyTask, htoken]

/-- The `TaskEffect` of `armTask`: the task has the token if it had none. -/
theorem taskEffect_armTask (ht : s.task? r = some t) (k : TokenId) :
    TaskEffect s (s.armTask r k) r t { t with token := t.token.or (some k) } := by
  cases htoken : t.token with
  | some k' =>
    have hsame : s.armTask r k = s := by
      unfold armTask
      rw [ht]
      simp [htoken]
    have hself : ({ t with token := (some k').or (some k) } : Task η) = t := by
      rw [Option.some_or, ← htoken]
    rw [hsame, hself]
    exact .rfl ht
  | none =>
    have hcore := s.core_armTask r k
    have htasks : (s.armTask r k).tasks =
        s.tasks.modify r fun _ => { t with token := none.or (some k) } :=
      (congrArg Core.tasks hcore).trans (modify_congr ht (by rw [htoken]))
    refine ⟨ht, htasks, rfl, rfl, id, ?_, ?_, ?_⟩
    · simp [Task.canceledToken?, htoken]
    · have hregistry := congrArg Core.registry hcore
      have hkept : (s.armTask r k).registry = s.registry := hregistry
      simp [hkept]
    · unfold armTask
      rw [ht]
      cases hr : t.released <;> simp [htoken, hr, Task.canceledToken?, cancelToken, modifyTask]

/-- The `TaskEffect` of `startTask`: none where the task does not wait for its start. -/
theorem taskEffect_startTask (ht : s.task? r = some t) :
    TaskEffect s (s.startTask r).2 r t { t with status := t.status.after .start } := by
  unfold startTask
  rw [ht]
  dsimp only
  split
  next hinit =>
    refine (TaskEffect.setStatus ht rfl).congr ?_
    rw [hinit]
    rfl
  next hstarted =>
    refine (TaskEffect.rfl ht).congr ?_
    rw [TaskStatus.after_start_of_ne_init hstarted]

/-- The `TaskEffect` of `finishTask`: none where the task is not running. -/
theorem taskEffect_finishTask (ht : s.task? r = some t) :
    TaskEffect s (s.finishTask r) r t { t with status := t.status.after .finish } := by
  let finish (t : Task η) : Task η := if t.status = .running then { t with status := .done } else t
  have hstatus : finish t = { t with status := t.status.after .finish } := by
    rw [TaskStatus.after_finish]
    dsimp only [finish]
    split <;> rfl
  exact (TaskEffect.setStatus (f := finish) ht hstatus).congr hstatus

/-- The `TaskEffect` of marking a task as canceled. -/
theorem taskEffect_mark (ht : s.task? r = some t) :
    TaskEffect s (s.modifyTask r fun t => { t with status := .canceled }) r t
      { t with status := .canceled } :=
  .setStatus ht rfl

/-- The `TaskEffect` of `cancelTask`: none where the status is final, and else that of a release
after the task is marked. -/
theorem taskEffect_cancelTask (ht : s.task? r = some t) :
    TaskEffect s (s.cancelTask r) r t { t with
      status := t.status.after .cancel
      released := t.released || !t.status.isTerminal } := by
  unfold cancelTask
  rw [ht]
  dsimp only
  split
  next hfinal =>
    refine (TaskEffect.rfl ht).congr ?_
    rw [TaskStatus.after_cancel, if_pos hfinal, hfinal, Bool.not_true, Bool.or_false]
  next hopen =>
    have hmark := taskEffect_mark ht
    refine (hmark.trans (taskEffect_releaseTask hmark.task)).congr ?_
    rw [TaskStatus.after_cancel, if_neg hopen, Bool.eq_false_iff.2 hopen, Bool.not_false,
      Bool.or_true]

/-- What the release of a call answers by `releaseOf`, if the call makes one. -/
theorem releaseOf_eq (ht : s.task? r = some t) (c : TaskCall) :
    s.releaseOf r c =
      if c = .release ∨ c = .cancel ∧ t.status.isTerminal = false then some (!t.released)
      else none := by
  cases c with
  | release => simp only [releaseOf, releaseTask_fst ht, true_or, if_true]
  | cancel =>
    rw [releaseOf, ht, releaseTask_fst (taskEffect_mark ht).task]
    simp only [Option.any_some, Bool.not_eq_true', reduceCtorEq, true_and, false_or]
  | start | finish | arm => simp only [releaseOf, reduceCtorEq, false_and, or_self, if_false]

/-- The `TaskEffect` of any call. -/
theorem taskEffect_afterCall (ht : s.task? r = some t) (c : TaskCall) :
    TaskEffect s (s.afterCall r c) r t { t with
      status := t.status.after c
      token := t.token.or c.token?
      released := t.released || (s.releaseOf r c).isSome } := by
  rw [releaseOf_eq ht]
  cases c with
  | start => exact (taskEffect_startTask ht).congr (by simp [TaskCall.token?])
  | finish => exact (taskEffect_finishTask ht).congr (by simp [TaskCall.token?])
  | cancel =>
    refine (taskEffect_cancelTask ht).congr ?_
    cases t.status.isTerminal <;> simp [TaskCall.token?]
  | arm k => exact (taskEffect_armTask ht k).congr (by simp [TaskCall.token?])
  | release => exact (taskEffect_releaseTask ht).congr (by simp [TaskCall.token?])

/-- The `TaskEffect` of a row of calls. -/
theorem taskEffect_afterCalls (ht : s.task? r = some t) (calls : List TaskCall) :
    TaskEffect s (s.afterCalls r calls) r t { t with
      status := calls.foldl TaskStatus.after t.status
      token := t.token.or (firstToken calls)
      released := t.released || !(s.releases r calls).isEmpty } := by
  induction calls using List.reverseRecOn with
  | nil =>
    exact (TaskEffect.rfl ht).congr (by simp [firstToken, releases])
  | append_singleton calls c ih =>
    have heffect := ih.trans (taskEffect_afterCall ih.task c)
    have htoken : firstToken (calls ++ [c]) = (firstToken calls).or c.token? := by
      cases hc : c.token? <;> simp [firstToken, List.findSome?_append, hc]
    have hreleased : (!(s.releases r (calls ++ [c])).isEmpty) =
        (!(s.releases r calls).isEmpty || ((s.afterCalls r calls).releaseOf r c).isSome) := by
      rw [releases_concat]
      cases s.releases r calls <;> cases (s.afterCalls r calls).releaseOf r c <;> rfl
    rw [afterCalls_concat, List.foldl_append, List.foldl_cons, List.foldl_nil, htoken,
      ← Option.or_assoc, hreleased, ← Bool.or_assoc]
    exact heffect

end Scheduler

/-! ### The life of a task -/

/-- Nothing has been done to the task yet. -/
structure Task.Fresh (t : Task η) : Prop where
  /-- It waits for its start. -/
  status : t.status = .init
  /-- It has no token. -/
  token : t.token = none
  /-- It has not been released. -/
  released : t.released = false

namespace Scheduler

variable {s : Scheduler β η} {r : TaskRef} {t : Task η}

/-- Of all releases in `releases` the first does the work, and the others do nothing. -/
theorem releases_eq (ht : s.task? r = some t) (hr : t.released = false) (calls : List TaskCall) :
    s.releases r calls = [] ∨ ∃ n, s.releases r calls = true :: List.replicate n false := by
  induction calls using List.reverseRecOn with
  | nil => exact .inl rfl
  | append_singleton calls c ih =>
    have hnow := (taskEffect_afterCalls ht calls).task
    rw [releases_concat, releaseOf_eq hnow, hr]
    dsimp only
    split
    next =>
      right
      rcases ih with hnone | ⟨n, hsome⟩
      · exact ⟨0, by rw [hnone]; rfl⟩
      · exact ⟨n + 1, by rw [hsome, List.replicate_succ']; rfl⟩
    next =>
      rw [Option.toList_none, List.append_nil]
      exact ih

/-- For every row of calls on a fresh task, whatever calls come and in whatever order: the status
only moves from waiting to running, from there to done, and from waiting or running to canceled; a
start succeeds exactly if nobody has started or canceled the task before, so at most once; of all
releases, those of cancelations included, the first one does the work and no other changes anything;
the entry in the registry goes with that one; and the first token that was given to the task, and no
other, has been canceled by it exactly if a release has happened, whichever came first. -/
theorem task_life (s : Scheduler β η) (r : TaskRef) (t : Task η) (ht : s.task? r = some t)
    (hf : t.Fresh) (calls : List TaskCall) :
    let s' := s.afterCalls r calls
    let answers := s.releases r calls
    (∃ t', s'.task? r = some t' ∧ t'.status = calls.foldl TaskStatus.after .init ∧
      ∀ c, ∃ t'', (s'.afterCall r c).task? r = some t'' ∧ t''.status = t'.status.after c ∧
        (t''.status = t'.status ∨ t'.status.Moves t''.status)) ∧
    ((s'.startTask r).1 = true ↔ .start ∉ calls ∧ .cancel ∉ calls) ∧
    (answers = [] ∨ ∃ n, answers = true :: List.replicate n false) ∧
    (answers ≠ [] → s'.releaseTask r = (false, s')) ∧
    s'.registry = (if answers ≠ [] ∧ t.registered then s.registry.erase t.id else s.registry) ∧
    s'.contexts =
      (match firstToken calls with
      | some k => if answers = [] then s.contexts else s.contexts.cancel k
      | none => s.contexts) ∧
    ∀ k, firstToken calls = some k → k < s.contexts.tree.size →
      (s'.contexts.isCanceled k = true ↔ s.contexts.isCanceled k = true ∨ answers ≠ []) := by
  intro s' answers
  have heffect := taskEffect_afterCalls ht calls
  rw [hf.status, hf.token, hf.released, Option.none_or, Bool.false_or] at heffect
  have hcontexts : s'.contexts =
      match firstToken calls with
      | some k => if answers = [] then s.contexts else s.contexts.cancel k
      | none => s.contexts := by
    rw [heffect.contexts]
    simp only [Task.canceledToken?, hf.released]
    cases firstToken calls <;> cases hanswers : s.releases r calls <;> simp [answers, hanswers]
  refine ⟨⟨_, heffect.task, rfl, fun c => ?_⟩, ?_, releases_eq ht hf.released calls,
    fun hany => ?_, ?_, hcontexts, fun k hk hlt => ?_⟩
  · exact ⟨_, (taskEffect_afterCall heffect.task c).task, rfl, TaskStatus.after_eq_or_moves _ c⟩
  · rw [← foldl_after_eq_init_iff]
    unfold startTask
    rw [heffect.task]
    dsimp only
    split <;> simp_all
  · refine releaseTask_of_released heffect.task ?_
    simpa [answers] using hany
  · rw [heffect.registry, hf.released]
    cases hanswers : s.releases r calls <;> simp [answers, hanswers]
  · rw [hcontexts, hk]
    dsimp only
    split
    next hnone => simp [hnone]
    next hany =>
      have hself : (s.contexts.cancel k).isCanceled k = true :=
        s.contexts.tree.isCanceled_cancel_self hlt
      simp [hself, hany]

/-- A task that finishes is released, is then canceled and gets a second token, and is released
again. -/
def finishedLife : List TaskCall :=
  [.start, .start, .finish, .cancel, .release, .arm 1, .arm 2, .cancel, .release]

/-- A scheduler with one registered task and two tokens beside the base token. -/
def oneTaken : Scheduler Simulation.FaultyQueue Unit :=
  (new .default { popFaults := .ofList [(1, .ok ⟨"7", "job", .null, none⟩)] } none).after
    [.callRun, .ping 0, .stepPop 0, .pop 0 .epoch, .stepPop 0, .derive baseToken none,
      .derive baseToken none]

/-- `task_life` along `finishedLife`: a fresh task is armed with the token 1, the first release
takes it off the registry and the second finds nothing, it cannot be started again, and a release
cancels the token. -/
theorem task_life_finished :
    ∃ t, oneTaken.task? 0 = some t ∧ t.Fresh ∧ t.registered = true ∧
      firstToken finishedLife = some 1 ∧ 1 < oneTaken.contexts.tree.size ∧
      oneTaken.releases 0 finishedLife = [true, false] ∧
      (oneTaken.afterCalls 0 finishedLife).registry.get? "7" = none ∧
      ((oneTaken.afterCalls 0 finishedLife).startTask 0).1 = false ∧
      ((oneTaken.afterCalls 0 finishedLife).contexts.isCanceled 1 = true ↔
        oneTaken.contexts.isCanceled 1 = true ∨ oneTaken.releases 0 finishedLife ≠ []) := by
  obtain ⟨t, ht, hfresh, hregistered⟩ :
      ∃ t, oneTaken.task? 0 = some t ∧ t.Fresh ∧ t.registered = true :=
    ⟨_, rfl, ⟨rfl, rfl, rfl⟩, rfl⟩
  obtain ⟨-, hstart, -, -, -, -, htoken⟩ := task_life oneTaken 0 t ht hfresh finishedLife
  have hsize : 1 < oneTaken.contexts.tree.size := by decide
  refine ⟨t, ht, hfresh, hregistered, rfl, hsize, by decide, by decide, ?_, htoken 1 rfl hsize⟩
  rw [Bool.eq_false_iff, ne_eq, hstart]
  decide

end Scheduler

end TaskScheduler
