import Mathlib.Data.List.Induction
import TaskScheduler.Proofs.Scheduler.Registry

/-!
# Entering stages

Before a stage is entered the worker looks at the status of the task and at the context under which
the pass through the pipeline was called.  What this tells about the task as a whole depends on
where that context comes from.  A task is run under one context, made by its worker when the task is
armed: its token is the token of the task and a child of the base token, and its deadline is the one
of the task.  The outermost pass is under this context.  A stage that calls a pipeline chooses the
context, and only as far as the token descends from the one of the run does the check still see the
end of the run; under a foreign context it does not.

A task that is canceled before its worker starts it never gets as far as a pipeline.
`Phase.forsaken` lists the phases through which it may still go, the last of them those in which it
is reported as canceled.
-/

namespace TaskScheduler

variable {β η : Type}

/-! ### Executing stages -/

/-- The stages that are executing in a list of passes, with the contexts that they were given. -/
def executingIn (frames : List (Frame η)) : List (Stage η × Context) :=
  frames.filterMap fun f => f.stage.map (·, f.context)

/-- The executing stages of a task, innermost first. -/
def Task.executing (t : Task η) : List (Stage η × Context) :=
  match t.phase with
  | .running top callers => executingIn (top :: callers)
  | _ => []

/-- The executing stages of the task in a place, innermost first. -/
def Scheduler.executing (s : Scheduler β η) (r : TaskRef) : List (Stage η × Context) :=
  ((s.task? r).map Task.executing).getD []

/-- A move enters a stage of a task under a context: one more stage is executing. -/
def Scheduler.Enters [TaskQueue β] (s : Scheduler β η) (m : Move η) (r : TaskRef)
    (stage : Stage η) (c : Context) : Prop :=
  (s.move m).executing r = (stage, c) :: s.executing r

/-- `executingIn` of a pass and its callers: the stage of the pass, if one is at work, and what the
callers execute. -/
theorem executingIn_cons (f : Frame η) (frames : List (Frame η)) :
    executingIn (f :: frames) = (f.stage.map (·, f.context)).toList ++ executingIn frames := by
  unfold executingIn
  rw [List.filterMap_cons]
  cases f.stage <;> rfl

/-- A task that is not running is `executing` no stage. -/
theorem Task.executing_eq_nil {t : Task η} (h : ∀ top callers, t.phase ≠ .running top callers) :
    t.executing = [] := by
  unfold executing
  split
  next top callers hp => exact absurd hp (h top callers)
  next => rfl

/-- A running task is `executing` the stages of its passes. -/
theorem Task.executing_of_running {t : Task η} {top : Frame η} {callers : List (Frame η)}
    (h : t.phase = .running top callers) : t.executing = executingIn (top :: callers) := by
  unfold executing
  rw [h]

/-- After `leavePipeline` a task is executing at most what the callers execute. -/
theorem length_executing_leave (t : Task η) (o : Outcome) (callers : List (Frame η)) :
    ({ t with phase := Scheduler.leavePipeline o callers } : Task η).executing.length ≤
      (executingIn callers).length := by
  cases callers with
  | nil =>
    have hnone : ({ t with phase := .stopping o } : Task η).executing = [] :=
      Task.executing_eq_nil fun _ _ => by simp
    rw [Scheduler.leavePipeline, hnone]
    exact Nat.zero_le _
  | cons f callers =>
    have hsame : ({ t with
        phase := .running { f with called := some o } callers } : Task η).executing =
          executingIn (f :: callers) := by
      rw [Task.executing_of_running (by rfl), executingIn_cons, executingIn_cons]
    exact Nat.le_of_eq (congrArg List.length hsame)

/-- What the callers of a running task execute is no more than what the task is executing. -/
theorem length_executingIn_le {t : Task η} {top : Frame η} {callers : List (Frame η)}
    (h : t.phase = .running top callers) :
    (executingIn callers).length ≤ t.executing.length := by
  rw [Task.executing_of_running h, executingIn_cons, List.length_append]
  exact Nat.le_add_left _ _

/-- The entry of a stage adds it to what the task is executing. -/
theorem executing_enter {t : Task η} {c : Context} {stage : Stage η} {rest : Pipeline η}
    {input : StageInput} {called : Option Outcome} {callers : List (Frame η)}
    (h : t.phase = .running ⟨c, stage :: rest, input, none, called⟩ callers) :
    ({ t with
      path := t.path ++ [stage.name]
      phase := .running ⟨c, rest, input, some stage, none⟩ callers } : Task η).executing =
        (stage, c) :: t.executing := by
  rw [Task.executing_of_running (by rfl), Task.executing_of_running h, executingIn_cons,
    executingIn_cons]
  rfl

/-- A turn adds nothing to the stages that a task is executing, and leaves its path, or it is the
entry of a stage: a pass stood before that stage, and nothing said that the task had to stop. -/
theorem Task.Turn.length_executing {s : Scheduler β η} {m : Move η} {r : TaskRef} {t t' : Task η}
    (h : Task.Turn s m r t t') :
    (t'.executing.length ≤ t.executing.length ∧ t'.path = t.path) ∨
      ∃ c stage rest input called callers,
        t.phase = .running ⟨c, stage :: rest, input, none, called⟩ callers ∧
          s.stopReason t c = none ∧
          t' = { t with
            path := t.path ++ [stage.name]
            phase := .running ⟨c, rest, input, some stage, none⟩ callers } := by
  have hidle : ∀ {u : Task η}, (∀ top callers, u.phase ≠ .running top callers) →
      u.executing.length ≤ t.executing.length := by
    intro u hu
    rw [Task.executing_eq_nil hu]
    exact Nat.zero_le _
  cases h with
  | enter hp hs => exact .inr ⟨_, _, _, _, _, _, hp, hs, rfl⟩
  | same | cancel | mark | drop => exact .inl ⟨Nat.le_refl _, rfl⟩
  | leave hp o =>
    exact .inl ⟨Nat.le_trans (length_executing_leave t o _) (length_executingIn_le hp), rfl⟩
  | returned hp v =>
    refine .inl ⟨?_, rfl⟩
    rw [Task.executing_of_running (by rfl), executingIn_cons]
    exact length_executingIn_le hp
  | called hp hm hfound =>
    refine .inl ⟨Nat.le_of_eq ?_, rfl⟩
    rw [Task.executing_of_running (by rfl), Task.executing_of_running hp, executingIn_cons,
      executingIn_cons, executingIn_cons]
    rfl
  | enroll | reject | take | spawn | skip | arm | start | refuse | countStart | gaugeStart | lack
  | broke | stop | countStop | gaugeStop | record | report | release =>
    exact .inl ⟨hidle fun _ _ => by simp, rfl⟩
  | lookUp => exact .inl ⟨Nat.zero_le _, rfl⟩

/-- A turn that adds an executing stage to a task is the entry of that stage. -/
theorem Task.Turn.of_executing {s : Scheduler β η} {m : Move η} {r : TaskRef} {t t' : Task η}
    (h : Task.Turn s m r t t') {stage : Stage η} {c : Context}
    (hmore : t'.executing = (stage, c) :: t.executing) :
    ∃ rest input called callers,
      t.phase = .running ⟨c, stage :: rest, input, none, called⟩ callers ∧
        s.stopReason t c = none := by
  rcases h.length_executing with ⟨hle, -⟩ | ⟨c', stage', rest, input, called, callers, hp, hs, rfl⟩
  · rw [hmore, List.length_cons] at hle
    omega
  · rw [executing_enter hp] at hmore
    obtain ⟨rfl, rfl⟩ := Prod.mk.inj (List.cons.inj hmore).1
    exact ⟨rest, input, called, callers, hp, hs⟩

/-! ### The context of a run -/

/-- The context of the outermost of several passes. -/
def outermost : Frame η → List (Frame η) → Context
  | top, [] => top.context
  | _, f :: callers => outermost f callers

/-- The context that the worker of a task has made, while the task needs it. -/
def Phase.context? : Phase η → Option Context
  | .armed c => some c
  | .starting c _ => some c
  | .started c => some c
  | .running top callers => some (outermost top callers)
  | _ => none

/-- The worker has not come to making a context. -/
def Phase.isUnarmed : Phase η → Bool
  | .popped | .waiting | .dispatched | .spawned => true
  | _ => false

/-- The passes behind the innermost one stand in the stages that called the next. -/
def Phase.callersBusy : Phase η → Bool
  | .running _ callers => callers.all fun f => f.stage.isSome
  | _ => true

/-- `leavePipeline` leaves the context of the run alone. -/
theorem context?_leavePipeline {o : Outcome} {callers : List (Frame η)} {c : Context}
    (h : (Scheduler.leavePipeline o callers).context? = some c) (top : Frame η) :
    (Phase.running top callers).context? = some c := by
  cases callers with
  | nil => exact absurd h (by simp [Scheduler.leavePipeline, Phase.context?])
  | cons f callers =>
    have hsame : outermost { f with called := some o } callers = outermost f callers := by
      cases callers <;> rfl
    rw [Scheduler.leavePipeline, Phase.context?, hsame] at h
    exact h

namespace Scheduler

variable [TaskQueue β]

/-- In the course of a history the worker of a task has made a context from the base token and the
timeout of the task. -/
def RunsUnder (s₀ : Scheduler β η) (moves : List (Move η)) (r : TaskRef) (c : Context) : Prop :=
  ∃ before after t, moves = before ++ .event (.stepTask r) :: after ∧
    (s₀.afterMoves before).task? r = some t ∧ t.phase = .spawned ∧
    ((s₀.afterMoves before).contexts.childOf baseToken t.popped.timeout).1 = c

/-- A context that the worker has made in a history it has made in every longer one. -/
theorem RunsUnder.concat {s₀ : Scheduler β η} {moves : List (Move η)} {r : TaskRef} {c : Context}
    (h : s₀.RunsUnder moves r c) (m : Move η) : s₀.RunsUnder (moves ++ [m]) r c := by
  obtain ⟨before, after, t, rfl, hrest⟩ := h
  exact ⟨before, after ++ [m], t, by simp, hrest⟩

/-- The state after a history with one move more is that of `move` from where the history ends. -/
theorem afterMoves_concat (s : Scheduler β η) (moves : List (Move η)) (m : Move η) :
    s.afterMoves (moves ++ [m]) = (s.afterMoves moves).move m :=
  s.afterMoves_append moves [m]

/-- What is known of a task from its worker, at the end of a history. -/
structure WorksUnder (s₀ : Scheduler β η) (moves : List (Move η)) (r : TaskRef) (t : Task η) :
    Prop where
  /-- It has no token before the worker makes a context. -/
  unarmed : t.phase.isUnarmed = true → t.token = none
  /-- It works under the context that its worker made, whose token is its own. -/
  context : ∀ c, t.phase.context? = some c → s₀.RunsUnder moves r c ∧ t.token = some c.token ∧
    (s₀.afterMoves moves).contexts.tree.Descends baseToken c.token
  /-- Its callers are busy. -/
  busy : t.phase.callersBusy = true

/-- After every history of a new scheduler the tokens inherit, and the base token is in the tree. -/
theorem inherits_afterMoves (config : SchedulerConfig) (queue : β) (metrics : Option Metrics)
    (moves : List (Move η)) :
    let s := (new config queue metrics).afterMoves moves
    s.contexts.tree.Inherits ∧ baseToken < s.contexts.tree.size := by
  intro s
  have hgrows : (new config queue metrics : Scheduler β η).contexts.tree.Grows s.contexts.tree := by
    induction moves using List.reverseRecOn with
    | nil => exact .rfl
    | append_singleton moves m ih =>
      have htidy := tidy_afterMoves config queue metrics moves
      have hstep := (turns_move htidy.tracked m).tree
      have hsame : s = ((new config queue metrics).afterMoves moves).move m :=
        afterMoves_concat _ moves m
      rw [hsame]
      exact ih.trans hstep
  have hfirst : (new config queue metrics : Scheduler β η).contexts.tree.tokens[baseToken]? =
      some ⟨none, false⟩ := rfl
  refine ⟨hgrows.inherits ?_, ?_⟩
  · intro i p k hk hp hlt hcanceled
    cases i with
    | zero => exact absurd hlt (Nat.not_lt_zero p)
    | succ i => exact absurd hk (by simp [new, ContextStore.background, TokenTree.addRoot])
  · obtain ⟨k, hk, -⟩ := hgrows.kept _ _ hfirst
    exact (List.getElem?_eq_some_iff.1 hk).1

/-- The token that the worker makes by `childOf` is in the tree after its step. -/
theorem grows_armed {s : Scheduler β η} {r : TaskRef} {t : Task η} (ht : s.task? r = some t)
    (hp : t.phase = .spawned) :
    (s.contexts.childOf baseToken t.popped.timeout).2.tree.Grows
      (s.move (.event (.stepTask r))).contexts.tree := by
  change TokenTree.Grows _ (s.stepTask r).contexts.tree
  unfold stepTask
  rw [ht]
  dsimp only
  rw [hp]
  dsimp only
  unfold armWorker
  rw [ht]
  dsimp only
  rw [hp]
  exact ({ s with contexts := (s.contexts.childOf baseToken t.popped.timeout).2 }).grows_armTask r _

/-- A turn of a task keeps what is known of it by `WorksUnder`. -/
theorem WorksUnder.turn {s₀ : Scheduler β η} {moves : List (Move η)} {m : Move η} {r : TaskRef}
    {t t' : Task η} (h : s₀.WorksUnder moves r t)
    (hbase : baseToken < (s₀.afterMoves moves).contexts.tree.size)
    (hturns : Turns (s₀.afterMoves moves) m (s₀.afterMoves (moves ++ [m])))
    (ht : (s₀.afterMoves moves).task? r = some t)
    (hturn : Task.Turn (s₀.afterMoves moves) m r t t') : s₀.WorksUnder (moves ++ [m]) r t' := by
  -- a context that the task already works under stays the one that was made
  have hkeep : ∀ c, t.phase.context? = some c → s₀.RunsUnder (moves ++ [m]) r c ∧
      t.token = some c.token ∧
        (s₀.afterMoves (moves ++ [m])).contexts.tree.Descends baseToken c.token := by
    intro c hc
    obtain ⟨hruns, htoken, hdescends⟩ := h.context c hc
    exact ⟨hruns.concat m, htoken, hturns.tree.descends hdescends⟩
  cases hturn with
  | same => exact ⟨h.unarmed, hkeep, h.busy⟩
  | cancel | mark | drop => exact ⟨h.unarmed, hkeep, h.busy⟩
  | enroll hp | take hp | spawn hp =>
    have hnone := h.unarmed (by rw [hp]; rfl)
    exact ⟨fun _ => hnone, by simp [Phase.context?], rfl⟩
  | @arm hm hp c hc =>
    have hnone := h.unarmed (by rw [hp]; rfl)
    refine ⟨by simp [Phase.isUnarmed], fun c' hc' => ?_, rfl⟩
    obtain rfl : c = c' := Option.some.inj hc'
    have htree := grows_armed ht hp
    rw [← hm, ← afterMoves_concat] at htree
    have hdescends := (s₀.afterMoves moves).contexts.descends_childOf hbase t.popped.timeout
    rw [hc] at hdescends
    refine ⟨⟨moves, [], t, by rw [hm], ht, hp, hc⟩, by rw [hnone]; rfl, htree.descends hdescends⟩
  | @start c hp hs =>
    exact ⟨by simp [Phase.isUnarmed], fun c' hc' => hkeep c' (by rw [hp]; exact hc'), rfl⟩
  | countStart hp | gaugeStart hp | lookUp hp =>
    exact ⟨by simp [Phase.isUnarmed], fun c' hc' => hkeep c' (by rw [hp]; exact hc'), rfl⟩
  | @enter c stage rest input called callers hp hs =>
    have hbusy := h.busy
    rw [hp] at hbusy
    refine ⟨by simp [Phase.isUnarmed], fun c' hc' => hkeep c' ?_, hbusy⟩
    rw [hp, ← hc']
    cases callers <;> rfl
  | @leave top callers hp o =>
    have hbusy := h.busy
    rw [hp] at hbusy
    refine ⟨?_, fun c' hc' => hkeep c' ?_, ?_⟩
    · cases callers <;> simp [leavePipeline, Phase.isUnarmed]
    · rw [hp]
      exact context?_leavePipeline hc' top
    · cases callers with
      | nil => rfl
      | cons f callers => exact (Bool.and_eq_true_iff.1 hbusy).2
  | @returned c rest input stage called callers hp v =>
    have hbusy := h.busy
    rw [hp] at hbusy
    refine ⟨by simp [Phase.isUnarmed], fun c' hc' => hkeep c' ?_, hbusy⟩
    rw [hp, ← hc']
    cases callers <;> rfl
  | @called c c'' rest p input input' stage called callers taskType hp hm hfound =>
    have hbusy := h.busy
    rw [hp] at hbusy
    refine ⟨by simp [Phase.isUnarmed], fun c' hc' => hkeep c' ?_, hbusy⟩
    rw [hp, ← hc']
    cases callers <;> rfl
  | reject | skip | refuse | lack | broke | stop | countStop | gaugeStop | record | report
  | release => exact ⟨by simp [Phase.isUnarmed], by simp [Phase.context?], rfl⟩

/-- Every task has `WorksUnder` after every history of a new scheduler. -/
theorem worksUnder_afterMoves (config : SchedulerConfig) (queue : β) (metrics : Option Metrics)
    (moves : List (Move η)) {r : TaskRef} {t : Task η}
    (ht : ((new config queue metrics).afterMoves moves).task? r = some t) :
    (new config queue metrics).WorksUnder moves r t := by
  induction moves using List.reverseRecOn generalizing t with
  | nil => exact absurd ht (by simp [afterMoves, new, core])
  | append_singleton moves m ih =>
    have htidy := tidy_afterMoves config queue metrics moves
    have hturns := turns_move htidy.tracked m
    rw [← afterMoves_concat] at hturns
    cases hold : ((new config queue metrics).afterMoves moves).task? r with
    | none =>
      obtain ⟨p, rfl⟩ := hturns.new r t hold ht
      exact ⟨fun _ => rfl, by simp [Phase.context?], rfl⟩
    | some t₀ =>
      obtain ⟨u, hu, hturn⟩ := hturns.old r t₀ hold
      obtain rfl : t = u := Option.some.inj (ht.symm.trans hu)
      exact (ih hold).turn (inherits_afterMoves config queue metrics moves).2 hturns hold hturn

/-- A move that `Enters` a stage does so only while the task is not canceled and the context of the
entry has not ended.  The task works under the context that its worker made for it; the entry is
under that context unless another stage is executing, and as long as its token descends from the one
of the task, neither that nor the base token is canceled. -/
theorem entered_under (config : SchedulerConfig) (queue : β) (metrics : Option Metrics)
    (moves : List (Move η)) {m : Move η} {r : TaskRef} {stage : Stage η} {c : Context}
    (h : ((new config queue metrics).afterMoves moves).Enters m r stage c) :
    let s := (new config queue metrics).afterMoves moves
    ∃ t run, s.task? r = some t ∧ (new config queue metrics).RunsUnder moves r run ∧
      t.token = some run.token ∧ t.status ≠ .canceled ∧
      (∀ d, c.deadline = some d → s.now < d) ∧ s.contexts.isCanceled c.token = false ∧
      (s.executing r = [] → c = run) ∧
      (s.contexts.tree.Descends run.token c.token →
        s.contexts.isCanceled run.token = false ∧ s.contexts.isCanceled baseToken = false) := by
  intro s
  have htidy := tidy_afterMoves config queue metrics moves
  have hturns : Turns s m (s.move m) := turns_move htidy.tracked m
  have hmore : (s.move m).executing r = (stage, c) :: s.executing r := h
  cases ht : s.task? r with
  | none =>
    -- a task that was just popped executes nothing
    have hnone : (s.move m).executing r = [] := by
      unfold executing
      cases ht' : (s.move m).task? r with
      | none => rfl
      | some t' =>
        obtain ⟨p, rfl⟩ := hturns.new r t' ht ht'
        rfl
    exact absurd (hnone.symm.trans hmore) (by simp)
  | some t =>
    obtain ⟨t', ht', hturn⟩ := hturns.old r t ht
    have hexecuting : s.executing r = t.executing := by rw [executing, ht]; rfl
    have hexecuting' : (s.move m).executing r = t'.executing := by rw [executing, ht']; rfl
    rw [hexecuting, hexecuting'] at hmore
    obtain ⟨rest, input, called, callers, hp, hs⟩ := hturn.of_executing hmore
    have hworks := worksUnder_afterMoves config queue metrics moves ht
    have hcontext : t.phase.context? = some (outermost ⟨c, stage :: rest, input, none, called⟩
        callers) := by rw [hp]; rfl
    obtain ⟨hruns, htoken, hbase⟩ := hworks.context _ hcontext
    have hstatus : t.status ≠ .canceled := by
      intro hcanceled
      rw [stopReason, if_pos hcanceled] at hs
      exact absurd hs (by simp)
    have herr : s.contexts.err c = none := by
      rw [stopReason, if_neg hstatus] at hs
      exact hs
    obtain ⟨hahead, hlive⟩ := s.contexts.err_eq_none_iff.1 herr
    have hinherits := (inherits_afterMoves config queue metrics moves).1
    refine ⟨t, _, rfl, hruns, htoken, hstatus, hahead, hlive, fun hfirst => ?_, fun hdescends => ?_⟩
    · cases callers with
      | nil => rfl
      | cons f callers =>
        -- a caller is busy, so this is not the first stage that executes
        have hbusy := hworks.busy
        rw [hp] at hbusy
        obtain ⟨caller, hcaller⟩ := Option.isSome_iff_exists.1 (Bool.and_eq_true_iff.1 hbusy).1
        rw [hexecuting, Task.executing_of_running hp, executingIn_cons, executingIn_cons,
          hcaller] at hfirst
        exact absurd hfirst (by simp)
    · have hown : ¬ s.contexts.tree.isCanceled _ = true := fun hcanceled =>
        absurd (hdescends.isCanceled hinherits hcanceled) (Bool.eq_false_iff.1 hlive)
      have hroot : ¬ s.contexts.tree.isCanceled baseToken = true := fun hcanceled =>
        hown (hbase.isCanceled hinherits hcanceled)
      exact ⟨Bool.eq_false_iff.2 hown, Bool.eq_false_iff.2 hroot⟩

end Scheduler

/-! ### Tasks that are canceled before they start -/

/-- The task is registered and its worker has not started it. -/
def Phase.isPending : Phase η → Bool
  | .waiting | .dispatched | .spawned | .armed _ => true
  | _ => false

/-- The phases through which a task goes that was canceled before it started. -/
def Phase.forsaken : Phase η → Bool
  | .completing o => decide (o = .error .canceled)
  | .reporting report => decide (report.outcome = .error .canceled)
  | .releasing | .ended => true
  | p => p.isPending

/-- A task that was canceled before it started: it has entered no stage and will be reported as
canceled. -/
structure Task.Forsaken (t : Task η) : Prop where
  /-- It is canceled. -/
  status : t.status = .canceled
  /-- It has entered no stage. -/
  path : t.path = []
  /-- It is on the way to its report. -/
  phase : t.phase.forsaken = true

/-- A task that is `Forsaken` executes no stage. -/
theorem Task.Forsaken.executing_eq_nil {t : Task η} (h : t.Forsaken) : t.executing = [] := by
  apply Task.executing_eq_nil
  intro top callers hp
  have hphase := h.phase
  rw [hp] at hphase
  exact absurd hphase (by simp [Phase.forsaken, Phase.isPending])

/-- A task that is `Forsaken` stays so under every turn. -/
theorem Task.Forsaken.turn {s : Scheduler β η} {m : Move η} {r : TaskRef} {t t' : Task η}
    (h : t.Forsaken) (hturn : Task.Turn s m r t t') : t'.Forsaken := by
  have hphase := h.phase
  have hstarted : t.status ≠ .init := by
    rw [h.status]
    simp
  have hterminal : t.status.isTerminal = true := by
    rw [h.status]
    rfl
  cases hturn with
  | same => exact h
  | take | arm => exact ⟨h.status, h.path, rfl⟩
  | skip | refuse => exact ⟨h.status, h.path, by simp [Phase.forsaken]⟩
  | record hp =>
    rw [hp] at hphase
    exact ⟨h.status, h.path, hphase⟩
  | report | release => exact ⟨h.status, h.path, rfl⟩
  | drop => exact ⟨h.status, h.path, h.phase⟩
  | spawn _ hs | start _ hs => exact absurd hs hstarted
  | cancel _ hs | mark _ hs => exact absurd (hterminal.symm.trans hs) (by simp)
  | enroll hp | reject hp | countStart hp | gaugeStart hp | lookUp hp | lack hp | enter hp
  | leave hp | returned hp | broke hp | called hp | stop hp | countStop hp | gaugeStop hp =>
    rw [hp] at hphase
    exact absurd hphase (by simp [Phase.forsaken, Phase.isPending])

/-- What a task knows of itself as long as it is neither started nor canceled. -/
structure Task.Untouched (t : Task η) : Prop where
  /-- It has entered no stage. -/
  path : t.status = .init → t.path = []
  /-- If it is registered, it is pending. -/
  pending : t.status = .init → t.registered = true → t.phase.isPending = true

/-- A turn of a task keeps it `Untouched`. -/
theorem Task.Untouched.turn {s : Scheduler β η} {m : Move η} {r : TaskRef} {t t' : Task η}
    (h : t.Untouched) (hs : t.Sound) (hl : t.Lawful) (hturn : Task.Turn s m r t t') :
    t'.Untouched := by
  -- past the start, a registered task is not in the initial status any more
  have hno : ∀ {p : Prop}, t.phase.isPending = false → t.status = .init → t.registered = true →
      p := fun hp hinit hregistered =>
    absurd ((h.pending hinit hregistered).symm.trans hp) (by simp)
  have hrunning : ∀ {p : Prop}, t.phase.isRegistered = true → t.phase.isPending = false →
      t.status = .init → p := fun hr hp hinit => hno hp hinit (hs.registered hr)
  cases hturn with
  | same => exact h
  | enroll hp => exact ⟨h.path, fun _ _ => rfl⟩
  | reject hp =>
    have hunregistered := hl.popped hp
    exact ⟨h.path, fun _ hregistered => absurd (hunregistered.symm.trans hregistered) (by simp)⟩
  | take | spawn | arm => exact ⟨h.path, fun _ _ => rfl⟩
  | skip _ hstarted | refuse _ hstarted =>
    exact ⟨h.path, fun hinit => absurd hinit hstarted⟩
  | start => exact ⟨by simp, by simp⟩
  | cancel | mark => exact ⟨by simp, by simp⟩
  | drop => exact ⟨h.path, h.pending⟩
  | enter hp =>
    refine ⟨fun hinit => ?_, fun hinit hregistered => ?_⟩
    · exact hrunning (by rw [hp]; rfl) (by rw [hp]; rfl) hinit
    · exact hno (by rw [hp]; rfl) hinit hregistered
  | stop hp =>
    refine ⟨fun hinit => ?_, fun hinit hregistered => ?_⟩ <;> dsimp only at hinit <;>
      split at hinit <;> first
      | exact absurd hinit (by simp)
      | exact hrunning (by rw [hp]; rfl) (by rw [hp]; rfl) hinit
  | countStart hp | gaugeStart hp | lookUp hp | lack hp | leave hp | returned hp | broke hp
  | called hp | countStop hp | gaugeStop hp | record hp | report hp | release hp =>
    exact ⟨h.path, fun hinit hregistered => hno (by rw [hp]; rfl) hinit hregistered⟩

/-- A task that becomes canceled before it starts is `Forsaken`, provided it is registered. -/
theorem Task.Untouched.forsaken {s : Scheduler β η} {m : Move η} {r : TaskRef} {t t' : Task η}
    (h : t.Untouched) (hinit : t.status = .init) (hturn : Task.Turn s m r t t')
    (hcanceled : t'.status = .canceled) (hregistered : t'.registered = true) :
    t'.Forsaken ∧ t'.phase.isPending = true := by
  have hno : t.status ≠ .canceled := by
    rw [hinit]
    simp
  have hforsaken : ∀ {p : Phase η}, p.isPending = true → p.forsaken = true := by
    intro p hp
    cases p <;> simp_all [Phase.isPending, Phase.forsaken]
  cases hturn with
  | cancel | mark =>
    have hpending := h.pending hinit hregistered
    exact ⟨⟨rfl, h.path hinit, hforsaken hpending⟩, hpending⟩
  | start => exact absurd hcanceled (by simp)
  | stop hp =>
    dsimp only at hcanceled
    split at hcanceled
    next => exact absurd hcanceled (by simp)
    next => exact absurd hcanceled hno
  | same | enroll | reject | take | spawn | skip | arm | refuse | countStart | gaugeStart | lookUp
  | lack | enter | leave | returned | broke | called | countStop | gaugeStop | record | report
  | release | drop => exact absurd hcanceled hno

/-- A report that is handed over is the one that its task was to report. -/
theorem TasksStep.phase_of_mem {tasks tasks' : List (Task η)} {out : List (TaskRef × TaskReport)}
    (h : TasksStep tasks tasks' out) {r : TaskRef} {report : TaskReport}
    (hmem : (r, report) ∈ out) :
    ∃ t, tasks[r]? = some t ∧ t.phase = .reporting report := by
  cases h with
  | same | pop | change => exact absurd hmem (by simp)
  | report ht hp =>
    obtain ⟨rfl, rfl⟩ := Prod.mk.inj (List.mem_singleton.1 hmem)
    exact ⟨_, ht, hp⟩

namespace Scheduler

variable [TaskQueue β]

/-- An allowed move of a `Consistent` scheduler keeps its tasks `Untouched`. -/
theorem Consistent.untouched_move {s : Scheduler β η} (hs : s.Consistent)
    (hu : ∀ t ∈ s.tasks, t.Untouched) (m : Move η) : ∀ t ∈ (s.move m).tasks, t.Untouched := by
  refine (turns_move hs.tidy.tracked m).forall_mem (P := Task.Untouched) ?_ ?_
  · intro p now
    exact ⟨fun _ => rfl, fun _ hregistered => absurd hregistered (by simp)⟩
  · intro r t t' ht hturn
    have hmem : t ∈ s.tasks := List.mem_of_getElem? ht
    exact (hu t hmem).turn (hs.tidy.reported.sound t hmem) (hs.lawful t hmem) hturn

/-- A possible history of a `Consistent` scheduler keeps its tasks `Untouched`. -/
theorem Consistent.untouched_afterMoves {s : Scheduler β η} (hs : s.Consistent)
    (hu : ∀ t ∈ s.tasks, t.Untouched) {moves : List (Move η)} (hmoves : s.Possible moves = true) :
    ∀ t ∈ (s.afterMoves moves).tasks, t.Untouched := by
  induction moves generalizing s with
  | nil => exact hu
  | cons m moves ih =>
    obtain ⟨hm, hrest⟩ := Bool.and_eq_true_iff.1 hmoves
    exact ih (hs.move hm) (hs.untouched_move hu m) hrest

/-- A report that is there after a move was there before, or its task was in the phase `reporting`
with it. -/
theorem mem_reports_move {s : Scheduler β η} (htidy : s.core.Tidy) {m : Move η} {r : TaskRef}
    {report : TaskReport} (h : (r, report) ∈ (s.move m).reports) :
    (r, report) ∈ s.reports ∨ ∃ t, s.task? r = some t ∧ t.phase = .reporting report := by
  obtain ⟨out, htasks, hreports⟩ := (s.core_move m).tasksStep htidy.tracked
  have hmem : (r, report) ∈ s.core.reports ++ out := hreports ▸ h
  rcases List.mem_append.1 hmem with hold | hnew
  · exact .inl hold
  · exact .inr (htasks.phase_of_mem hnew)

/-- A task that is `Forsaken` enters no stage whatever happens, and all that is reported of it is
that it was canceled. -/
theorem forsaken_afterMoves {s : Scheduler β η} (htidy : s.core.Tidy) {r : TaskRef} {t : Task η}
    (ht : s.task? r = some t) (h : t.Forsaken)
    (hreports : ∀ report, (r, report) ∈ s.reports → report.outcome = .error .canceled)
    (later : List (Move η)) :
    ∃ t', (s.afterMoves later).task? r = some t' ∧ t'.Forsaken ∧
      ∀ report, (r, report) ∈ (s.afterMoves later).reports →
        report.outcome = .error .canceled := by
  induction later generalizing s t with
  | nil => exact ⟨t, ht, h, hreports⟩
  | cons m later ih =>
    obtain ⟨t', ht', hturn⟩ := (turns_move htidy.tracked m).old r t ht
    refine ih ((s.core_move m).tidy htidy) ht' (h.turn hturn) fun report hmem => ?_
    rcases mem_reports_move htidy hmem with hold | ⟨u, hu, hp⟩
    · exact hreports report hold
    · obtain rfl : t = u := Option.some.inj (ht.symm.trans hu)
      have hphase := h.phase
      rw [hp] at hphase
      exact of_decide_eq_true hphase

/-- A task that is canceled before it starts executes no stage afterwards, its path stays empty,
every report of it says that it was canceled, and it has one report when it comes to its end. -/
theorem canceled_before_start (config : SchedulerConfig) (queue : β) (metrics : Option Metrics)
    (moves : List (Move η)) {m : Move η}
    (hmoves : (new config queue metrics).Possible (moves ++ [m]) = true) {r : TaskRef}
    {t t' : Task η} (ht : ((new config queue metrics).afterMoves moves).task? r = some t)
    (hinit : t.status = .init)
    (ht' : (((new config queue metrics).afterMoves moves).move m).task? r = some t')
    (hcanceled : t'.status = .canceled) (later : List (Move η)) :
    let s := (((new config queue metrics).afterMoves moves).move m).afterMoves later
    s.executing r = [] ∧ ∃ t'', s.task? r = some t'' ∧ t''.path = [] ∧
      (∀ report, (r, report) ∈ s.reports → report.outcome = .error .canceled) ∧
      (t''.phase.isReported = true → s.core.reportCount r = 1) := by
  intro s
  obtain ⟨hbefore, hm⟩ := possible_concat.1 hmoves
  have hnew := consistent_new (η := η) config queue metrics
  let s₁ := (new config queue metrics).afterMoves moves
  have hs : s₁.Consistent := hnew.afterMoves hbefore
  have huntouched := hnew.untouched_afterMoves (by simp [new]) hbefore t (List.mem_of_getElem? ht)
  have hs' := hs.move hm
  obtain ⟨u, hu, hturn⟩ := (turns_move hs.tidy.tracked m).old r t ht
  obtain rfl : t' = u := Option.some.inj (ht'.symm.trans hu)
  have hregistered : t'.registered = true := by
    cases hreg : t'.registered with
    | true => rfl
    | false =>
      have hinit' := (hs'.lawful t' (List.mem_of_getElem? ht')).status hreg
      exact absurd (hinit'.symm.trans hcanceled) (by simp)
  obtain ⟨hforsaken, hpending⟩ := huntouched.forsaken hinit hturn hcanceled hregistered
  have hnone : ∀ report, (r, report) ∉ (s₁.move m).reports := by
    intro report hmem
    have hcount : (s₁.move m).core.reportCount r = 0 := by
      rw [hs'.tidy.reportCount_eq ht']
      revert hpending
      cases t'.phase <;> simp [Phase.isPending, Phase.isReported]
    have hpos : 0 < (s₁.move m).core.reportCount r :=
      List.count_pos_iff.2 (List.mem_map.2 ⟨(r, report), hmem, rfl⟩)
    omega
  obtain ⟨t'', ht'', hstill, hreports⟩ := forsaken_afterMoves hs'.tidy ht' hforsaken
    (fun report hmem => absurd hmem (hnone report)) later
  have htidy : s.core.Tidy := afterMoves_induction Core.Step.tidy _ hs'.tidy later
  refine ⟨?_, t'', ht'', hstill.path, hreports, fun hreported => ?_⟩
  · rw [executing, ht'']
    exact hstill.executing_eq_nil
  · rw [htidy.reportCount_eq ht'', if_pos hreported]

/-! ### Stages along a history -/

/-- However the steps follow each other, a stage is entered only while its task is not canceled, the
deadline of the context of the entry is ahead, and the token of that context is not canceled.  The
task has a context of its own, which its worker made from the base token and the timeout of the
task: a stage that no other stage calls is entered under it, and one that is entered under a token
that descends from it is entered only while neither the token of the task nor the base token is
canceled.  A task that is canceled before it starts executes no stage afterwards, its path stays
empty, and it is reported once, as canceled. -/
theorem enters_only_while_live (config : SchedulerConfig) (queue : β) (metrics : Option Metrics)
    (moves : List (Move η)) :
    let s₀ : Scheduler β η := new config queue metrics
    let s := s₀.afterMoves moves
    (∀ m r stage c, s.Enters m r stage c → ∃ t run, s.task? r = some t ∧
      s₀.RunsUnder moves r run ∧ t.token = some run.token ∧ t.status ≠ .canceled ∧
      (∀ d, c.deadline = some d → s.now < d) ∧ s.contexts.isCanceled c.token = false ∧
      (s.executing r = [] → c = run) ∧
      (s.contexts.tree.Descends run.token c.token →
        s.contexts.isCanceled run.token = false ∧ s.contexts.isCanceled baseToken = false)) ∧
    (∀ m r t t', s₀.Possible (moves ++ [m]) = true → s.task? r = some t → t.status = .init →
      (s.move m).task? r = some t' → t'.status = .canceled → ∀ later,
        let s' := (s.move m).afterMoves later
        s'.executing r = [] ∧ ∃ t'', s'.task? r = some t'' ∧ t''.path = [] ∧
          (∀ report, (r, report) ∈ s'.reports → report.outcome = .error .canceled) ∧
          (t''.phase.isReported = true → s'.core.reportCount r = 1)) := by
  intro s₀ s
  constructor
  · intro m r stage c h
    exact entered_under config queue metrics moves h
  · intro m r t t' hmoves ht hinit ht' hcanceled later
    exact canceled_before_start config queue metrics moves hmoves ht hinit ht' hcanceled later

/-- A queue in memory that holds one task with a timeout of ten milliseconds. -/
def oneTimedTask : MemoryQueue := (MemoryQueue.push {} ⟨"job", .null, some 10⟩ 0).2

/-- A task is given to a worker and stands before its first stage. -/
def armedHistory (wall : Timestamp) : List (Event Unit) :=
  [.register "job" ⟨"outer", ()⟩, .register "other" ⟨"inner", ()⟩, .callRun, .ping 0, .stepPop 0,
    .pop 0 wall, .stepPop 0, .stepPop 0, .stepDispatch 0, .stepDispatch 0] ++ ownSteps 5

/-- A task that was canceled in the buffer is dispatched and reported. -/
def passedOverHistory (wall : Timestamp) : List (Event Unit) :=
  [.stepDispatch 0, .stepDispatch 0, .stepTask 0, .report 0 wall]

/-- `enters_only_while_live` for a task with a timeout of ten milliseconds: its worker enters the
only stage while its context is live, and when the task is canceled in the buffer it is reported
once instead. -/
theorem enters_only_while_live_oneTimedTask :
    let s₀ : Scheduler MemoryQueue Unit := new .default oneTimedTask none
    let s := s₀.afterMoves ((armedHistory .epoch).map .event)
    let buffered := s₀.afterMoves (((armedHistory .epoch).take 8).map .event)
    let canceled := buffered.move (.event (.cancel "1" .epoch))
    s.Enters (.event (.stepTask 0)) 0 ⟨"outer", ()⟩ ⟨1, some 10000000⟩ ∧
      s.contexts.isCanceled baseToken = false ∧
      (canceled.afterMoves ((passedOverHistory .epoch).map .event)).core.reportCount 0 = 1 := by
  intro s₀ s buffered canceled
  have henters : s.Enters (.event (.stepTask 0)) 0 ⟨"outer", ()⟩ ⟨1, some 10000000⟩ := by
    unfold Enters
    decide
  have hlive : s.contexts.isCanceled baseToken = false := by
    have hentered := (enters_only_while_live .default oneTimedTask none
      ((armedHistory .epoch).map .event)).1 _ _ _ _ henters
    obtain ⟨t, run, -, -, -, -, -, -, hrun, hdescends⟩ := hentered
    have hfirst : s.executing 0 = [] := by decide
    obtain rfl := hrun hfirst
    exact (hdescends .refl).2
  refine ⟨henters, hlive, ?_⟩
  have hinit : (buffered.task? 0).any (fun t => t.status = .init) = true := by decide
  have hcanceled : (canceled.task? 0).any (fun t => t.status = .canceled) = true := by decide
  obtain ⟨t, ht, hinit⟩ := (Option.any_eq_true _ _).1 hinit
  obtain ⟨t', ht', hcanceled⟩ := (Option.any_eq_true _ _).1 hcanceled
  have hforsaken := (enters_only_while_live .default oneTimedTask none
    (((armedHistory .epoch).take 8).map .event)).2 (.event (.cancel "1" .epoch)) 0 t t' (by decide)
    ht (of_decide_eq_true hinit) ht' (of_decide_eq_true hcanceled)
    ((passedOverHistory .epoch).map .event)
  obtain ⟨-, t'', ht'', -, -, hreported⟩ := hforsaken
  apply hreported
  have hout : ((canceled.afterMoves ((passedOverHistory .epoch).map .event)).task? 0).any
      (fun t => t.phase.isReported) = true := by decide
  rw [ht''] at hout
  exact hout

/-- The stage of a task calls a pipeline under a context of nobody, after the deadline has passed
and its timer has fired. -/
def overdueHistory (wall : Timestamp) : List (Event Unit) :=
  armedHistory wall ++ [.stepTask 0, .background, .pass 30000000, .fireTimer,
    .callPipeline 0 ⟨2, none⟩ "other" .first]

/-- After `overdueHistory` a stage is entered although the deadline of its task has passed and the
token was canceled: it is enough that another stage calls its pipeline under another context. -/
theorem exists_enters_overdue :
    let s : Scheduler MemoryQueue Unit :=
      (new .default oneTimedTask none).after (overdueHistory .epoch)
    ∃ stage c, s.Enters (.event (.stepTask 0)) 0 stage c ∧
      (s.task? 0).any (fun t => t.token.any s.contexts.isCanceled &&
        t.phase.context?.any fun run =>
          t.token == some run.token && run.deadline.any fun d => decide (d ≤ s.now)) = true := by
  refine ⟨⟨"inner", ()⟩, ⟨2, none⟩, ?_, by decide⟩
  unfold Enters
  decide

end Scheduler

end TaskScheduler
