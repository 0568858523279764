import TaskScheduler.Proofs.Scheduler.OwnMoves

/-!
# What a run meets

A run goes through the stages of its pipeline one after the other.  What happens to it at a stage is
not in its hands: before the stage something may say that it has to stop, and once it is entered the
stage returns an outcome or breaks off, possibly after calls of other pipelines.  A `Meeting` is one
of these, and `Pipeline.process` folds the stages of a pipeline, from left to right, over the
meetings of a run.  The fold is written in the monad in which it is natural: it ends with the first
error, and leaves a `Trail` of the stages that it called, with what it gave them, and of the names
of all stages that were entered.

`Scheduler.watch` reads the meetings of the run of one task off a history, with the calls and the
entries of stages that can be seen from outside.  It looks at the moves and at the tasks; where a
worker goes after a stage, and with which input, it does not say.  That the two agree is shown in
`TaskScheduler.Proofs.Scheduler.RunOutcome`.
-/

namespace TaskScheduler

variable {β η : Type}

/-! ### The fold of a pipeline -/

/-- What a run meets at one stage of its pipeline. -/
inductive Meeting where
  /-- Before the stage something says that the run has to stop. -/
  | stopped (e : TaskError)
  /-- The stage was entered, had these stages entered by the pipelines that it called, and
  returned. -/
  | returned (inner : List String) (o : Outcome)
  /-- The stage was entered, had these stages entered, and the stage or one of them broke off. -/
  | brokeOff (inner : List String) (p : Payload)
  deriving DecidableEq, Repr

/-- What a run leaves behind. -/
structure Trail (η : Type) where
  /-- The stages of its pipeline that it called, and what it gave them. -/
  calls : List (Stage η × StageInput) := []
  /-- The names of all stages that were entered. -/
  path : List String := []
  deriving DecidableEq, Repr

/-- A computation that leaves a trail and may end with an error. -/
abbrev TrailM (η : Type) := ExceptT TaskError (StateM (Trail η))

/-- A stage is called. -/
def Trail.enter (trail : Trail η) (stage : Stage η) (input : StageInput) (inner : List String) :
    Trail η :=
  ⟨trail.calls ++ [(stage, input)], trail.path ++ stage.name :: inner⟩

/-- Go through one stage: what it is given, what the run meets there, and what the next stage is
given.  A stage that breaks off is reported with the text that it left, or with a fixed text if it
left none, and with the path as it is then. -/
def Stage.process (stage : Stage η) (input : StageInput) : Meeting → TrailM η StageInput
  | .stopped e => throw e
  | .returned inner o => do
    modify fun trail => trail.enter stage input inner
    match o with
    | .ok v => return .value v
    | .error e => throw e
  | .brokeOff inner p => do
    modify fun trail => trail.enter stage input inner
    let text := match p with
      | .text s => s
      | .other => "panic with non-string payload"
    throw (.unexpected text (← get).path)

/-- `Stage.process` by the meeting: what it makes of the trail and of the next input.  The text of a
break off is that of `Payload.message`. -/
theorem Stage.run_process (stage : Stage η) (input : StageInput) (m : Meeting) (trail : Trail η) :
    (stage.process input m).run.run trail =
      match m with
      | .stopped e => (.error e, trail)
      | .returned inner o => (o.map .value, trail.enter stage input inner)
      | .brokeOff inner p =>
        (.error (.unexpected p.message (trail.enter stage input inner).path),
          trail.enter stage input inner) := by
  cases m with
  | stopped => rfl
  | brokeOff inner p => cases p <;> rfl
  | returned inner o => cases o <;> rfl

namespace Pipeline

/-- Go through the stages of a pipeline as far as there are meetings: what the next stage is given,
unless the run has ended, and the trail. -/
def follow (p : Pipeline η) (meetings : List Meeting) : Except TaskError StageInput × Trail η :=
  ((p.zip meetings).foldlM (fun input (met : Stage η × Meeting) => met.1.process input met.2)
    StageInput.first).run.run {}

/-- The outcome of a pipeline, and its trail.  When all stages are through, the result is the output
of the last one, and `null` when there was none. -/
def process (p : Pipeline η) (meetings : List Meeting) : Outcome × Trail η :=
  match p.follow meetings with
  | (.ok .first, trail) => (.ok .null, trail)
  | (.ok (.value v), trail) => (.ok v, trail)
  | (.error e, trail) => (.error e, trail)

/-- Where `follow` has come to the end of the pipeline, `process` has the result that the worker
takes. -/
theorem process_of_follow {p : Pipeline η} {meetings : List Meeting} {input : StageInput}
    {trail : Trail η} (h : p.follow meetings = (.ok input, trail)) :
    p.process meetings = (.ok input.result, trail) := by
  rw [process, h]
  cases input <;> rfl

/-- The trail of `process` is that of `follow`. -/
theorem snd_process (p : Pipeline η) (meetings : List Meeting) :
    (p.process meetings).2 = (p.follow meetings).2 := by
  rw [process]
  rcases p.follow meetings with ⟨_ | _ | _, trail⟩ <;> rfl

/-- Before the first meeting `follow` has the input of the first stage and an empty trail. -/
theorem follow_nil (p : Pipeline η) : p.follow [] = (.ok .first, {}) := by
  rw [follow, List.zip_nil_right]
  rfl

/-- As long as stages are left there have been fewer meetings than stages. -/
theorem length_lt {p : Pipeline η} {meetings : List Meeting} {stage : Stage η} {rest : Pipeline η}
    (hp : p.drop meetings.length = stage :: rest) : meetings.length < p.length := by
  have hlength := congrArg List.length hp
  rw [List.length_drop, List.length_cons] at hlength
  omega

/-- One meeting more leaves one stage less. -/
theorem drop_concat {p : Pipeline η} {meetings : List Meeting} {stage : Stage η} {rest : Pipeline η}
    (hp : p.drop meetings.length = stage :: rest) (m : Meeting) :
    p.drop (meetings ++ [m]).length = rest := by
  rw [List.length_append, List.length_singleton, ← List.drop_drop, hp]
  rfl

/-- With one meeting more `follow` goes through the next stage, which is given the output of the one
before and adds to the trail. -/
theorem follow_concat {p : Pipeline η} {meetings : List Meeting} {stage : Stage η}
    {rest : Pipeline η} {input : StageInput} {trail : Trail η}
    (h : p.follow meetings = (.ok input, trail)) (hp : p.drop meetings.length = stage :: rest)
    (m : Meeting) : p.follow (meetings ++ [m]) = (stage.process input m).run.run trail := by
  have hsplit : p = p.take meetings.length ++ stage :: rest := by
    rw [← hp, List.take_append_drop]
  have hlength : (p.take meetings.length).length = meetings.length :=
    List.length_take_of_le (Nat.le_of_lt (length_lt hp))
  have hzip : ∀ more : List Meeting, p.zip (meetings ++ more) =
      (p.take meetings.length).zip meetings ++ (stage :: rest).zip more := by
    intro more
    conv_lhs => rw [hsplit]
    exact List.zip_append hlength
  have hfirst := hzip []
  rw [List.append_nil, List.zip_nil_right, List.append_nil] at hfirst
  rw [follow, hfirst] at h
  rw [follow, hzip, List.zip_cons_cons, List.zip_nil_right, List.foldlM_append, ExceptT.run_bind,
    StateT.run_bind, h]
  simp only [List.foldlM_cons, List.foldlM_nil, bind_pure]
  rfl

end Pipeline

/-! ### What is seen of a run -/

/-- Whether a task stands before a stage of its own pipeline. -/
def Task.isBetween (t : Task η) : Bool :=
  match t.phase with
  | .running ⟨_, _ :: _, _, none, _⟩ [] => true
  | _ => false

/-- The stage of a task that is at work, and what it was given. -/
def Task.stage? (t : Task η) : Option (Stage η × StageInput) :=
  match t.phase with
  | .running ⟨_, _, input, some stage, _⟩ _ => some (stage, input)
  | _ => none

/-- A task `Within` its own stage does not stand before one. -/
theorem Task.Within.isBetween_eq_false {t : Task η} {above : List (Frame η)} {c : Context}
    {rest : Pipeline η} {input : StageInput} {stage : Stage η}
    (h : t.Within above c rest input stage) : t.isBetween = false := by
  rw [Task.isBetween]
  rcases h.cases_above with ⟨-, called, hp⟩ | ⟨f, above', called, -, hp⟩
  · rw [hp]
    cases rest <;> rfl
  · rw [hp]
    obtain ⟨-, _ | _, -, _ | _, -⟩ := f <;> cases above' <;> rfl

/-- What has been seen of a run. -/
structure RunLog (η : Type) extends Trail η where
  /-- What the run has met. -/
  meetings : List Meeting := []
  /-- The names of the stages entered since the last call of a stage of its own pipeline. -/
  inner : List String := []

namespace RunLog

/-- The run meets something. -/
def meet (log : RunLog η) (m : Meeting) : RunLog η :=
  { log with meetings := log.meetings ++ [m] }

/-- The run calls a stage of its own pipeline. -/
def call (log : RunLog η) (stage : Stage η) (input : StageInput) : RunLog η :=
  { log with
    calls := log.calls ++ [(stage, input)]
    path := log.path ++ [stage.name]
    inner := [] }

/-- A stage is entered in a pipeline that was called. -/
def nest (log : RunLog η) (stage : Stage η) : RunLog η :=
  { log with path := log.path ++ [stage.name], inner := log.inner ++ [stage.name] }

end RunLog

namespace Scheduler

/-- What the run of a task under a context meets in a move, if anything.  Before a stage of its
pipeline that is a reason to stop: the task is canceled, or else the context has ended, because
its deadline has passed or else because its token is canceled.  In a stage it is the end of the
stage. -/
def meeting? (s : Scheduler β η) (r : TaskRef) (c : Context) (inner : List String) (t : Task η) :
    Move η → Option Meeting
  | .event (.stepTask r') =>
    if r' = r ∧ t.isBetween then
      if t.status = .canceled then some (.stopped .canceled)
      else if ∃ d, c.deadline = some d ∧ d ≤ s.contexts.now then some (.stopped .deadlineExceeded)
      else if s.contexts.isCanceled c.token then some (.stopped .canceled)
      else none
    else none
  | .event (.returnFromStage r' o) =>
    if r' = r ∧ t.inStage ∧ t.executing.length = 1 then some (.returned inner o) else none
  | .event (.breakOff r' p) => if r' = r ∧ t.inStage then some (.brokeOff inner p) else none
  | _ => none

variable [TaskQueue β]

/-- The stage that is entered by a task, and what it is given, if one more stage is executing after
a move. -/
def entered? (s : Scheduler β η) (r : TaskRef) (m : Move η) : Option (Stage η × StageInput) :=
  if (s.executing r).length < ((s.move m).executing r).length then
    ((s.move m).task? r).bind Task.stage?
  else none

/-- One move more is seen of the run of a task under a context. -/
def observe (s : Scheduler β η) (r : TaskRef) (c : Context) (log : RunLog η) (m : Move η) :
    RunLog η :=
  let log := match (s.task? r).bind fun t => s.meeting? r c log.inner t m with
    | some met => log.meet met
    | none => log
  match s.entered? r m with
  | some (stage, input) =>
    if (s.executing r).isEmpty then log.call stage input else log.nest stage
  | none => log

/-- What is seen of the run of a task under a context in the course of a history. -/
def watch (s : Scheduler β η) (r : TaskRef) (c : Context) (log : RunLog η) :
    List (Move η) → RunLog η
  | [] => log
  | m :: moves => (s.move m).watch r c (s.observe r c log m) moves

end Scheduler

end TaskScheduler
