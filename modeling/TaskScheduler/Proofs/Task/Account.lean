import TaskScheduler.Queue.Memory

/-!
# What popped tasks and records say

Three functions carry a task from one form to the next: `Envelope.popped` makes the task that a
queue hands out, `TaskReport.toRecord` the record of a report, and `MemoryQueue.canceledRecord` the
record of a cancelation.  The predicates of this module say field by field what each of the three
has to give, without a call of the function itself, so that a statement about a queue can be read
without these functions.
-/

namespace TaskScheduler

/-! ### Popped tasks -/

/-- `task` is what a queue hands out for the envelope `e` that was pushed under `id`: the id, the
type, the payload, and the timeout.  An envelope without `timeoutMs`, or with zero milliseconds, has
no timeout. -/
structure Envelope.IsHandedOutAs (e : Envelope) (id : String) (task : PoppedTask) : Prop where
  /-- The id is that of the push. -/
  id : task.id = id
  /-- The type is the pushed one. -/
  taskType : task.taskType = e.taskType
  /-- The payload is the pushed one. -/
  data : task.data = e.data
  /-- The timeout is the pushed number of milliseconds, counted in nanoseconds. -/
  timeout : task.timeout.map Duration.nanos =
    match e.timeoutMs with
    | none => none
    | some ms => if ms = 0 then none else some (ms.toNat * 10 ^ 6)

namespace Envelope

variable {e : Envelope} {id : String} {task task' : PoppedTask}

/-- Durations are determined by their `nanos`, and so are timeouts. -/
theorem timeout_injective : Function.Injective (Option.map Duration.nanos) := by
  refine Option.map_injective fun d d' h => ?_
  obtain ⟨n, hn⟩ := d
  obtain ⟨n', hn'⟩ := d'
  obtain rfl : n = n' := h
  rfl

/-- `Envelope.popped` gives what a queue has to hand out. -/
theorem isHandedOutAs_popped (e : Envelope) (id : String) : e.IsHandedOutAs id (e.popped id) where
  id := rfl
  taskType := rfl
  data := rfl
  timeout := by
    obtain ⟨taskType, data, _ | ms⟩ := e
    · rfl
    · by_cases hms : ms = 0
      · simp [popped, Envelope.timeout, hms]
      · simp [popped, Envelope.timeout, hms, Duration.ofMillis, Option.filter]

/-- Only one task can be handed out for an envelope under an id. -/
theorem IsHandedOutAs.unique (h : e.IsHandedOutAs id task) (h' : e.IsHandedOutAs id task') :
    task = task' := by
  have htimeout := timeout_injective (h.timeout.trans h'.timeout.symm)
  obtain ⟨id₁, type₁, data₁, timeout₁⟩ := task
  obtain ⟨id₂, type₂, data₂, timeout₂⟩ := task'
  obtain rfl : id₁ = id₂ := h.id.trans h'.id.symm
  obtain rfl : type₁ = type₂ := h.taskType.trans h'.taskType.symm
  obtain rfl : data₁ = data₂ := h.data.trans h'.data.symm
  obtain rfl : timeout₁ = timeout₂ := htimeout
  rfl

/-- A queue hands out `Envelope.popped` exactly when it hands out what it has to. -/
theorem eq_popped_iff {answer : Except QueueError PoppedTask} :
    answer = .ok (e.popped id) ↔ ∃ task, answer = .ok task ∧ e.IsHandedOutAs id task := by
  constructor
  · rintro rfl
    exact ⟨_, rfl, isHandedOutAs_popped e id⟩
  · rintro ⟨task, rfl, htask⟩
    rw [htask.unique (isHandedOutAs_popped e id)]

end Envelope

/-! ### Records -/

/-- How the end of a run is told in a record: by the status, by the text of the error if there was
one, and by the result if there was one. -/
inductive Outcome.IsTold : Outcome → ReportStatus → Option String → Option Json → Prop where
  /-- The pipeline returned a value. -/
  | completed (v : Json) : IsTold (.ok v) .completed none (some v)
  /-- The task was canceled. -/
  | canceled : IsTold (.error .canceled) .canceled (some "task canceled") none
  /-- The deadline passed. -/
  | timeout : IsTold (.error .deadlineExceeded) .timeout (some "task deadline exceeded") none
  /-- A stage returned an error; only the outermost text is told. -/
  | handler (text : String) (causes : List String) :
    IsTold (.error (.handler text causes)) .failed (some text) none
  /-- A stage broke off; the path of stages is told before the text. -/
  | unexpected (text : String) (path : List String) :
    IsTold (.error (.unexpected text path)) .failed
      (some ("unexpected error at [" ++ " > ".intercalate path ++ "]: " ++ text)) none
  /-- No pipeline was registered for the type of the task. -/
  | noPipeline (taskType : String) :
    IsTold (.error (.noPipeline taskType)) .failed
      (some ("no pipeline registered for task type '" ++ taskType ++ "'")) none

/-- `record` is what has to be kept of the report `r` that was stored at `now`. -/
structure TaskReport.IsKeptAs (r : TaskReport) (now : Timestamp) (record : ResultRecord) :
    Prop where
  /-- The id is that of the report. -/
  id : record.id = r.id
  /-- The type is that of the report. -/
  taskType : record.taskType = r.taskType
  /-- The outcome of the report is told. -/
  outcome : Outcome.IsTold r.outcome record.status record.error record.result
  /-- The duration is cut to whole milliseconds, which are counted in 64 bits. -/
  durationMs : record.durationMs.toNat = r.duration.nanos / 10 ^ 6 % 2 ^ 64
  /-- The task finished when the report was stored. -/
  finishedAt : record.finishedAt = now

/-- `TaskReport.toRecord` gives what has to be kept of a report. -/
theorem TaskReport.isKeptAs_toRecord (r : TaskReport) (now : Timestamp) :
    r.IsKeptAs now (r.toRecord now) where
  id := rfl
  taskType := rfl
  outcome := by
    obtain ⟨id, taskType, duration, outcome⟩ := r
    rcases outcome with (_ | _ | _ | _ | _) | v
    · exact .canceled
    · exact .timeout
    · exact .handler _ _
    · exact .unexpected _ _
    · exact .noPipeline _
    · exact .completed v
  durationMs := UInt64.toNat_ofNat'
  finishedAt := rfl

/-- `record` is what has to be kept of the task `e` under `id` when it is canceled in the queue at
`now`. -/
structure Envelope.IsCanceledAs (e : Envelope) (id : String) (now : Timestamp)
    (record : ResultRecord) : Prop where
  /-- The id is that of the push. -/
  id : record.id = id
  /-- The type is the pushed one. -/
  taskType : record.taskType = e.taskType
  /-- The task was canceled. -/
  status : record.status = .canceled
  /-- The error says so too. -/
  error : record.error = some "task canceled"
  /-- There is no result. -/
  result : record.result = none
  /-- The task never ran. -/
  durationMs : record.durationMs = 0
  /-- The task finished when it was canceled. -/
  finishedAt : record.finishedAt = now

/-- `MemoryQueue.canceledRecord` gives what has to be kept of a canceled task. -/
theorem Envelope.isCanceledAs_canceledRecord (e : Envelope) (id : String) (now : Timestamp) :
    e.IsCanceledAs id now (MemoryQueue.canceledRecord id e now) :=
  ⟨rfl, rfl, rfl, rfl, rfl, rfl, rfl⟩

end TaskScheduler
