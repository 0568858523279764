import TaskScheduler.Task.Envelope
import TaskScheduler.Task.Report
import TaskScheduler.Time.Timestamp

/-!
# Result records

A `ResultRecord` is the form in which the report of a task is stored and shown.  Its JSON text has
seven members in a fixed order; the reader takes them in any order, and takes an array of the seven
values as well.
-/

namespace TaskScheduler

/-- The stored form of a report. -/
structure ResultRecord where
  /-- The id of the task. -/
  id : String
  /-- The type of the task. -/
  taskType : String
  /-- The final state. -/
  status : ReportStatus
  /-- The text of the error, if there was one. -/
  error : Option String
  /-- The result, if there was one. -/
  result : Option Json
  /-- The time from pop to completion in whole milliseconds. -/
  durationMs : UInt64
  /-- When the task finished. -/
  finishedAt : Timestamp
  deriving DecidableEq, Repr

/-- The record of a report that is stored at the given time. -/
def TaskReport.toRecord (r : TaskReport) (now : Timestamp) : ResultRecord where
  id := r.id
  taskType := r.taskType
  status := r.status
  error := r.error?.map TaskError.message
  result := r.result?
  durationMs := r.duration.millis
  finishedAt := now

namespace ResultRecord

open Json

/-- The written form of a value that may be missing. -/
def optionForm {α : Type} (write : α → Form) : Option α → Form
  | none => .null
  | some a => write a

/-- The written form of a record. -/
def form (r : ResultRecord) : Form :=
  .obj [(piecesOf "id", .str (piecesOf r.id)),
    (piecesOf "task_type", .str (piecesOf r.taskType)),
    (piecesOf "status", .str (piecesOf r.status.name)),
    (piecesOf "error", optionForm (fun e => .str (piecesOf e)) r.error),
    (piecesOf "result", optionForm Json.form r.result),
    (piecesOf "duration_ms", .num (.ofInt r.durationMs.toNat)),
    (piecesOf "finished_at", .str (piecesOf r.finishedAt.toText))]

/-- The text of a record without blanks. -/
def encode (r : ResultRecord) : String := String.ofList r.form.render

/-- The text of a record on several lines. -/
def prettyText (r : ResultRecord) : String := String.ofList (r.form.pretty 0)

/-- The status in a written form: its name, or an object whose only member has that name and the
value `null`. -/
def statusOf? : Form → Option ReportStatus
  | .str pieces => (textOf? pieces).bind ReportStatus.ofName?
  | .obj [(pieces, .null)] => (textOf? pieces).bind ReportStatus.ofName?
  | _ => none

/-- The record with the given written parts. -/
def ofParts? (id taskType status error result durationMs finishedAt : Form) :
    Option ResultRecord := do
  let id ← id.text?
  let taskType ← taskType.text?
  let status ← statusOf? status
  let error ← error.nullable? Form.text?
  let result ← result.nullable? (Form.value? memberDepth)
  let durationMs ← durationMs.word?
  let finishedAt ← finishedAt.text?.bind Timestamp.lenient?
  some ⟨id, taskType, status, error, result, durationMs, finishedAt⟩

/-- The record with a written form. -/
def ofForm? : Form → Option ResultRecord
  | .obj members => do
    let ms ← keyed? members
    let error ← optional? "error" ms
    let result ← optional? "result" ms
    ofParts? (← required? "id" ms) (← required? "task_type" ms) (← required? "status" ms)
      (error.getD .null) (result.getD .null) (← required? "duration_ms" ms)
      (← required? "finished_at" ms)
  | .arr [id, taskType, status, error, result, durationMs, finishedAt] =>
    ofParts? id taskType status error result durationMs finishedAt
  | _ => none

/-- The record of a text. -/
def decode? (text : String) : Option ResultRecord :=
  match Form.ofText? text.toList with
  | some f => ofForm? f
  | none => none

end ResultRecord

end TaskScheduler
