import TaskScheduler.Json.Text
import TaskScheduler.Time.Duration

/-!
# Task envelopes

An `Envelope` is the body of a queued task: its type, its payload and its timeout in whole
milliseconds.  It is stored as a JSON text with the members `type`, `data` and `timeout_ms`, the
last one left out when there is no timeout.  The reader takes the members in any order, skips
members that it does not know, and takes an array of the three values as well.
-/

namespace TaskScheduler

/-! ### Members of written objects -/

namespace Json

/-- The members of a written object with their keys as texts. -/
def keyed? : List (List Piece × Form) → Option (List (String × Form))
  | [] => some []
  | m :: rest =>
    match textOf? m.1, keyed? rest with
    | some k, some ms => some ((k, m.2) :: ms)
    | _, _ => none

/-- The forms of the members with a given key. -/
def formsAt (k : String) (members : List (String × Form)) : List Form :=
  (members.filter fun m => m.1 = k).map Prod.snd

/-- The form of a member that may be left out but not repeated. -/
def optional? (k : String) (members : List (String × Form)) : Option (Option Form) :=
  match formsAt k members with
  | [] => some none
  | [f] => some (some f)
  | _ => none

/-- The form of a member that stands exactly once. -/
def required? (k : String) (members : List (String × Form)) : Option Form :=
  match formsAt k members with
  | [f] => some f
  | _ => none

/-- The text of a form, if it is a string. -/
def Form.text? : Form → Option String
  | .str pieces => textOf? pieces
  | _ => none

/-- The number of a form, if it is a whole number of 64 bits without sign, fraction or exponent. -/
def Form.word? : Form → Option UInt64
  | .num n =>
    match n.value? with
    | some (.int i) => if 0 ≤ i.val then some (UInt64.ofNat i.val.toNat) else none
    | _ => none
  | _ => none

/-- What a reader makes of a form, or nothing for `null`. -/
def Form.nullable? {α : Type} (read : Form → Option α) : Form → Option (Option α)
  | .null => some none
  | f => (read f).map some

/-- How many arrays and objects a member of the outermost object may have inside one another. -/
def memberDepth : Nat := maxDepth - 1

end Json

/-! ### Envelopes -/

/-- The body of a queued task. -/
structure Envelope where
  /-- The type, which selects the pipeline. -/
  taskType : String
  /-- The payload, passed through untouched. -/
  data : Json
  /-- The timeout of a run in milliseconds. -/
  timeoutMs : Option UInt64
  deriving DecidableEq, Repr

/-- A task handed out by a queue. -/
structure PoppedTask where
  /-- The id that the queue gave when the task was pushed. -/
  id : String
  /-- The type, which selects the pipeline. -/
  taskType : String
  /-- The payload. -/
  data : Json
  /-- The timeout of a run. -/
  timeout : Option Duration
  deriving DecidableEq, Repr

namespace Envelope

open Json

/-- The envelope of a task.  An empty timeout counts as none, and any other is kept in whole
milliseconds. -/
def new (taskType : String) (data : Json) (timeout : Option Duration) : Envelope :=
  ⟨taskType, data, (timeout.filter fun t => !t.isZero).map Duration.millis⟩

/-- The timeout of a run.  Zero milliseconds count as none. -/
def timeout (e : Envelope) : Option Duration :=
  (e.timeoutMs.filter fun ms => ms ≠ 0).map Duration.ofMillis

/-- The task that a queue hands out for an envelope. -/
def popped (e : Envelope) (id : String) : PoppedTask := ⟨id, e.taskType, e.data, e.timeout⟩

/-- The written form of an envelope. -/
def form (e : Envelope) : Form :=
  .obj (
    [(piecesOf "type", .str (piecesOf e.taskType)), (piecesOf "data", e.data.form)] ++
      match e.timeoutMs with
      | none => []
      | some ms => [(piecesOf "timeout_ms", .num (.ofInt ms.toNat))])

/-- The text of an envelope. -/
def encode (e : Envelope) : String := String.ofList e.form.render

/-- The envelope with the given written parts. -/
def ofParts? (taskType data : Form) (timeoutMs : Option Form) : Option Envelope :=
  match taskType.text?, data.value? memberDepth,
    (timeoutMs.map (Form.nullable? Form.word?)).getD (some none) with
  | some taskType, some data, some timeoutMs => some ⟨taskType, data, timeoutMs⟩
  | _, _, _ => none

/-- The envelope with a written form. -/
def ofForm? : Form → Option Envelope
  | .obj members =>
    match keyed? members with
    | none => none
    | some ms =>
      match required? "type" ms, required? "data" ms, optional? "timeout_ms" ms with
      | some taskType, some data, some timeoutMs => ofParts? taskType data timeoutMs
      | _, _, _ => none
  | .arr [taskType, data] => ofParts? taskType data none
  | .arr [taskType, data, timeoutMs] => ofParts? taskType data (some timeoutMs)
  | _ => none

/-- The envelope of a text. -/
def decode? (text : String) : Option Envelope :=
  match Form.ofText? text.toList with
  | some f => ofForm? f
  | none => none

end Envelope

end TaskScheduler
