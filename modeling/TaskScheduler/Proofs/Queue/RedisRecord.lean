import TaskScheduler.Proofs.Queue.RedisView
import TaskScheduler.Proofs.Time.Timestamp
import TaskScheduler.Queue.Memory

/-!
# Records in the hash of a task

The hash of a task is made of texts.  What `get` finds in it depends on the text at every name only,
so the stages of a task are told apart by a few names: a task is pending until its outcome is
written beside its body.
-/

namespace TaskScheduler.RedisQueue

open Redis

/-! ### Hashes made of texts -/

/-- What is written consists of texts. -/
def AreTexts (written : List (Bytes × Bytes)) : Prop := ∀ x ∈ written, ∃ a b, x = field a b

/-- Fields and values of a hash are texts. -/
def IsText (fields : FiniteMap Bytes Bytes) : Prop := AreTexts fields.entries

/-- `IsText` holds of a hash without fields. -/
theorem isText_empty : IsText .empty := List.forall_mem_nil _

/-- What is found in a hash of which `IsText` holds is a text. -/
theorem IsText.exists_text {fields : FiniteMap Bytes Bytes} (h : IsText fields) {name value : Bytes}
    (hget : fields.get? name = some value) : ∃ text, value = Bytes.ofString text := by
  obtain ⟨a, b, hfield⟩ := h _ (FiniteMap.mem_of_find hget)
  exact ⟨b, (Prod.mk.inj hfield).2⟩

/-- Putting a text into a list that consists of texts leaves one that does. -/
theorem areTexts_put {l : List (Bytes × Bytes)} (h : AreTexts l) (a b : String) :
    AreTexts (FiniteMap.put (Bytes.ofString a) (Bytes.ofString b) l) := by
  induction l with
  | nil => exact List.forall_mem_singleton.2 ⟨a, b, rfl⟩
  | cons e rest ih =>
    obtain ⟨he, hrest⟩ := List.forall_mem_cons.1 h
    unfold FiniteMap.put
    split
    · exact List.forall_mem_cons.2 ⟨⟨a, b, rfl⟩, hrest⟩
    · exact List.forall_mem_cons.2 ⟨he, ih hrest⟩

/-- Writing texts into a hash keeps `IsText`. -/
theorem IsText.insertMany {fields : FiniteMap Bytes Bytes} (h : IsText fields)
    {written : List (Bytes × Bytes)} (hw : AreTexts written) :
    IsText (fields.insertMany written) := by
  induction written generalizing fields with
  | nil => exact h
  | cons e written ih =>
    obtain ⟨⟨a, b, rfl⟩, hrest⟩ := List.forall_mem_cons.1 hw
    exact ih (areTexts_put h a b) hrest

/-- If `IsText` holds of every hash, it does so after texts were written into one of them. -/
theorem isText_update {hash : String → FiniteMap Bytes Bytes} (h : ∀ id, IsText (hash id))
    {id : String} {fields : FiniteMap Bytes Bytes} (hfields : IsText fields) :
    ∀ id', IsText (Function.update hash id fields id') := by
  intro id'
  rcases eq_or_ne id' id with rfl | hne
  · rw [Function.update_self]
    exact hfields
  · rw [Function.update_of_ne hne]
    exact h id'

/-- The `pushedFields` of a push consist of texts. -/
theorem areTexts_pushedFields (id : String) (e : Envelope) : AreTexts (pushedFields id e) := by
  unfold AreTexts pushedFields
  simp only [List.mem_cons, List.not_mem_nil, or_false]
  rintro x (rfl | rfl | rfl) <;> exact ⟨_, _, rfl⟩

/-- A single `field` of two texts, as a pop writes it, consists of texts. -/
theorem areTexts_singleton (a b : String) : AreTexts [field a b] :=
  List.forall_mem_singleton.2 ⟨a, b, rfl⟩

/-- The `canceledFields` of a cancelation consist of texts. -/
theorem areTexts_canceledFields (now : Timestamp) : AreTexts (canceledFields now) := by
  unfold AreTexts canceledFields
  simp only [List.mem_cons, List.not_mem_nil, or_false]
  rintro x (rfl | rfl | rfl) <;> exact ⟨_, _, rfl⟩

/-- The `reportedFields` of a report consist of texts. -/
theorem areTexts_reportedFields (record : ResultRecord) : AreTexts (reportedFields record) := by
  unfold AreTexts reportedFields
  rw [List.forall_mem_append, List.forall_mem_append]
  refine ⟨⟨?_, ?_⟩, ?_⟩
  · simp only [List.mem_cons, List.not_mem_nil, or_false]
    rintro x (rfl | rfl | rfl | rfl) <;> exact ⟨_, _, rfl⟩
  · cases record.error with
    | none => exact List.forall_mem_nil _
    | some error => exact areTexts_singleton "error" error
  · cases record.result with
    | none => exact List.forall_mem_nil _
    | some result => exact areTexts_singleton "result" result.compact

/-! ### The text at a name -/

/-- The text at a name in a hash. -/
def textAt (fields : FiniteMap Bytes Bytes) (name : String) : Option String :=
  (fields.get? (Bytes.ofString name)).bind Bytes.toString?

/-- A hash without fields has no texts. -/
theorem textAt_empty (name : String) : textAt .empty name = none := rfl

/-- What is written at a name is the `textAt` this name, and no other changes. -/
theorem textAt_insert (fields : FiniteMap Bytes Bytes) (a b name : String) :
    textAt (fields.insert (Bytes.ofString a) (Bytes.ofString b)) name =
      if name = a then some b else textAt fields name := by
  have hiff : Bytes.ofString name = Bytes.ofString a ↔ name = a :=
    ⟨Bytes.ofString_injective, congrArg _⟩
  unfold textAt
  rw [FiniteMap.get?_insert]
  by_cases h : name = a
  · rw [if_pos h, if_pos (hiff.2 h), Option.bind_some, Bytes.toString?_ofString]
  · rw [if_neg h, if_neg (mt hiff.1 h)]

/-- If nothing is written, every `textAt` stays. -/
theorem textAt_insertMany_nil (fields : FiniteMap Bytes Bytes) (name : String) :
    textAt (fields.insertMany []) name = textAt fields name := rfl

/-- Fields are written one after the other, so that at one name the last of them is found. -/
theorem textAt_insertMany_cons (fields : FiniteMap Bytes Bytes) (a b : String)
    (written : List (Bytes × Bytes)) (name : String) :
    textAt (fields.insertMany (field a b :: written)) name =
      textAt ((fields.insert (Bytes.ofString a) (Bytes.ofString b)).insertMany written) name := rfl

/-- The `textAt` every name in the hash of a task after a cancelation. -/
theorem textAt_canceledFields (fields : FiniteMap Bytes Bytes) (now : Timestamp) (name : String) :
    textAt (fields.insertMany (canceledFields now)) name =
      if name = "finished_at" then some now.toOffsetText
      else if name = "error" then some TaskError.canceled.message
      else if name = "state" then some "canceled" else textAt fields name := by
  unfold canceledFields
  simp only [textAt_insertMany_cons, textAt_insertMany_nil, textAt_insert]

/-- The `textAt` every name in the hash of a task after a report.  A missing error or result is not
written, and what the hash has at its name stays. -/
theorem textAt_reportedFields (fields : FiniteMap Bytes Bytes) (r : TaskReport) (now : Timestamp)
    (name : String) :
    textAt (fields.insertMany (reportedFields (r.toRecord now))) name =
      if name = "result" ∧ (r.toRecord now).result.isSome then
        (r.toRecord now).result.map Json.compact
      else if name = "error" ∧ (r.toRecord now).error.isSome then (r.toRecord now).error
      else if name = "finished_at" then some now.toOffsetText
      else if name = "duration_ms" then some (wordText r.duration.millis)
      else if name = "type" then some r.taskType
      else if name = "state" then some r.status.name else textAt fields name := by
  unfold reportedFields
  cases (r.toRecord now).error <;> cases (r.toRecord now).result <;>
    simp [textAt_insertMany_cons, textAt_insertMany_nil, textAt_insert] <;> rfl

/-- `textFields?` reads a list that consists of texts, with the same text at every name. -/
theorem exists_textFields?_eq {l : List (Bytes × Bytes)} (h : AreTexts l) :
    ∃ texts, textFields? l = some texts ∧ ∀ name, FiniteMap.find name texts =
      (FiniteMap.find (Bytes.ofString name) l).bind Bytes.toString? := by
  induction l with
  | nil => exact ⟨[], rfl, fun _ => rfl⟩
  | cons e rest ih =>
    obtain ⟨⟨a, b, rfl⟩, hrest⟩ := List.forall_mem_cons.1 h
    obtain ⟨texts, htexts, hfind⟩ := ih hrest
    refine ⟨(a, b) :: texts, ?_, fun name => ?_⟩
    · unfold textFields? field
      simp only [Bytes.toString?_ofString, htexts]
    · have hiff : Bytes.ofString a = Bytes.ofString name ↔ a = name :=
        ⟨Bytes.ofString_injective, congrArg _⟩
      unfold FiniteMap.find field
      by_cases hname : a = name
      · rw [if_pos hname, if_pos (hiff.2 hname), Option.bind_some, Bytes.toString?_ofString]
      · rw [if_neg hname, if_neg (mt hiff.1 hname), hfind]

/-! ### What `get` reads -/

/-- Whenever it is asked, `get` finds the record in the hash of a task, but for the time at which
the task finished. -/
def Reads (id : String) (fields : FiniteMap Bytes Bytes) (record : Option ResultRecord) : Prop :=
  ∀ now, ∃ texts finishedAt, textFields? fields.entries = some texts ∧
    recordOf id texts now = .ok (record.map fun r => { r with finishedAt := finishedAt })

/-- Without a state that ends a task `get` finds no record in a hash made of texts. -/
theorem reads_none {id : String} {fields : FiniteMap Bytes Bytes} (htext : IsText fields)
    (hstate : (textAt fields "state").bind ReportStatus.ofName? = none) : Reads id fields none := by
  intro now
  obtain ⟨texts, htexts, hfind⟩ := exists_textFields?_eq htext
  refine ⟨texts, now, htexts, ?_⟩
  have hnone : (FiniteMap.find "state" texts).bind ReportStatus.ofName? = none := by
    rw [hfind]
    exact hstate
  unfold recordOf
  rw [hnone]
  rfl

/-- If the state of a hash does not end a task, the only record that it `Reads` is none. -/
theorem Reads.eq_none {id : String} {fields : FiniteMap Bytes Bytes} {record : Option ResultRecord}
    (h : Reads id fields record) (htext : IsText fields)
    (hstate : (textAt fields "state").bind ReportStatus.ofName? = none) : record = none := by
  obtain ⟨texts, t, htexts, hrecord⟩ := h .epoch
  obtain ⟨texts', t', htexts', hnone⟩ := reads_none htext hstate .epoch
  obtain rfl : texts = texts' := Option.some.inj (htexts.symm.trans htexts')
  have hmap := Except.ok.inj (hrecord.symm.trans hnone)
  rwa [Option.map_none, Option.map_eq_none_iff] at hmap

/-- With a state that ends a task `get` finds a record, made of the texts that the hash has. -/
theorem reads_some {id : String} {fields : FiniteMap Bytes Bytes} (htext : IsText fields)
    {record : ResultRecord} (hid : record.id = id)
    (hstate : textAt fields "state" = some record.status.name)
    (htype : textAt fields "type" = some record.taskType ∨
      textAt fields "type" = none ∧ ∃ e, (textAt fields "data").bind Envelope.decode? = some e ∧
        e.taskType = record.taskType)
    (herror : textAt fields "error" = record.error)
    (hresult : textAt fields "result" = record.result.map Json.compact)
    (hcompact : ∀ v, record.result = some v → Json.parse? v.compact = some v)
    (hduration : textAt fields "duration_ms" = some (wordText record.durationMs) ∨
      textAt fields "duration_ms" = none ∧ record.durationMs = 0)
    {finishedAt : Timestamp}
    (hfinished : textAt fields "finished_at" = some finishedAt.toOffsetText)
    (hyear : 0 ≤ finishedAt.date.year ∧ finishedAt.date.year ≤ 9999) :
    Reads id fields (some record) := by
  intro now
  obtain ⟨texts, htexts, hfind⟩ := exists_textFields?_eq htext
  replace hfind : ∀ name, FiniteMap.find name texts = textAt fields name := hfind
  refine ⟨texts, finishedAt, htexts, ?_⟩
  have hstatus : (FiniteMap.find "state" texts).bind ReportStatus.ofName? = some record.status := by
    rw [hfind, hstate]
    exact ReportStatus.ofName?_name _
  have htypeOf : typeOf id texts = .ok record.taskType := by
    unfold typeOf
    rw [hfind, hfind]
    rcases htype with htype | ⟨htype, e, hdata, he⟩
    · rw [htype]
    · obtain ⟨body, hbody, hdecode⟩ := Option.bind_eq_some_iff.1 hdata
      rw [htype, hbody]
      dsimp only
      rw [hdecode]
      exact congrArg Except.ok he
  have hresultOf : resultOf texts = .ok record.result := by
    unfold resultOf
    rw [hfind, hresult]
    cases hr : record.result with
    | none => rfl
    | some v =>
      dsimp only [Option.map_some]
      rw [hcompact v hr]
  have hdurationOf : durationOf id texts = .ok record.durationMs := by
    unfold durationOf
    rw [hfind]
    rcases hduration with hduration | ⟨hduration, hzero⟩
    · rw [hduration]
      dsimp only
      rw [wordLiteral?_wordText]
    · rw [hduration, hzero]
  have hfinishedOf : finishedOf id texts now = .ok finishedAt := by
    unfold finishedOf
    rw [hfind, hfinished]
    dsimp only
    rw [Timestamp.strict?_toOffsetText hyear]
  unfold recordOf
  rw [hstatus]
  dsimp only
  rw [htypeOf, hresultOf, hdurationOf, hfinishedOf, hfind, herror, ← hid]
  rfl

/-! ### The stages of a task -/

/-- The hash of a task without an outcome: a state, the body, and nothing that an outcome writes. -/
structure Pending (fields : FiniteMap Bytes Bytes) (state : String) (e : Envelope) : Prop where
  /-- The hash is made of texts. -/
  text : IsText fields
  /-- The task has a state. -/
  state : textAt fields "state" = some state
  /-- The task has a body. -/
  data : textAt fields "data" = some e.encode
  /-- No outcome is written. -/
  bare : ∀ name ∈ ["type", "error", "result", "duration_ms", "finished_at"],
    textAt fields name = none

/-- The hash of a task that was just pushed is `Pending`, with the state `queued`. -/
theorem Pending.of_push (id : String) (e : Envelope) :
    Pending (FiniteMap.empty.insertMany (pushedFields id e)) "queued" e where
  text := isText_empty.insertMany (areTexts_pushedFields id e)
  state := by
    simp [pushedFields, textAt_insertMany_cons, textAt_insertMany_nil, textAt_insert]
  data := by
    simp [pushedFields, textAt_insertMany_cons, textAt_insertMany_nil, textAt_insert]
  bare := by
    simp [pushedFields, textAt_insertMany_cons, textAt_insertMany_nil, textAt_insert, textAt_empty]

variable {fields : FiniteMap Bytes Bytes} {state id : String} {e : Envelope}

/-- A pop leaves the hash of its task `Pending`, with the state `popped`. -/
theorem Pending.pop (h : Pending fields state e) :
    Pending (fields.insertMany [field "state" "popped"]) "popped" e where
  text := h.text.insertMany (areTexts_singleton _ _)
  state := by
    rw [textAt_insertMany_cons, textAt_insertMany_nil, textAt_insert, if_pos rfl]
  data := by
    rw [textAt_insertMany_cons, textAt_insertMany_nil, textAt_insert, if_neg (by decide), h.data]
  bare := by
    intro name hname
    have hne : name ≠ "state" := by
      rintro rfl
      exact absurd hname (by decide)
    rw [textAt_insertMany_cons, textAt_insertMany_nil, textAt_insert, if_neg hne, h.bare name hname]

/-- `get` finds no record in a hash that is `Pending` with a state that ends no task. -/
theorem Pending.reads (h : Pending fields state e) (hstate : ReportStatus.ofName? state = none)
    (id : String) : Reads id fields none := by
  refine reads_none h.text ?_
  rw [h.state, Option.bind_some, hstate]

/-- With the `canceledFields` in it, a hash that was `Pending` reads as the record of a canceled
task, with the type that its body tells. -/
theorem Pending.reads_canceled (h : Pending fields state e)
    (hbody : Envelope.decode? e.encode = some e) (id : String) (memoryNow : Timestamp)
    {now : Timestamp} (hyear : 0 ≤ now.date.year ∧ now.date.year ≤ 9999) :
    Reads id (fields.insertMany (canceledFields now))
      (some (MemoryQueue.canceledRecord id e memoryNow)) := by
  have htext := h.text.insertMany (areTexts_canceledFields now)
  have hlook := textAt_canceledFields fields now
  have hstate : textAt (fields.insertMany (canceledFields now)) "state" = some "canceled" := by
    simp [hlook]
  have htype : textAt (fields.insertMany (canceledFields now)) "type" = none := by
    simp [hlook, h.bare "type" (by decide)]
  have hdata : textAt (fields.insertMany (canceledFields now)) "data" = some e.encode := by
    simp [hlook, h.data]
  have herror : textAt (fields.insertMany (canceledFields now)) "error" =
      some TaskError.canceled.message := by
    simp [hlook]
  have hresult : textAt (fields.insertMany (canceledFields now)) "result" = none := by
    simp [hlook, h.bare "result" (by decide)]
  have hduration : textAt (fields.insertMany (canceledFields now)) "duration_ms" = none := by
    simp [hlook, h.bare "duration_ms" (by decide)]
  have hfinished : textAt (fields.insertMany (canceledFields now)) "finished_at" =
      some now.toOffsetText := by
    simp [hlook]
  have hdecoded : (textAt (fields.insertMany (canceledFields now)) "data").bind Envelope.decode? =
      some e := by
    rw [hdata, Option.bind_some, hbody]
  exact reads_some htext rfl hstate (.inr ⟨htype, e, hdecoded, rfl⟩) herror hresult
    (by rintro v ⟨⟩) (.inr ⟨hduration, rfl⟩) hfinished hyear

/-- With the `reportedFields` in it, a hash that was `Pending` reads as the record of the report. -/
theorem Pending.reads_reported (h : Pending fields state e) (r : TaskReport)
    (hresult : ∀ v, r.outcome = .ok v → Json.parse? v.compact = some v) (memoryNow : Timestamp)
    {now : Timestamp} (hyear : 0 ≤ now.date.year ∧ now.date.year ≤ 9999) :
    Reads r.id (fields.insertMany (reportedFields (r.toRecord now)))
      (some (r.toRecord memoryNow)) := by
  have htext := h.text.insertMany (areTexts_reportedFields (r.toRecord now))
  have hlook := textAt_reportedFields fields r now
  have hstate : textAt (fields.insertMany (reportedFields (r.toRecord now))) "state" =
      some r.status.name := by
    simp [hlook]
  have htype : textAt (fields.insertMany (reportedFields (r.toRecord now))) "type" =
      some r.taskType := by
    simp [hlook]
  have herror : textAt (fields.insertMany (reportedFields (r.toRecord now))) "error" =
      (r.toRecord now).error := by
    cases he : (r.toRecord now).error with
    | none => simp [hlook, he, h.bare "error" (by decide)]
    | some error => simp [hlook, he]
  have hvalue : textAt (fields.insertMany (reportedFields (r.toRecord now))) "result" =
      (r.toRecord now).result.map Json.compact := by
    cases hr : (r.toRecord now).result with
    | none => simp [hlook, hr, h.bare "result" (by decide)]
    | some result => simp [hlook, hr]
  have hduration : textAt (fields.insertMany (reportedFields (r.toRecord now))) "duration_ms" =
      some (wordText r.duration.millis) := by
    simp [hlook]
  have hfinished : textAt (fields.insertMany (reportedFields (r.toRecord now))) "finished_at" =
      some now.toOffsetText := by
    simp [hlook]
  have hcompact : ∀ v, r.result? = some v → Json.parse? v.compact = some v := by
    intro v hv
    refine hresult v ?_
    unfold TaskReport.result? at hv
    cases hout : r.outcome with
    | ok w =>
      rw [hout] at hv
      exact congrArg Except.ok (Option.some.inj hv)
    | error err =>
      rw [hout] at hv
      exact absurd hv (by simp [Except.toOption])
  exact reads_some htext rfl hstate (.inl htype) herror hvalue hcompact (.inl hduration) hfinished
    hyear

end TaskScheduler.RedisQueue
