import TaskScheduler.Proofs.Queue.WholeCancel

/-!
# The last report of a task

A report writes fields into the hash of a task and takes none away.  It says either a result or an
error, and at the name of the other one the hash keeps what an earlier report or a cancelation has
written.  So `get` answers the record of the last report exactly when nothing stands at that name;
otherwise it answers a record made of two reports, or none at all.
-/

namespace TaskScheduler

/-- The name at which a report writes nothing. -/
def TaskReport.unwritten (r : TaskReport) : String :=
  match r.outcome with
  | .ok _ => "error"
  | .error _ => "result"

namespace RedisQueue

open Redis

variable {q : RedisQueue} {s s' : Store} {n : Nat} {members : List Scored}
  {hash : String → FiniteMap Bytes Bytes} {fields : FiniteMap Bytes Bytes} {r : TaskReport}
  {now later : Timestamp}

/-! ### What a report leaves alone -/

/-- The names at which the `reportedFields` of a record may write. -/
theorem fst_mem_reportedFields {record : ResultRecord} {name : Bytes}
    (h : name ∈ (reportedFields record).map Prod.fst) :
    ∃ a ∈ ["state", "type", "duration_ms", "finished_at", "error", "result"],
      name = Bytes.ofString a := by
  unfold reportedFields at h
  revert h
  cases record.error <;> cases record.result <;> simp [field] <;> grind

/-- A report changes no key but the `taskKey` of its task. -/
theorem get?_report_of_ne {key : Bytes} (hkey : key ≠ q.taskKey r.id) :
    (q.report r now s).2.get? key = s.get? key := by
  unfold report
  dsimp only
  split
  next err hwritten =>
    split
    next s₂ hexpire =>
      rw [hwritten] at hexpire
      exact Store.get?_expire_of_ne hexpire hkey
    next => rw [hwritten]
  next s₁ err hwritten hexpire =>
    rw [hexpire, hwritten]
    exact Store.get?_hset_of_ne hwritten hkey
  next s₁ s₂ hwritten hexpire =>
    rw [hexpire]
    rw [hwritten] at hexpire
    exact (Store.get?_expire_of_ne hexpire hkey).trans (Store.get?_hset_of_ne hwritten hkey)

/-! ### The record in the hash after a report -/

/-- `finishedOf` reads the time of a report back exactly when its year has four digits. -/
theorem finishedOf_eq_ok_iff (id : String) {texts : List (String × String)}
    (h : FiniteMap.find "finished_at" texts = some now.toOffsetText) {t : Timestamp} :
    finishedOf id texts later = .ok t ↔ (0 ≤ now.date.year ∧ now.date.year ≤ 9999) ∧ t = now := by
  unfold finishedOf
  rw [h]
  dsimp only
  by_cases hyear : 0 ≤ now.date.year ∧ now.date.year ≤ 9999
  · rw [Timestamp.strict?_toOffsetText hyear]
    simp only [Except.ok.injEq, and_iff_right hyear, eq_comm]
  · rw [Timestamp.strict?_toOffsetText_eq_none hyear]
    simp only [reduceCtorEq, hyear, false_and]

/-- After a report `recordOf` makes a record of the fields exactly when the year has four digits and
the result at hand can be read.  It is what the report says, with the error and the result that the
hash holds. -/
theorem recordOf_reported_iff {texts : List (String × String)}
    (htexts : ∀ name, FiniteMap.find name texts =
      textAt (fields.insertMany (reportedFields (r.toRecord now))) name) {record : ResultRecord} :
    recordOf r.id texts later = .ok (some record) ↔
      (0 ≤ now.date.year ∧ now.date.year ≤ 9999) ∧ resultOf texts = .ok record.result ∧
      record = { r.toRecord now with
        error := FiniteMap.find "error" texts, result := record.result } := by
  have hlook := textAt_reportedFields fields r now
  have hstate : (FiniteMap.find "state" texts).bind ReportStatus.ofName? = some r.status := by
    have htext : FiniteMap.find "state" texts = some r.status.name := by simp [htexts, hlook]
    rw [htext, Option.bind_some, ReportStatus.ofName?_name]
  have htype : typeOf r.id texts = .ok r.taskType := by
    have htext : FiniteMap.find "type" texts = some r.taskType := by simp [htexts, hlook]
    unfold typeOf
    rw [htext]
  have hduration : durationOf r.id texts = .ok r.duration.millis := by
    have htext : FiniteMap.find "duration_ms" texts = some (wordText r.duration.millis) := by
      simp [htexts, hlook]
    unfold durationOf
    rw [htext]
    dsimp only
    rw [wordLiteral?_wordText]
  have hfinished : FiniteMap.find "finished_at" texts = some now.toOffsetText := by
    simp [htexts, hlook]
  obtain ⟨id, taskType, status, error, result, durationMs, finishedAt⟩ := record
  rw [recordOf_eq_some_iff, hstate, htype, hduration, finishedOf_eq_ok_iff r.id hfinished]
  unfold TaskReport.toRecord
  simp only [Option.some.injEq, Except.ok.injEq, ResultRecord.mk.injEq]
  grind

/-- `resultOf` finds no result exactly when none is written. -/
theorem resultOf_eq_none_iff (texts : List (String × String)) :
    resultOf texts = .ok none ↔ FiniteMap.find "result" texts = none := by
  unfold resultOf
  cases FiniteMap.find "result" texts with
  | none => simp
  | some text => cases hv : Json.parse? text <;> simp [hv]

/-- After a report `recordOf` makes its record of the fields exactly when nothing stands at the name
that it leaves `unwritten` and the year has four digits. -/
theorem recordOf_reported_eq_iff {texts : List (String × String)}
    (htexts : ∀ name, FiniteMap.find name texts =
      textAt (fields.insertMany (reportedFields (r.toRecord now))) name)
    (hresult : ∀ v, r.outcome = .ok v → Json.parse? v.compact = some v) :
    recordOf r.id texts later = .ok (some (r.toRecord now)) ↔
      textAt fields r.unwritten = none ∧ 0 ≤ now.date.year ∧ now.date.year ≤ 9999 := by
  have hlook := textAt_reportedFields fields r now
  have hself : r.toRecord now = { r.toRecord now with
      error := FiniteMap.find "error" texts, result := (r.toRecord now).result } ↔
      FiniteMap.find "error" texts = (r.toRecord now).error := by
    unfold TaskReport.toRecord
    simp only [ResultRecord.mk.injEq, true_and, and_true, eq_comm]
  rw [recordOf_reported_iff htexts, hself, and_comm]
  refine and_congr_left fun _ => ?_
  unfold TaskReport.unwritten
  cases hout : r.outcome with
  | ok v =>
    have herror : (r.toRecord now).error = none := by
      simp [TaskReport.toRecord, TaskReport.error?, hout]
    have hvalue : (r.toRecord now).result = some v := by
      simp [TaskReport.toRecord, TaskReport.result?, hout, Except.toOption]
    have hread : resultOf texts = .ok (some v) := by
      have htext : FiniteMap.find "result" texts = some v.compact := by
        simp [htexts, hlook, hvalue]
      unfold resultOf
      rw [htext]
      dsimp only
      rw [hresult v hout]
    have hold : FiniteMap.find "error" texts = textAt fields "error" := by
      simp [htexts, hlook, herror]
    rw [hread, hvalue, hold, herror, and_iff_right rfl]
  | error err =>
    have herror : (r.toRecord now).error = some err.message := by
      simp [TaskReport.toRecord, TaskReport.error?, hout]
    have hvalue : (r.toRecord now).result = none := by
      simp [TaskReport.toRecord, TaskReport.result?, hout, Except.toOption]
    have hnew : FiniteMap.find "error" texts = some err.message := by
      simp [htexts, hlook, herror]
    have hold : FiniteMap.find "result" texts = textAt fields "result" := by
      simp [htexts, hlook, hvalue]
    rw [hvalue, resultOf_eq_none_iff, hold, hnew, herror, and_iff_left rfl]

/-! ### The last report of a history -/

/-- Where the store `Shows` a queue with texts in its hashes, `get` answers the record of a report
exactly when nothing stands at the name that the report leaves `unwritten` and the year has four
digits. -/
theorem Shows.get_reported_iff (h : Shows q s n members hash) (htext : IsText (hash r.id))
    (hresult : ∀ v, r.outcome = .ok v → Json.parse? v.compact = some v) :
    q.get r.id later (q.report r now s).2 = .ok (some (r.toRecord now)) ↔
      s.hget (q.taskKey r.id) (Bytes.ofString r.unwritten) = .ok none ∧
        0 ≤ now.date.year ∧ now.date.year ≤ 9999 := by
  obtain ⟨answer, s', hreport, -, h'⟩ := h.report r now
  have hself := h'.hashes r.id
  rw [Function.update_self] at hself
  obtain ⟨texts, htexts, hfind⟩ :=
    exists_textFields?_eq (htext.insertMany (areTexts_reportedFields (r.toRecord now)))
  have hget : q.get r.id later (q.report r now s).2 = recordOf r.id texts later := by
    unfold RedisQueue.get
    rw [hreport, hself]
    dsimp only
    rw [htexts]
  rw [hget, recordOf_reported_eq_iff hfind hresult]
  refine and_congr_left fun _ => ?_
  unfold Store.hget textAt
  rw [h.hashes]
  dsimp only
  rw [Except.ok.injEq]
  cases hold : (hash r.id).get? (Bytes.ofString r.unwritten) with
  | none => simp
  | some old =>
    obtain ⟨text, rfl⟩ := htext.exists_text hold
    simp [Bytes.toString?_ofString]

/-- Where the store `Shows` a queue, a report keeps the id and the body of its task. -/
theorem Shows.hget_report (h : Shows q s n members hash) (r : TaskReport) (now : Timestamp)
    {name : String} (hname : name ∈ ["id", "data"]) :
    (q.report r now s).2.hget (q.taskKey r.id) (Bytes.ofString name) =
      s.hget (q.taskKey r.id) (Bytes.ofString name) := by
  obtain ⟨answer, s', hreport, -, h'⟩ := h.report r now
  have hself := h'.hashes r.id
  rw [Function.update_self] at hself
  unfold Store.hget
  rw [hreport, h.hashes, hself]
  dsimp only
  rw [FiniteMap.get?_insertMany_of_not_mem]
  intro hwritten
  obtain ⟨a, ha, heq⟩ := fst_mem_reportedFields hwritten
  obtain rfl := Bytes.ofString_injective heq
  revert hname ha
  simp only [List.mem_cons, List.not_mem_nil, or_false]
  rintro (rfl | rfl) <;> decide

/-- In every store that clients of one prefix can reach, a report keeps the id and the body of its
task and every other key, and from then on `get` answers its record exactly when the hash had
nothing at the name that the report does not write and the year has four digits. -/
theorem get_report_iff {events : List Event}
    (hclients : ∀ e ∈ events, ∀ client, e.client? = some client →
      client.config.keyPrefix = q.config.keyPrefix)
    (hresult : ∀ v, r.outcome = .ok v → Json.parse? v.compact = some v) (now : Timestamp) :
    (∀ name ∈ ["id", "data"],
      (q.report r now (history .empty events).2).2.hget (q.taskKey r.id) (Bytes.ofString name) =
        (history .empty events).2.hget (q.taskKey r.id) (Bytes.ofString name)) ∧
    (∀ key, key ≠ q.taskKey r.id →
      (q.report r now (history .empty events).2).2.get? key = (history .empty events).2.get? key) ∧
    ((∀ later, q.get r.id later (q.report r now (history .empty events).2).2 =
        .ok (some (r.toRecord now))) ↔
      (history .empty events).2.hget (q.taskKey r.id) (Bytes.ofString r.unwritten) = .ok none ∧
        0 ≤ now.date.year ∧ now.date.year ≤ 9999) := by
  obtain ⟨n, members, hash, ⟨hview, -, -⟩, -, htext⟩ := holdsQueueWith_isSound hclients
  refine ⟨fun name hname => hview.hget_report r now hname,
    fun key hkey => get?_report_of_ne hkey, ?_⟩
  constructor
  · intro hlast
    exact (hview.get_reported_iff (htext _) hresult).1 (hlast now)
  · intro hfree later
    exact (hview.get_reported_iff (htext _) hresult).2 hfree

/-- What a report writes stands at the name that a report of the other kind leaves `unwritten`. -/
theorem textAt_reportedFields_unwritten (fields : FiniteMap Bytes Bytes) {first : TaskReport}
    (hkind : first.isSuccess ≠ r.isSuccess) (now : Timestamp) :
    textAt (fields.insertMany (reportedFields (first.toRecord now))) r.unwritten ≠ none := by
  rw [textAt_reportedFields]
  unfold TaskReport.isSuccess at hkind
  unfold TaskReport.unwritten
  cases hout : r.outcome with
  | ok v =>
    cases hfirst : first.outcome with
    | ok w => simp [hout, hfirst, Except.isOk, Except.toBool] at hkind
    | error err => simp [TaskReport.toRecord, TaskReport.error?, hfirst]
  | error err =>
    cases hfirst : first.outcome with
    | ok w => simp [TaskReport.toRecord, TaskReport.result?, hfirst, Except.toOption]
    | error err' => simp [hout, hfirst, Except.isOk, Except.toBool] at hkind

/-- After an error a result is not answered as it was reported, and neither is an error after a
result. -/
theorem Shows.get_report_ne (h : Shows q s n members hash) (htext : IsText (hash r.id))
    {first : TaskReport} (hid : first.id = r.id) (hkind : first.isSuccess ≠ r.isSuccess)
    (hresult : ∀ v, r.outcome = .ok v → Json.parse? v.compact = some v) (earlier : Timestamp) :
    q.get r.id later (q.report r now (q.report first earlier s).2).2 ≠
      .ok (some (r.toRecord now)) := by
  obtain ⟨answer, s₁, hfirst, -, h₁⟩ := h.report first earlier
  rw [hid] at h₁
  have hfields := h₁.hashes r.id
  rw [Function.update_self] at hfields
  have htext₁ := htext.insertMany (areTexts_reportedFields (first.toRecord earlier))
  intro hget
  rw [hfirst] at hget
  obtain ⟨hnone, -⟩ := (h₁.get_reported_iff (by rwa [Function.update_self]) hresult).1 hget
  unfold Store.hget at hnone
  rw [hfields] at hnone
  refine textAt_reportedFields_unwritten (hash r.id) hkind earlier ?_
  unfold textAt
  rw [Except.ok.inj hnone]
  rfl

/-! ### A result, and a result after an error -/

/-- A worker reports a task with a result. -/
def goodReport : TaskReport := ⟨"1", "echo", .zero, .ok (.bool true)⟩

/-- A worker reports a task with an error. -/
def badReport : TaskReport := ⟨"1", "echo", .zero, .error (.ofText "boom")⟩

/-- The result of `goodReport` is read back from its text. -/
theorem parse?_compact_of_goodReport :
    ∀ v, goodReport.outcome = .ok v → Json.parse? v.compact = some v := by
  rintro v ⟨⟩
  decide +kernel

/-- After `onePush` the record of `goodReport` is answered at any time. -/
theorem get_report_iff_onePush :
    (∀ e ∈ onePush, ∀ client, e.client? = some client →
      client.config.keyPrefix = defaultClient.config.keyPrefix) ∧
    (∀ v, goodReport.outcome = .ok v → Json.parse? v.compact = some v) ∧
    ∀ later, defaultClient.get "1" later
      (defaultClient.report goodReport .epoch (history .empty onePush).2).2 =
        .ok (some (goodReport.toRecord .epoch)) := by
  refine ⟨keyPrefix_of_mem_onePush, parse?_compact_of_goodReport,
    (get_report_iff (r := goodReport) keyPrefix_of_mem_onePush parse?_compact_of_goodReport
      .epoch).2.2.2 ⟨?_, by decide⟩⟩
  have hfields := (shows_firstPush defaultClient ⟨"echo", .null, none⟩ 0).hashes "1"
  rw [Function.update_self] at hfields
  unfold Store.hget
  exact hfields ▸ rfl

/-- A client pushes a task and sends its `badReport`. -/
def pushThenFail : List Event := onePush ++ [.call defaultClient (.report badReport .epoch)]

/-- After `pushThenFail` the `goodReport` succeeds, and its record is not answered. -/
theorem exists_get_report_ne : ∃ (q : RedisQueue) (events : List Event) (r : TaskReport)
    (now : Timestamp), q.config.validate = .ok () ∧ (∀ e ∈ events, e.client? = some q) ∧
    (∀ v, r.outcome = .ok v → Json.parse? v.compact = some v) ∧
    (0 ≤ now.date.year ∧ now.date.year ≤ 9999) ∧
    (q.report r now (history .empty events).2).1 = .ok () ∧
    ∀ later, q.get r.id later (q.report r now (history .empty events).2).2 ≠
      .ok (some (r.toRecord now)) := by
  have hview := shows_firstPush defaultClient ⟨"echo", .null, none⟩ 0
  have htext := isText_empty.insertMany (areTexts_pushedFields "1" ⟨"echo", .null, none⟩)
  obtain ⟨_, s₁, hbad, -, h₁⟩ := hview.report badReport .epoch
  obtain ⟨_, s₂, hgood, hkept, -⟩ := h₁.report goodReport .epoch
  have hstore : (history .empty pushThenFail).2 = s₁ := congrArg Prod.snd hbad
  refine ⟨defaultClient, pushThenFail, goodReport, .epoch, rfl, ?_, parse?_compact_of_goodReport,
    by decide, ?_, fun later => ?_⟩
  · intro e he
    rcases List.mem_cons.1 he with rfl | he
    · rfl
    · cases List.mem_singleton.1 he
      rfl
  · rw [hstore, hgood]
    exact hkept.eq_ok (by decide)
  · have hid : badReport.id = goodReport.id := rfl
    exact hview.get_report_ne (isText_update (fun _ => isText_empty) htext _) hid (by decide)
      parse?_compact_of_goodReport .epoch

end RedisQueue

end TaskScheduler
