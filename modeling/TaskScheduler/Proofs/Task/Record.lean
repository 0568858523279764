import TaskScheduler.Proofs.Task.Envelope
import TaskScheduler.Proofs.Time.Lenient
import TaskScheduler.Task.Record

/-!
# Records read back

The record of a report is stored and shown as a JSON text.  A member that is missing and a member
with the value `null` are read alike, so a result that is `null` comes back as no result.
Everything else comes back: the texts, the status, the duration, the time with its nanoseconds, and
every other result that has no floating-point number and is nested one level less deeply than a
text may be.
-/

namespace TaskScheduler

namespace Json

/-- `Form.nullable?` takes no value but `null` for a missing one. -/
theorem nullable?_form {α : Type} (read : Form → Option α) {v : Json} (h : v ≠ .null) :
    v.form.nullable? read = (read v.form).map some := by
  cases v with
  | null => exact absurd rfl h
  | _ => rfl

end Json

namespace ResultRecord

open Json

/-! ### The form of a record -/

/-- The members of a written record. -/
def members (r : ResultRecord) : List (String × Form) :=
  [("id", .str (piecesOf r.id)), ("task_type", .str (piecesOf r.taskType)),
    ("status", .str (piecesOf r.status.name)),
    ("error", optionForm (fun e => .str (piecesOf e)) r.error),
    ("result", optionForm Json.form r.result),
    ("duration_ms", .num (.ofInt r.durationMs.toNat)),
    ("finished_at", .str (piecesOf r.finishedAt.toText))]

/-- The `form` of a record is the object of its `members`. -/
theorem form_eq (r : ResultRecord) :
    r.form = .obj (r.members.map fun m => (piecesOf m.1, m.2)) := rfl

/-- `optionForm` is sound if the form of the value is. -/
theorem optionForm_isSound {α : Type} {write : α → Form} (h : ∀ a, (write a).IsSound)
    (a : Option α) : (optionForm write a).IsSound := by
  cases a with
  | none => trivial
  | some a => exact h a

/-- The `form` of a record is sound. -/
theorem form_isSound (r : ResultRecord) : r.form.IsSound := by
  have hk := piecesOf_isSound
  have herror : (optionForm (fun e => .str (piecesOf e)) r.error).IsSound :=
    optionForm_isSound hk r.error
  have hresult := optionForm_isSound Json.form_isSound r.result
  exact ⟨hk _, hk r.id, hk _, hk r.taskType, hk _, hk r.status.name, hk _, herror, hk _, hresult,
    hk _, NumberForm.ofInt_isSound _, hk _, hk r.finishedAt.toText, trivial⟩

/-! ### Reading -/

/-- What remains of a record in its text: a result that is `null` counts as none. -/
def kept (r : ResultRecord) : ResultRecord := { r with result := r.result.filter (· ≠ .null) }

/-- A record is all `kept` in its text unless its result is `null`. -/
theorem kept_eq_self_iff (r : ResultRecord) : r.kept = r ↔ r.result ≠ some .null := by
  obtain ⟨id, taskType, status, error, result, durationMs, finishedAt⟩ := r
  cases result with
  | none => simp [kept]
  | some v => by_cases h : v = .null <;> simp [kept, h]

/-- An error text that may be missing is read back from its `optionForm`. -/
theorem nullable?_error (error : Option String) :
    (optionForm (fun e => Form.str (piecesOf e)) error).nullable? Form.text? = some error := by
  cases error with
  | none => rfl
  | some e => exact congrArg (Option.map some) (textOf?_piecesOf e)

/-- The levels of the result, none when there is no result. -/
def resultDepth (r : ResultRecord) : Nat := (r.result.map Json.depth).getD 0

/-- `resultDepth` is bounded by what bounds the depth of the result, if there is one. -/
theorem resultDepth_le_iff {r : ResultRecord} {d : Nat} :
    r.resultDepth ≤ d ↔ ∀ v ∈ r.result, v.depth ≤ d := by
  unfold resultDepth
  cases r.result <;> simp

/-- A result that may be missing is read back from its `optionForm`, `null` as none, unless it is
nested too deeply. -/
theorem nullable?_result {r : ResultRecord} (h : ∀ v ∈ r.result, v.FloatFree ∧ v.Canonical) :
    (optionForm Json.form r.result).nullable? (Form.value? memberDepth) =
      if r.resultDepth ≤ memberDepth then some r.kept.result else none := by
  obtain ⟨id, taskType, status, error, result, durationMs, finishedAt⟩ := r
  cases result with
  | none => rfl
  | some v =>
    obtain ⟨hf, hc⟩ := h v rfl
    by_cases hnull : v = .null
    · subst hnull
      rfl
    · have hkept : (some v).filter (· ≠ .null) = some v := by simp [Option.filter, hnull]
      rw [optionForm, nullable?_form _ hnull, value?_form memberDepth v hf hc]
      simp only [resultDepth, kept, hkept, Option.map_some, Option.getD_some]
      by_cases hdepth : v.depth ≤ memberDepth <;> simp [hdepth]

/-- `ofForm?` reads what is `kept` of a record from its form, unless its result is nested too
deeply. -/
theorem ofForm?_form {r : ResultRecord} (htime : r.finishedAt.inRange = true)
    (h : ∀ v ∈ r.result, v.FloatFree ∧ v.Canonical) :
    ofForm? r.form = if r.resultDepth ≤ memberDepth then some r.kept else none := by
  have hstatus : statusOf? (.str (piecesOf r.status.name)) = some r.status := by
    rw [statusOf?, textOf?_piecesOf, Option.bind_some, ReportStatus.ofName?_name]
  have hfinished : (Form.text? (.str (piecesOf r.finishedAt.toText))).bind Timestamp.lenient? =
      some r.finishedAt := by
    rw [Form.text?, textOf?_piecesOf, Option.bind_some, Timestamp.lenient?_toText htime]
  have hparts : ofParts? (.str (piecesOf r.id)) (.str (piecesOf r.taskType))
      (.str (piecesOf r.status.name)) (optionForm (fun e => .str (piecesOf e)) r.error)
      (optionForm Json.form r.result) (.num (.ofInt r.durationMs.toNat))
      (.str (piecesOf r.finishedAt.toText)) =
        if r.resultDepth ≤ memberDepth then some r.kept else none := by
    unfold ofParts?
    rw [hstatus, hfinished, nullable?_error, nullable?_result h, Form.word?_ofInt]
    simp only [Form.text?, textOf?_piecesOf, Option.bind_eq_bind, Option.bind_some]
    split <;> rfl
  rw [form_eq, ofForm?, keyed?_map]
  exact hparts

/-- The texts in which a record is stored and shown: without blanks, on several lines, and printed
with the end of the last line. -/
def texts (r : ResultRecord) : List String := [r.encode, r.prettyText, r.prettyText ++ "\n"]

/-- Each of the `texts` of a record holds its form. -/
theorem ofText?_of_mem_texts {r : ResultRecord} {text : String} (h : text ∈ r.texts) :
    Form.ofText? text.toList = some r.form := by
  simp only [texts, List.mem_cons, List.not_mem_nil, or_false] at h
  rcases h with rfl | rfl | rfl
  · rw [encode, String.toList_ofList, Form.ofText?_render r.form_isSound]
  · rw [prettyText, String.toList_ofList, Form.ofText?_pretty r.form_isSound]
  · have hend : AreBlanks ['\n'] := by
      intro c hc
      rw [List.mem_singleton.1 hc]
      decide
    have hread := (r.form.written_pretty 0 r.form_isSound).ofText? areBlanks_nil hend
    rwa [prettyText, String.toList_append, String.toList_ofList]

/-- `decode?` reads what is `kept` of a record from each of its `texts`, unless its result is nested
too deeply. -/
theorem decode?_of_mem_texts {r : ResultRecord} (htime : r.finishedAt.inRange = true)
    (h : ∀ v ∈ r.result, v.FloatFree ∧ v.Canonical) {text : String} (htext : text ∈ r.texts) :
    decode? text = if r.resultDepth ≤ memberDepth then some r.kept else none := by
  rw [decode?, ofText?_of_mem_texts htext]
  exact ofForm?_form htime h

/-- The `texts` of what is `kept` of a record are those of the record. -/
theorem texts_kept (r : ResultRecord) : r.kept.texts = r.texts := by
  have hform : r.kept.form = r.form := by
    obtain ⟨id, taskType, status, error, result, durationMs, finishedAt⟩ := r
    cases result with
    | none => rfl
    | some v =>
      by_cases hnull : v = .null
      · subst hnull
        rfl
      · rw [(kept_eq_self_iff _).2 (by simpa using hnull)]
  rw [texts, texts, encode, encode, prettyText, prettyText, hform]

/-! ### Records of reports -/

/-- The record of a report, written in any style, is read if its result is nested one level less
deeply than a text may be, and nothing is lost but a result that is `null`.  So the record comes
back exactly if the task has no such result; the text of one that has is also the text of the
record without a result, and no reader could tell the two apart. -/
theorem decode?_toRecord_iff {report : TaskReport} {now : Timestamp} (hnow : now.inRange = true)
    (hresult : ∀ v, report.outcome = .ok v → v.FloatFree ∧ v.Canonical) {text : String}
    (htext : text ∈ (report.toRecord now).texts) :
    (decode? text = some (report.toRecord now).kept ↔
      ∀ v, report.outcome = .ok v → v.depth ≤ memberDepth) ∧
    (decode? text = some (report.toRecord now) ↔
      ∀ v, report.outcome = .ok v → v ≠ .null ∧ v.depth ≤ memberDepth) ∧
    text ∈ (report.toRecord now).kept.texts := by
  have hmem : ∀ v, v ∈ (report.toRecord now).result ↔ report.outcome = .ok v := by
    intro v
    cases hout : report.outcome <;>
      simp [TaskReport.toRecord, TaskReport.result?, hout, Except.toOption]
  have hread := decode?_of_mem_texts hnow (fun v hv => hresult v ((hmem v).1 hv)) htext
  have hdepth : (report.toRecord now).resultDepth ≤ memberDepth ↔
      ∀ v, report.outcome = .ok v → v.depth ≤ memberDepth := by
    simp only [resultDepth_le_iff, hmem]
  have hself : (report.toRecord now).kept = report.toRecord now ↔
      ∀ v, report.outcome = .ok v → v ≠ .null := by
    rw [kept_eq_self_iff]
    constructor
    · rintro hne _ hout rfl
      exact hne ((hmem _).2 hout)
    · exact fun hall hnull => hall _ ((hmem _).1 hnull) rfl
  rw [hread, ← hdepth, texts_kept]
  refine ⟨by by_cases hle : (report.toRecord now).resultDepth ≤ memberDepth <;> simp [hle],
    ⟨fun hsame => ?_, fun hall => ?_⟩, htext⟩
  · -- the record that was read is the one that remains
    split at hsame
    next hle =>
      have hnull := hself.1 (Option.some.inj hsame)
      exact fun v hv => ⟨hnull v hv, hdepth.1 hle v hv⟩
    next => cases hsame
  · rw [if_pos (hdepth.2 fun v hv => (hall v hv).2), hself.2 fun v hv => (hall v hv).1]

/-! ### A record that comes back and one that does not -/

/-- A task that completed with an object. -/
def letterReport : TaskReport :=
  ⟨"1f", "mail", .ofMillis 250, .ok (.obj [("lines", .arr [.str "one", .null]), ("size", .null)])⟩

/-- The record of `letterReport` comes back as it is printed. -/
theorem decode?_toRecord_iff_letterReport : Timestamp.epoch.inRange = true ∧
    (∀ v, letterReport.outcome = .ok v → v.FloatFree ∧ v.Canonical) ∧
    decode? ((letterReport.toRecord .epoch).prettyText ++ "\n") =
      some (letterReport.toRecord .epoch) := by
  have hresult : ∀ v, letterReport.outcome = .ok v → v.FloatFree ∧ v.Canonical := by
    rintro _ ⟨⟩
    exact ⟨⟨⟨trivial, trivial, trivial⟩, trivial, trivial⟩,
      ⟨⟨by decide, List.forall_mem_nil _, trivial⟩, ⟨trivial, trivial, trivial⟩, trivial, trivial⟩⟩
  have htext : (letterReport.toRecord .epoch).prettyText ++ "\n" ∈
      (letterReport.toRecord .epoch).texts := .tail _ (.tail _ (.head _))
  refine ⟨by decide, hresult, (decode?_toRecord_iff (by decide) hresult htext).2.1.2 ?_⟩
  rintro _ ⟨⟩
  exact ⟨by simp, by decide⟩

/-- A task that completed with `null`. -/
def nullReport : TaskReport := ⟨"1", "echo", .ofMillis 5, .ok .null⟩

/-- The record of `nullReport` comes back without a result. -/
theorem exists_decode?_toRecord_ne :
    decode? (nullReport.toRecord .epoch).encode =
      some { nullReport.toRecord .epoch with result := none } ∧
    nullReport.toRecord .epoch ≠ { nullReport.toRecord .epoch with result := none } ∧
    ¬ ∀ (report : TaskReport) (now : Timestamp), now.inRange = true →
      (∀ v, report.outcome = .ok v → v.FloatFree ∧ v.Canonical ∧ v.depth ≤ memberDepth) →
      decode? (report.toRecord now).encode = some (report.toRecord now) := by
  have hread : decode? (nullReport.toRecord .epoch).encode =
      some { nullReport.toRecord .epoch with result := none } := by decide +kernel
  have hne : nullReport.toRecord .epoch ≠ { nullReport.toRecord .epoch with result := none } := by
    decide
  refine ⟨hread, hne, fun hall => ?_⟩
  have hsame := hall nullReport .epoch (by decide) (by
    rintro _ ⟨⟩
    exact ⟨trivial, trivial, Nat.zero_le _⟩)
  exact hne (Option.some.inj (hsame.symm.trans hread))

end ResultRecord

end TaskScheduler
