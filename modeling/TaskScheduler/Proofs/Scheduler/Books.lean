import TaskScheduler.Proofs.Scheduler.Entries
import TaskScheduler.Proofs.Scheduler.Tally

/-!
# Counters, metrics and reports agree

What the books of a scheduler say is what was handed over together with what the open entries say:
`Books.Balanced` is kept by every `Books.Step`.  With no report on its way nothing but the reports
is left, and with no worker between the counter and the gauge of running tasks these two are the
number of tasks that have started and not finished.

All counts are machine words, so they agree modulo the size of a word, and as numbers until there
are more reports or tasks than a word can count.  The series of the metrics are found by keys, so
what is said of them is said for keys that tell the labels of the reports apart.
-/

namespace TaskScheduler

variable {β η : Type}

/-! ### What the books say -/

/-- The reports that have been recorded: those handed over, and those with an open entry. -/
def Books.recorded (b : Books) (es : List Entry) : List TaskReport :=
  b.reports.map Prod.snd ++ es.filterMap Entry.report?

/-- Counters and metrics say how many tasks have an entry by which they count as running, and how
many reports of each kind have been recorded. -/
structure Books.Balanced (b : Books) (key : LabelKey) (es : List Entry) : Prop where
  /-- The counter of running tasks. -/
  running : b.counters.running = .ofNat (es.countP Entry.isCounted)
  /-- The counters of reports. -/
  counters : b.counters.Tallies (b.recorded es)
  /-- The metrics. -/
  metrics : ∃ m, b.metrics = some m ∧ m.key = key ∧
    m.running = .ofNat (es.countP Entry.isGauged) ∧ m.Counts (b.recorded es)

namespace Books

variable {b b' : Books} {key : LabelKey} {es es' : List Entry}

/-- The books of a scheduler that has not done anything are `Balanced`. -/
theorem balanced_nil (key : LabelKey) : Balanced ⟨{}, some { key := key }, []⟩ key [] where
  running := rfl
  counters := Counters.tallies_nil
  metrics := ⟨{ key := key }, rfl, rfl, rfl, Metrics.counts_nil key⟩

/-- What has been `recorded` does not depend on the order of the entries. -/
theorem recorded_perm (b : Books) (h : es.Perm es') : (b.recorded es).Perm (b.recorded es') :=
  (h.filterMap _).append_left _

/-- An entry of a running task has no part in what has been `recorded`. -/
theorem recorded_perm_cons (b : Books) {e : Entry} (he : e.report? = none)
    (h : es'.Perm (e :: es)) : (b.recorded es').Perm (b.recorded es) := by
  have hskip : (e :: es).filterMap Entry.report? = es.filterMap Entry.report? :=
    List.filterMap_cons_none he
  unfold recorded
  rw [← hskip]
  exact (h.filterMap _).append_left _

/-- How many entries pass a test after an entry was added. -/
theorem countP_of_perm_cons {e : Entry} (h : es'.Perm (e :: es)) (p : Entry → Bool) :
    es'.countP p = es.countP p + if p e then 1 else 0 :=
  (h.countP_eq p).trans List.countP_cons

/-- Every `Books.Step` keeps the books `Balanced`. -/
theorem Balanced.step (h : b.Balanced key es) (hstep : b.Step es b' es') :
    b'.Balanced key es' := by
  obtain ⟨hrunning, hcounters, m, hm, hkey, hgauge, hcounts⟩ := h
  cases hstep with
  | quiet hperm =>
    have hrecorded := b.recorded_perm hperm.symm
    rw [← hperm.countP_eq] at hrunning hgauge
    exact ⟨hrunning, hcounters.perm hrecorded, m, hm, hkey, hgauge, hcounts.perm hrecorded⟩
  | countStart hperm =>
    have hrecorded : (b.recorded es).Perm (Books.recorded ⟨_, b.metrics, b.reports⟩ es') :=
      (b.recorded_perm_cons rfl hperm).symm
    refine ⟨?_, hcounters.started.perm hrecorded, m, hm, hkey, ?_, hcounts.perm hrecorded⟩
    · rw [countP_of_perm_cons hperm, UInt64.ofNat_add, ← hrunning]
      rfl
    · rw [countP_of_perm_cons hperm]
      exact hgauge
  | gaugeStart hold hnew =>
    have hrecorded : (b.recorded es).Perm (Books.recorded ⟨b.counters, _, b.reports⟩ es') :=
      (b.recorded_perm_cons rfl hold).trans (b.recorded_perm_cons rfl hnew).symm
    rw [countP_of_perm_cons hold] at hrunning hgauge
    refine ⟨?_, hcounters.perm hrecorded, m.started, by rw [hm]; rfl, hkey, ?_,
      Metrics.Counts.perm ⟨hcounts.finished, hcounts.durations⟩ hrecorded⟩
    · rw [countP_of_perm_cons hnew]
      exact hrunning
    · rw [countP_of_perm_cons hnew, Int64.ofNat_add]
      exact congrArg (· + 1) hgauge
  | countStop hold hnew =>
    have hrecorded : (b.recorded es).Perm (Books.recorded ⟨_, b.metrics, b.reports⟩ es') :=
      (b.recorded_perm_cons rfl hold).trans (b.recorded_perm_cons rfl hnew).symm
    rw [countP_of_perm_cons hold] at hrunning hgauge
    refine ⟨?_, hcounters.stopped.perm hrecorded, m, hm, hkey, ?_, hcounts.perm hrecorded⟩
    · rw [countP_of_perm_cons hnew]
      change b.counters.running - 1 = _
      rw [hrunning, UInt64.ofNat_add]
      exact UInt64.add_sub_cancel _ _
    · rw [countP_of_perm_cons hnew]
      exact hgauge
  | gaugeStop hperm =>
    have hrecorded : (b.recorded es).Perm (Books.recorded ⟨b.counters, _, b.reports⟩ es') :=
      b.recorded_perm_cons rfl hperm
    rw [countP_of_perm_cons hperm] at hrunning hgauge
    refine ⟨hrunning, hcounters.perm hrecorded, m.stopped, by rw [hm]; rfl, hkey, ?_,
      Metrics.Counts.perm ⟨hcounts.finished, hcounts.durations⟩ hrecorded⟩
    change m.running - 1 = _
    rw [hgauge, Int64.ofNat_add]
    exact Int64.add_sub_cancel _ _
  | record r hperm =>
    have hrecorded : (r :: b.recorded es).Perm (b.recorded es') :=
      List.perm_middle.symm.trans (b.recorded_perm hperm.symm)
    have hmeasured : b.metrics.map (·.recordFinished r.taskType r.status r.duration) =
        some (m.recordFinished r.taskType r.status r.duration) := by
      rw [hm, Option.map_some]
    refine ⟨?_, (hcounters.record r).perm hrecorded, _, hmeasured, hkey, ?_,
      (hcounts.record r).perm hrecorded⟩
    · rw [countP_of_perm_cons hperm]
      exact (b.counters.running_record r).trans hrunning
    · rw [countP_of_perm_cons hperm]
      exact hgauge
  | report r report hperm =>
    have hrecorded : (b.recorded es).Perm
        (Books.recorded ⟨b.counters, b.metrics, b.reports ++ [(r, report)]⟩ es') := by
      refine (b.recorded_perm hperm).trans (.of_eq ?_)
      unfold recorded
      rw [List.map_append, List.append_assoc]
      rfl
    rw [countP_of_perm_cons hperm] at hrunning hgauge
    exact ⟨hrunning, hcounters.perm hrecorded, m, hm, hkey, hgauge, hcounts.perm hrecorded⟩

end Books

/-! ### Running tasks -/

/-- The worker has raised the counter of running tasks for the task, and has not lowered it. -/
def Task.isCounted (t : Task η) : Bool :=
  match t.phase with
  | .starting _ counted => counted
  | .started _ | .running _ _ | .stopping _ => true
  | .finishing _ counted => counted
  | _ => false

/-- The worker has raised the gauge of running tasks for the task, and has not lowered it. -/
def Task.isGauged (t : Task η) : Bool :=
  match t.phase with
  | .started _ | .running _ _ | .stopping _ | .finishing _ _ => true
  | _ => false

/-- The worker has started the task and not finished it: its pipeline is executing. -/
def Task.inPipeline (t : Task η) : Bool :=
  match t.phase with
  | .starting _ _ | .started _ | .running _ _ | .stopping _ => true
  | _ => false

/-- The worker has started or finished the task, and has counter or gauge still to change. -/
def Phase.isBooking : Phase η → Bool
  | .starting _ _ | .finishing _ _ => true
  | _ => false

/-- The `entries` that pass a test are as many as the tasks of which `q` says that their entry
does. -/
theorem countP_entries {p : Entry → Bool} {q : Task η → Bool}
    (h : ∀ t : Task η, (t.phase.entry?.map p).getD false = q t) (tasks : List (Task η)) :
    (entries tasks).countP p = tasks.countP q := by
  unfold entries
  rw [List.countP_filterMap]
  exact List.countP_congr fun t _ => by rw [h t]

/-- A task is counted by its entry exactly if `Task.isCounted` holds of it. -/
theorem isCounted_entry? (t : Task η) :
    (t.phase.entry?.map Entry.isCounted).getD false = t.isCounted := by
  unfold Task.isCounted Phase.entry?
  cases t.phase with
  | starting c counted | finishing o counted => cases counted <;> rfl
  | _ => rfl

/-- A task is gauged by its entry exactly if `Task.isGauged` holds of it. -/
theorem isGauged_entry? (t : Task η) :
    (t.phase.entry?.map Entry.isGauged).getD false = t.isGauged := by
  unfold Task.isGauged Phase.entry?
  cases t.phase with
  | starting c counted | finishing o counted => cases counted <;> rfl
  | _ => rfl

/-- With no report on its way none of the `entries` has one. -/
theorem filterMap_report?_entries {tasks : List (Task η)}
    (h : ∀ t ∈ tasks, t.phase.isCompleting = false) :
    (entries tasks).filterMap Entry.report? = [] := by
  unfold entries
  rw [List.filterMap_filterMap, List.filterMap_eq_nil_iff]
  intro t ht
  have hphase := h t ht
  unfold Phase.isCompleting at hphase
  unfold Phase.entry?
  split <;> simp_all [Entry.report?]

/-- What is shown of the tasks that are running. -/
structure ShowsRunning (stats : Stats) (metrics : Metrics) (tasks : List (Task η)) : Prop where
  /-- The counter is the number of tasks for which it was raised and not lowered. -/
  counter : stats.running = .ofNat (tasks.countP Task.isCounted)
  /-- The gauge is the number of tasks for which it was raised and not lowered. -/
  gauge : metrics.running = .ofNat (tasks.countP Task.isGauged)
  /-- Below `2 ^ 63` tasks neither has wrapped, so that neither has gone below zero. -/
  unwrapped : tasks.length < 2 ^ 63 → stats.running.toNat = tasks.countP Task.isCounted ∧
    metrics.running.toInt = tasks.countP Task.isGauged
  /-- Unless a worker has one of them still to change, both are the number of tasks whose pipeline
  is executing. -/
  executing : (∀ t ∈ tasks, t.phase.isBooking = false) →
    tasks.countP Task.isCounted = tasks.countP Task.inPipeline ∧
    tasks.countP Task.isGauged = tasks.countP Task.inPipeline

/-- If counter and gauge are what they have counted, `ShowsRunning` holds of them. -/
theorem showsRunning_of_eq {stats : Stats} {metrics : Metrics} {tasks : List (Task η)}
    (hcounter : stats.running = .ofNat (tasks.countP Task.isCounted))
    (hgauge : metrics.running = .ofNat (tasks.countP Task.isGauged)) :
    ShowsRunning stats metrics tasks where
  counter := hcounter
  gauge := hgauge
  unwrapped hlength := by
    have hcounted : tasks.countP Task.isCounted < 2 ^ 63 :=
      Nat.lt_of_le_of_lt List.countP_le_length hlength
    have hgauged : tasks.countP Task.isGauged < 2 ^ 63 :=
      Nat.lt_of_le_of_lt List.countP_le_length hlength
    rw [hcounter, hgauge, Int64.toInt_ofNat_of_lt hgauged]
    exact ⟨UInt64.toNat_ofNat_of_lt' (Nat.lt_trans hcounted (by decide)), rfl⟩
  executing hquiet := by
    constructor
    all_goals
      refine List.countP_congr fun t ht => ?_
      have hphase := hquiet t ht
      cases hp : t.phase <;>
        simp_all [Task.isCounted, Task.isGauged, Task.inPipeline, Phase.isBooking]

/-! ### Reports -/

/-- What is shown of a scheduler and its metrics agrees with a list of reports. -/
structure AgreesWith (stats : Stats) (metrics : Metrics) (reports : List TaskReport) : Prop where
  /-- The completed tasks. -/
  completed : stats.completed = .ofNat (countStatus .completed reports)
  /-- The failed tasks. -/
  failed : stats.failed = .ofNat (countStatus .failed reports)
  /-- The tasks whose deadline passed. -/
  timedOut : stats.timedOut = .ofNat (countStatus .timeout reports)
  /-- The canceled tasks. -/
  canceled : stats.canceled = .ofNat (countStatus .canceled reports)
  /-- The tasks of which a stage broke off. -/
  panicked : stats.panicked = .ofNat (reports.countP TaskReport.isUnexpected)
  /-- Below `2 ^ 64` reports no counter has wrapped. -/
  unwrapped : reports.length < 2 ^ 64 →
    stats.completed.toNat = countStatus .completed reports ∧
    stats.failed.toNat = countStatus .failed reports ∧
    stats.timedOut.toNat = countStatus .timeout reports ∧
    stats.canceled.toNat = countStatus .canceled reports ∧
    stats.panicked.toNat = reports.countP TaskReport.isUnexpected
  /-- The tasks of which a stage broke off are failed tasks. -/
  panicked_le : reports.length < 2 ^ 64 → stats.panicked ≤ stats.failed
  /-- The series of finished tasks and of observed durations, if the keys tell their labels
  apart. -/
  series : metrics.key.Distinguishes reports → metrics.Tallies reports
  /-- The mean duration is cut to whole milliseconds, unless the sum of the durations, each cut to
  whole milliseconds, needs more than 64 bits. -/
  average : reports.length < 2 ^ 64 → sumMillis reports < 2 ^ 64 →
    stats.averageDuration.nanos = sumMillis reports / reports.length * 10 ^ 6
  /-- Without reports it is zero. -/
  none : reports = [] → stats.averageDuration = .zero

/-- Counters that tally with reports and metrics that have counted them agree with these
(`AgreesWith`). -/
theorem agreesWith_of_tallies {c : Counters} {m : Metrics} {reports : List TaskReport}
    (hc : c.Tallies reports) (hm : m.Counts reports) : AgreesWith c.snapshot m reports where
  completed := hc.completed
  failed := hc.failed
  timedOut := hc.timedOut
  canceled := hc.canceled
  panicked := hc.panicked
  unwrapped hlength := by
    have hexact (p : TaskReport → Bool) := Counters.toNat_ofNat_countP p hlength
    unfold Counters.snapshot
    rw [hc.completed, hc.failed, hc.timedOut, hc.canceled, hc.panicked]
    exact ⟨hexact _, hexact _, hexact _, hexact _, hexact _⟩
  panicked_le := hc.panicked_le
  series := hm.tallies
  average := hc.averageDuration
  none := by
    rintro rfl
    exact hc.averageDuration_nil

namespace Scheduler

/-- Every history of a `Tidy` scheduler keeps the books `Balanced`. -/
theorem balanced_afterMoves [TaskQueue β] (s : Scheduler β η) (htidy : s.core.Tidy)
    {key : LabelKey} (h : s.books.Balanced key (entries s.tasks)) (moves : List (Move η)) :
    (s.afterMoves moves).books.Balanced key (entries (s.afterMoves moves).tasks) := by
  induction moves generalizing s with
  | nil => exact h
  | cons m moves ih =>
    exact ih (s.move m) ((s.core_move m).tidy htidy) (h.step (booksStep_move htidy.tracked m))

/-- However the steps of the loops, the workers, the users and the clock follow each other, the
counter of running tasks and its gauge say for how many tasks each was raised and not lowered, which
is the number of tasks whose pipeline is executing unless a worker has one of them still to change.
With no report on its way, everything else that is counted and measured agrees with the reports that
the queue was handed. -/
theorem books_agree [TaskQueue β] (config : SchedulerConfig) (queue : β) (key : LabelKey)
    (moves : List (Move η)) :
    let s : Scheduler (Ledger β) η :=
      (new config { queue := queue } (some { key := key })).afterMoves moves
    ∃ metrics, s.metrics = some metrics ∧ metrics.key = key ∧
      ShowsRunning s.stats metrics s.tasks ∧
      ((∀ t ∈ s.tasks, t.phase.isCompleting = false) →
        AgreesWith s.stats metrics s.queue.reported) := by
  intro s
  have htidy : (new config { queue := queue } (some { key := key }) :
      Scheduler (Ledger β) η).core.Tidy := tidy_new ..
  have hbalanced : s.books.Balanced key (entries s.tasks) :=
    balanced_afterMoves _ htidy (Books.balanced_nil key) moves
  have haccount : s.core.Accounted :=
    afterMoves_induction Core.Step.accounted _ ⟨rfl, rfl⟩ moves
  obtain ⟨hrunning, hcounters, m, hm, hkey, hgauge, hcounts⟩ := hbalanced
  rw [countP_entries isCounted_entry?] at hrunning
  rw [countP_entries isGauged_entry?] at hgauge
  obtain ⟨metrics, hmetrics, rfl⟩ := Option.map_eq_some_iff.1 hm
  refine ⟨metrics, hmetrics, hkey, showsRunning_of_eq hrunning hgauge, fun hquiet => ?_⟩
  have hrecorded : s.books.recorded (entries s.tasks) = s.queue.reported := by
    have hreported : s.queue.reported = s.reports.map Prod.snd := haccount.reported
    unfold Books.recorded
    rw [filterMap_report?_entries hquiet, List.append_nil, hreported]
    rfl
  rw [hrecorded] at hcounters hcounts
  exact agreesWith_of_tallies hcounters ⟨hcounts.finished, hcounts.durations⟩

/-- `oneTask` with a task of another type behind its own. -/
def twoTypes : MemoryQueue := (oneTask.push ⟨"other", .null, none⟩ 0).2

/-- Two tasks are popped and dispatched.  The worker of the first one starts and counts it, and the
second one is canceled, reported and released. -/
def oneRunningHistory : List (Event Unit) :=
  let popping : List (Event Unit) := [.stepPop 0, .pop 0 .epoch, .stepPop 0, .stepPop 0]
  let dispatching : List (Event Unit) := [.stepDispatch 0, .stepDispatch 0]
  [.callRun, .ping 0] ++ popping ++ popping ++ dispatching ++ dispatching ++ ownSteps 5 ++
    [.cancelTask 1, .stepTask 1, .stepTask 1, .stepTask 1, .report 1 .epoch, .stepTask 1]

/-- In `oneRunningHistory` counter and gauge show one running task, and one canceled task of the
other type is in every book. -/
theorem books_agree_twoTypes :
    let s : Scheduler (Ledger MemoryQueue) Unit :=
      (new .default { queue := twoTypes } (some {})).afterMoves (oneRunningHistory.map .event)
    (∀ t ∈ s.tasks, t.phase.isCompleting = false) ∧
    ∃ metrics, s.metrics = some metrics ∧ s.stats.running.toNat = 1 ∧ metrics.running.toInt = 1 ∧
      s.stats.canceled.toNat = 1 ∧ metrics.total "other" .canceled = 1 ∧
      AgreesWith s.stats metrics s.queue.reported := by
  intro s
  have hquiet : ∀ t ∈ s.tasks, t.phase.isCompleting = false := by decide
  obtain ⟨metrics, hmetrics, hkey, hrunning, hagrees⟩ :=
    books_agree .default twoTypes .fnv (oneRunningHistory.map (.event (η := Unit)))
  have hagrees := hagrees hquiet
  have hcounted : s.tasks.countP Task.isCounted = 1 ∧ s.tasks.countP Task.isGauged = 1 := by decide
  have hshort : s.tasks.length < 2 ^ 63 ∧ s.queue.reported.length < 2 ^ 64 := by decide
  have hreported : s.queue.reported.map TaskReport.labels = [["other", "canceled"]] := by decide
  have htypes : s.queue.reported.map TaskReport.typeLabels = [["other"]] := by decide
  have hdistinct : metrics.key.Distinguishes s.queue.reported :=
    ⟨by simp [hreported, LabelKey.Separates], by simp [htypes, LabelKey.Separates]⟩
  obtain ⟨hcounter, hgauge⟩ := hrunning.unwrapped hshort.1
  refine ⟨hquiet, metrics, hmetrics, hcounter.trans hcounted.1, ?_, ?_, ?_, hagrees⟩
  · rw [hgauge, hcounted.2]
    rfl
  · rw [(hagrees.unwrapped hshort.2).2.2.2.1]
    decide
  · rw [(hagrees.series hdistinct).finished]
    decide

end Scheduler

end TaskScheduler
