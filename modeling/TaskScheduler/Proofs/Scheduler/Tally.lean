import TaskScheduler.Metrics.Collector
import TaskScheduler.Proofs.Metrics.Family
import TaskScheduler.Scheduler.Stats

/-!
# What counters and metrics say about reports

A list of reports is counted by outcome, by type, and by the sum of the durations.  The counters and
the metrics agree with the list when each of their numbers is the one that is counted there, modulo
the size of a word; the order of the reports has no part in it, and recording one more report keeps
the agreement.  `Counters.Tallies` says so of the counters.  For the metrics `Metrics.Counts` is the
invariant, and `Metrics.Tallies` follows from it as long as the keys of the label values differ.
-/

namespace TaskScheduler

/-- The whole milliseconds of a duration. -/
def Duration.wholeMillis (d : Duration) : Nat := d.nanos / 10 ^ 6

/-- Whether a stage of the reported task broke off. -/
def TaskReport.isUnexpected (r : TaskReport) : Bool :=
  match r.outcome with
  | .error (.unexpected _ _) => true
  | _ => false

/-- How many reports have a status. -/
def countStatus (status : ReportStatus) (reports : List TaskReport) : Nat :=
  reports.countP fun r => r.status = status

/-- How many reports are about tasks of a type. -/
def countType (taskType : String) (reports : List TaskReport) : Nat :=
  reports.countP fun r => r.taskType = taskType

/-- How many reports have a status and are about tasks of a type. -/
def countStatusType (status : ReportStatus) (taskType : String) (reports : List TaskReport) : Nat :=
  reports.countP fun r => r.status = status ∧ r.taskType = taskType

/-- The durations of all reports, each cut to whole milliseconds. -/
def sumMillis (reports : List TaskReport) : Nat :=
  reports.foldr (fun r sum => r.duration.wholeMillis + sum) 0

variable {reports reports' : List TaskReport}

/-! ### Counters -/

namespace Counters

variable {c : Counters}

/-- The counters of reports agree with a list of reports, modulo `2 ^ 64`. -/
structure Tallies (c : Counters) (reports : List TaskReport) : Prop where
  /-- The completed tasks. -/
  completed : c.completed = .ofNat (countStatus .completed reports)
  /-- The failed tasks. -/
  failed : c.failed = .ofNat (countStatus .failed reports)
  /-- The tasks whose deadline passed. -/
  timedOut : c.timedOut = .ofNat (countStatus .timeout reports)
  /-- The canceled tasks. -/
  canceled : c.canceled = .ofNat (countStatus .canceled reports)
  /-- The tasks of which a stage broke off. -/
  panicked : c.panicked = .ofNat (reports.countP TaskReport.isUnexpected)
  /-- The durations. -/
  totalMs : c.totalMs = .ofNat (sumMillis reports)

/-- New counters agree with the empty list of reports: at first nothing is counted. -/
theorem tallies_nil : Tallies {} [] := ⟨rfl, rfl, rfl, rfl, rfl, rfl⟩

/-- If counters `Tallies` a list of reports, they do so with every permutation of it. -/
theorem Tallies.perm (h : c.Tallies reports) (hperm : reports.Perm reports') :
    c.Tallies reports' where
  completed := h.completed.trans (congrArg UInt64.ofNat (hperm.countP_eq _))
  failed := h.failed.trans (congrArg UInt64.ofNat (hperm.countP_eq _))
  timedOut := h.timedOut.trans (congrArg UInt64.ofNat (hperm.countP_eq _))
  canceled := h.canceled.trans (congrArg UInt64.ofNat (hperm.countP_eq _))
  panicked := h.panicked.trans (congrArg UInt64.ofNat (hperm.countP_eq _))
  totalMs := by
    have hsum : sumMillis reports = sumMillis reports' := by
      refine hperm.foldr_eq' (fun r _ r' _ sum => ?_) 0
      exact Nat.add_left_comm ..
    rw [← hsum, h.totalMs]

/-- `Counters.started` changes the number of running tasks only, which `Tallies` does not count. -/
theorem Tallies.started (h : c.Tallies reports) : c.started.Tallies reports :=
  ⟨h.completed, h.failed, h.timedOut, h.canceled, h.panicked, h.totalMs⟩

/-- `Counters.stopped` changes the number of running tasks only, which `Tallies` does not count. -/
theorem Tallies.stopped (h : c.Tallies reports) : c.stopped.Tallies reports :=
  ⟨h.completed, h.failed, h.timedOut, h.canceled, h.panicked, h.totalMs⟩

/-- Counters that agree with a list of reports agree with one report more after
`Counters.record`. -/
theorem Tallies.record (h : c.Tallies reports) (r : TaskReport) :
    (c.record r).Tallies (r :: reports) := by
  obtain ⟨id, taskType, duration, outcome⟩ := r
  have htotal : c.totalMs + duration.millis =
      .ofNat (sumMillis (⟨id, taskType, duration, outcome⟩ :: reports)) := by
    have hmillis : duration.millis = .ofNat duration.wholeMillis := rfl
    have hsum : sumMillis (⟨id, taskType, duration, outcome⟩ :: reports) =
        sumMillis reports + duration.wholeMillis := Nat.add_comm ..
    rw [h.totalMs, hmillis, hsum, UInt64.ofNat_add]
  obtain ⟨hcompleted, hfailed, htimedOut, hcanceled, hpanicked, -⟩ := h
  unfold countStatus at hcompleted hfailed htimedOut hcanceled
  rcases outcome with (_ | _ | ⟨text, causes⟩ | ⟨text, path⟩ | taskType') | v <;>
    constructor <;>
    simp [Counters.record, countOutcome, countStatus, List.countP_cons, TaskReport.status,
      Outcome.status, TaskReport.isUnexpected, *]

/-- `Counters.record` does not change the number of running tasks. -/
theorem running_record (c : Counters) (r : TaskReport) : (c.record r).running = c.running := by
  unfold record countOutcome
  split <;> rfl

/-- The count of some of the reports, kept as a `UInt64`, is the true one unless there are `2 ^ 64`
reports. -/
theorem toNat_ofNat_countP (p : TaskReport → Bool) (hlength : reports.length < 2 ^ 64) :
    (UInt64.ofNat (reports.countP p)).toNat = reports.countP p :=
  UInt64.toNat_ofNat_of_lt' (Nat.lt_of_le_of_lt List.countP_le_length hlength)

/-- No more tasks are counted as `panicked` than as `failed`, since a stage that broke off makes its
task fail. -/
theorem Tallies.panicked_le (h : c.Tallies reports) (hlength : reports.length < 2 ^ 64) :
    c.panicked ≤ c.failed := by
  rw [h.panicked, h.failed, UInt64.le_iff_toNat_le, countStatus, toNat_ofNat_countP _ hlength,
    toNat_ofNat_countP _ hlength]
  refine List.countP_mono_left fun r _ hunexpected => ?_
  obtain ⟨id, taskType, duration, outcome⟩ := r
  unfold TaskReport.isUnexpected at hunexpected
  rcases outcome with (_ | _ | _ | _ | _) | v <;> first | rfl | cases hunexpected

/-- `Counters.total` is the number of reports modulo `2 ^ 64`: every report is counted once. -/
theorem Tallies.total_eq (h : c.Tallies reports) : c.total = .ofNat reports.length := by
  have hsplit : countStatus .completed reports + countStatus .failed reports +
      countStatus .timeout reports + countStatus .canceled reports = reports.length := by
    clear h
    induction reports with
    | nil => rfl
    | cons r reports ih =>
      unfold countStatus at ih ⊢
      simp only [List.countP_cons, List.length_cons]
      cases r.status <;> simp <;> omega
  rw [Counters.total, h.completed, h.failed, h.timedOut, h.canceled, ← hsplit, UInt64.ofNat_add,
    UInt64.ofNat_add, UInt64.ofNat_add]

/-- The `averageDuration` of a snapshot is the mean of the durations cut to whole milliseconds,
unless the number of reports or the sum of the durations has overflowed. -/
theorem Tallies.averageDuration (h : c.Tallies reports) (hlength : reports.length < 2 ^ 64)
    (hsum : sumMillis reports < 2 ^ 64) :
    c.snapshot.averageDuration.nanos = sumMillis reports / reports.length * 10 ^ 6 := by
  have htotal : c.total.toNat = reports.length := by
    rw [h.total_eq, UInt64.toNat_ofNat_of_lt' hlength]
  unfold snapshot
  dsimp only
  split
  next hzero =>
    rw [hzero] at htotal
    rw [← htotal]
    exact (congrArg (· * 10 ^ 6) (Nat.div_zero (sumMillis reports))).symm
  next =>
    change (c.totalMs / c.total).toNat * 10 ^ 6 = _
    rw [UInt64.toNat_div, htotal, h.totalMs, UInt64.toNat_ofNat_of_lt' hsum]

/-- Without reports the `averageDuration` of a snapshot is zero. -/
theorem Tallies.averageDuration_nil (h : c.Tallies []) : c.snapshot.averageDuration = .zero := by
  unfold snapshot
  exact if_pos h.total_eq

end Counters

/-! ### Metrics -/

/-- The values of the labels under which a report is counted. -/
def TaskReport.labels (r : TaskReport) : List String := [r.taskType, r.status.name]

/-- The value of the label under which the duration of a report is observed. -/
def TaskReport.typeLabels (r : TaskReport) : List String := [r.taskType]

/-- Reports that differ in type or status have different keys, in both families with labels. -/
structure LabelKey.Distinguishes (key : LabelKey) (reports : List TaskReport) : Prop where
  /-- The finished tasks by type and status. -/
  finished : key.Separates (reports.map TaskReport.labels)
  /-- The durations by type. -/
  durations : key.Separates (reports.map TaskReport.typeLabels)

namespace Metrics

variable {m : Metrics}

/-- The number of finished tasks that is shown for a type and a status, zero without a series. -/
def total (m : Metrics) (taskType : String) (status : ReportStatus) : UInt64 :=
  (m.finished.value? [taskType, status.name]).getD 0

/-- The number of observed durations that is shown for a type, zero without a series. -/
def observed (m : Metrics) (taskType : String) : UInt64 :=
  ((m.durations.value? [taskType]).map Histogram.count).getD 0

/-- The series agree with a list of reports, modulo `2 ^ 64`. -/
structure Tallies (m : Metrics) (reports : List TaskReport) : Prop where
  /-- The finished tasks by status and type. -/
  finished : ∀ status taskType,
    m.total taskType status = .ofNat (countStatusType status taskType reports)
  /-- The observed durations by type. -/
  durations : ∀ taskType, m.observed taskType = .ofNat (countType taskType reports)

/-- The families were told of the labels of a list of reports. -/
structure Counts (m : Metrics) (reports : List TaskReport) : Prop where
  /-- The finished tasks. -/
  finished : m.finished.Counts m.key id (reports.map TaskReport.labels)
  /-- The observed durations. -/
  durations : m.durations.Counts m.key Histogram.count (reports.map TaskReport.typeLabels)

/-- The families of new metrics were told of no labels. -/
theorem counts_nil (key : LabelKey) : Counts { key := key } [] :=
  ⟨Family.counts_nil, Family.counts_nil⟩

/-- If metrics have the `Counts` of a list of reports, they have those of every permutation of
it. -/
theorem Counts.perm (h : m.Counts reports) (hperm : reports.Perm reports') : m.Counts reports' :=
  ⟨h.finished.perm (hperm.map _), h.durations.perm (hperm.map _)⟩

/-- `recordFinished` tells both families of one more report. -/
theorem Counts.record (h : m.Counts reports) (r : TaskReport) :
    (m.recordFinished r.taskType r.status r.duration).Counts (r :: reports) where
  finished := h.finished.update rfl (fun _ => rfl) r.labels
  durations := by
    have hempty : (Histogram.empty bounds).count = 0 := rfl
    have hobserve (h : Histogram) : (h.observe r.duration.asSeconds).count = h.count + 1 := rfl
    exact h.durations.update hempty hobserve r.typeLabels

/-- As long as `m.key` distinguishes the reports, the series show how many reports there are of each
kind. -/
theorem Counts.tallies (h : m.Counts reports) (hkey : m.key.Distinguishes reports) :
    m.Tallies reports where
  finished status taskType := by
    have hshown := h.finished.value? hkey.finished [taskType, status.name]
    rw [Option.map_id] at hshown
    refine hshown.trans (congrArg UInt64.ofNat ?_)
    rw [List.count, List.countP_map]
    refine List.countP_congr fun r _ => ?_
    have hname : r.status.name = status.name ↔ r.status = status := by
      cases r.status <;> cases status <;> decide
    simp [TaskReport.labels, hname, and_comm]
  durations taskType := by
    refine (h.durations.value? hkey.durations [taskType]).trans (congrArg UInt64.ofNat ?_)
    rw [List.count, List.countP_map]
    refine List.countP_congr fun r _ => ?_
    simp [TaskReport.typeLabels]

end Metrics

end TaskScheduler
