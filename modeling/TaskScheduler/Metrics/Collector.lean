import TaskScheduler.Metrics.Family
import TaskScheduler.Metrics.Histogram
import TaskScheduler.Task.Report

/-!
# Scheduler metrics

The metrics of a scheduler and their text in the exposition format: four families in the order of
their names, the series of a family in the order of their label values.  All counts are machine
words and wrap; the text shows them as floating-point numbers.
-/

namespace TaskScheduler

/-- What a scheduler measures. -/
structure Metrics where
  /-- The key by which a family finds its children. -/
  key : LabelKey := .fnv
  /-- Finished tasks by type and status. -/
  finished : Family UInt64 := {}
  /-- The time from pop to report by type. -/
  durations : Family Histogram := {}
  /-- Tasks whose pipeline is executing. -/
  running : Int64 := 0
  /-- Popped tasks waiting for dispatch. -/
  depth : Int64 := 0
  deriving Inhabited

namespace Metrics

/-- The bounds of the duration histogram in thousandths of a second. -/
def bounds : List Bound := [5, 50, 250, 1000, 5000, 30000, 120000, 600000]

/-- A task finished. -/
def recordFinished (m : Metrics) (taskType : String) (status : ReportStatus)
    (duration : Duration) : Metrics :=
  let labels := [taskType, status.name]
  { m with
    finished := m.finished.update (m.key labels) labels 0 (· + 1)
    durations := m.durations.update (m.key [taskType]) [taskType] (.empty bounds)
      (·.observe duration.asSeconds) }

/-- A pipeline starts. -/
def started (m : Metrics) : Metrics := { m with running := m.running + 1 }

/-- A pipeline stops. -/
def stopped (m : Metrics) : Metrics := { m with running := m.running - 1 }

/-- Set the number of tasks waiting for dispatch. -/
def setDepth (m : Metrics) (n : Nat) : Metrics := { m with depth := Int64.ofNat n }

/-! ### Exposition -/

/-- A label value with its quotes. -/
def quoted (s : String) : String :=
  let body := s.toList.flatMap fun c =>
    if c = '\\' then ['\\', '\\']
    else if c = '"' then ['\\', '"']
    else if c = '\n' then ['\\', 'n']
    else [c]
  String.ofList ('"' :: (body ++ ['"']))

/-- The text of a whole number, which is shown as the nearest floating-point number. -/
def wholeText (n : Int) : String :=
  (if n < 0 then "-" else "") ++ String.ofList (Binary64.plainChars (Binary64.ofNat n.natAbs))

/-- A line of a series: name, labels and value. -/
def seriesLine (name : String) (labels : List (String × String)) (value : String) : String :=
  let shown := labels.map fun l => l.1 ++ "=" ++ quoted l.2
  let inner := if shown = [] then "" else "\x7b" ++ ",".intercalate shown ++ "\x7d"
  name ++ inner ++ " " ++ value

/-- The lines of a family, none when it has no series. -/
def family (name help kind : String) (series : List String) : List String :=
  if series = [] then []
  else ("# HELP " ++ name ++ " " ++ help) :: ("# TYPE " ++ name ++ " " ++ kind) :: series

/-- The name of the duration family. -/
def durationName : String := "taskflow_task_duration_seconds"

/-- The label values of a series with their names, in the order of the names. -/
def labelled (names labels : List String) : List (String × String) :=
  (names.zip labels).mergeSort fun a b => decide (a.1 ≤ b.1)

/-- The series of a family in the order of their label values, with the names of the labels. -/
def labelledSeries {α : Type} (f : Family α) (names : List String) :
    List (List (String × String) × α) :=
  (f.series.map fun child => (labelled names child.1, child.2)).mergeSort fun a b =>
    !List.lex (b.1.map Prod.snd) (a.1.map Prod.snd) fun x y => decide (x < y)

/-- The lines of one histogram. -/
def histogramLines (labels : List (String × String)) (h : Histogram) : List String :=
  (Histogram.cumulative 0 h.buckets).map (fun b =>
      seriesLine (durationName ++ "_bucket") (labels ++ [("le", b.1.text)])
        (wholeText b.2.toNat)) ++
    [seriesLine (durationName ++ "_bucket") (labels ++ [("le", "+Inf")]) (wholeText h.count.toNat),
      seriesLine (durationName ++ "_sum") labels (String.ofList (Binary64.plainChars h.sum)),
      seriesLine (durationName ++ "_count") labels (wholeText h.count.toNat)]

/-- The lines of all metrics. -/
def lines (m : Metrics) : List String :=
  family durationName "Time from pop to report, in seconds" "histogram"
      ((labelledSeries m.durations ["task_type"]).flatMap fun e => histogramLines e.1 e.2) ++
    family "taskflow_tasks_running" "Tasks whose pipeline is currently executing" "gauge"
      [seriesLine "taskflow_tasks_running" [] (wholeText m.running.toInt)] ++
    family "taskflow_tasks_total" "Tasks finished, by type and final status" "counter"
      ((labelledSeries m.finished ["task_type", "status"]).map fun e =>
        seriesLine "taskflow_tasks_total" e.1 (wholeText e.2.toNat)) ++
    family "taskflow_wait_buffer_depth" "Popped tasks waiting for dispatch" "gauge"
      [seriesLine "taskflow_wait_buffer_depth" [] (wholeText m.depth.toInt)]

/-- The text of all metrics; every line ends with a line feed. -/
def exposition (m : Metrics) : String := String.join (m.lines.map (· ++ "\n"))

end Metrics

end TaskScheduler
