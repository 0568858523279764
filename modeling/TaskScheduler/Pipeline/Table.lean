import TaskScheduler.Data.FiniteMap

/-!
# Pipelines

A pipeline is the list of named stages of one task type.  A table of pipelines only grows: a stage
with a new name is added at the end, and a stage whose name is taken replaces the handler in place.
A pipeline that was looked up earlier is a value of its own and keeps its stages.
-/

namespace TaskScheduler

variable {η : Type}

/-- A named step of a pipeline with its handler. -/
structure Stage (η : Type) where
  /-- The name, unique in its pipeline. -/
  name : String
  /-- What runs. -/
  handler : η
  deriving DecidableEq, Repr

/-- The stages of one task type in order. -/
abbrev Pipeline (η : Type) := List (Stage η)

namespace Pipeline

/-- The names of the stages in order. -/
def stageNames (p : Pipeline η) : List String := p.map Stage.name

/-- Replace the handler of the stage with the same name, or add the stage at the end. -/
def upsert (stage : Stage η) : Pipeline η → Pipeline η
  | [] => [stage]
  | s :: rest =>
    if s.name = stage.name then { s with handler := stage.handler } :: rest
    else s :: upsert stage rest

end Pipeline

/-- The pipelines of all task types. -/
abbrev PipelineTable (η : Type) := FiniteMap String (Pipeline η)

namespace PipelineTable

/-- Register a stage for a task type. -/
def register (t : PipelineTable η) (taskType : String) (stage : Stage η) : PipelineTable η :=
  t.insert taskType (Pipeline.upsert stage (t.getD taskType []))

/-- Register several stages for a task type, first stage first. -/
def registerAll (t : PipelineTable η) (taskType : String) (stages : List (Stage η)) :
    PipelineTable η :=
  stages.foldl (fun t s => t.register taskType s) t

/-- The names of the stages of a task type. -/
def stageNames? (t : PipelineTable η) (taskType : String) : Option (List String) :=
  (t.get? taskType).map Pipeline.stageNames

/-- The registered task types in increasing order. -/
def taskTypes (t : PipelineTable η) : List String :=
  t.keys.mergeSort fun a b => decide (a ≤ b)

end PipelineTable

end TaskScheduler
