import TaskScheduler.Pipeline.Table

/-!
# Shared pipelines

How a table of pipelines lies in memory.  The table and everyone who looked a pipeline up hold one
cell together, and a cell counts those who hold it.  A registration changes a cell in place while
the table alone holds it; otherwise the table gets a changed copy, and the others keep the cell.
-/

namespace TaskScheduler

variable {η : Type}

/-- A pipeline with the number of those who hold it. -/
structure PipelineCell (η : Type) where
  /-- The pipeline. -/
  stages : Pipeline η
  /-- How many hold the cell. -/
  holders : Nat
  deriving DecidableEq, Repr

/-- Something done with a table of pipelines. -/
inductive TableCall (η : Type) where
  /-- Register a stage for a task type, which gives a handle. -/
  | register (taskType : String) (stage : Stage η)
  /-- Register a stage by a handle, for the type of the registration that gave it. -/
  | append (handle : Nat) (stage : Stage η)
  /-- Look the pipeline of a type up and hold it. -/
  | take (taskType : String)
  /-- Let go of what was looked up, counted from the first time. -/
  | release (i : Nat)
  deriving DecidableEq, Repr

/-- A table of pipelines in memory.  An address is a place in the list of cells. -/
structure SharedTable (η : Type) where
  /-- The cells, oldest first. -/
  cells : List (PipelineCell η) := []
  /-- The address of the pipeline of each type. -/
  addresses : FiniteMap String Nat := .empty
  /-- The types of the handles, oldest first. -/
  handles : List String := []
  /-- The addresses that were looked up, oldest first, nothing where there was no pipeline or it was
  let go. -/
  taken : List (Option Nat) := []

namespace SharedTable

/-- The stages at an address. -/
def stages? (t : SharedTable η) (a : Nat) : Option (Pipeline η) :=
  t.cells[a]?.map PipelineCell.stages

/-- The pipeline of a type. -/
def pipeline? (t : SharedTable η) (taskType : String) : Option (Pipeline η) :=
  (t.addresses.get? taskType).bind t.stages?

/-- What someone holds who looked a pipeline up, counted from the first time. -/
def held? (t : SharedTable η) (i : Nat) : Option (Pipeline η) := t.taken[i]?.join.bind t.stages?

/-- The registered task types in increasing order. -/
def taskTypes (t : SharedTable η) : List String :=
  t.addresses.keys.mergeSort fun a b => decide (a ≤ b)

/-- The address of the pipeline of a type, which is made if there is none. -/
def enter (t : SharedTable η) (taskType : String) : Nat × SharedTable η :=
  match t.addresses.get? taskType with
  | some a => (a, t)
  | none =>
    (t.cells.length,
      { t with
        cells := t.cells ++ [⟨[], 1⟩]
        addresses := t.addresses.insert taskType t.cells.length })

/-- Change the pipeline of a type, which lies at the given address: in place if the table alone
holds it, and a copy of it otherwise. -/
def change (t : SharedTable η) (taskType : String) (a : Nat) (f : Pipeline η → Pipeline η) :
    SharedTable η :=
  match t.cells[a]? with
  | none => t
  | some c =>
    if c.holders = 1 then { t with cells := t.cells.set a { c with stages := f c.stages } }
    else
      { t with
        cells := t.cells.set a { c with holders := c.holders - 1 } ++ [⟨f c.stages, 1⟩]
        addresses := t.addresses.insert taskType t.cells.length }

/-- Register a stage for a task type. -/
def register (t : SharedTable η) (taskType : String) (stage : Stage η) : SharedTable η :=
  let (a, t) := t.enter taskType
  t.change taskType a (Pipeline.upsert stage)

/-- Change the number of those who hold a cell. -/
def recount (t : SharedTable η) (a : Nat) (f : Nat → Nat) : SharedTable η :=
  { t with cells := t.cells.modify a fun c => { c with holders := f c.holders } }

/-- The table after a call. -/
def call (t : SharedTable η) : TableCall η → SharedTable η
  | .register taskType stage =>
    { t.register taskType stage with handles := t.handles ++ [taskType] }
  | .append i stage =>
    match t.handles[i]? with
    | some taskType => t.register taskType stage
    | none => t
  | .take taskType =>
    match t.addresses.get? taskType with
    | some a => { t.recount a (· + 1) with taken := t.taken ++ [some a] }
    | none => { t with taken := t.taken ++ [none] }
  | .release i =>
    match t.taken[i]? with
    | some (some a) => { t.recount a (· - 1) with taken := t.taken.set i none }
    | _ => t

/-- The table after a row of calls, from the empty one. -/
def after (calls : List (TableCall η)) : SharedTable η := calls.foldl call {}

end SharedTable

end TaskScheduler
