import Mathlib.Data.List.Induction
import Mathlib.Data.String.Basic
import TaskScheduler.Pipeline.Table

/-!
# Registered stages

A table of pipelines is made of registrations, each of a stage for a task type.  What the stages of
a type are can be read off the registrations for that type alone: the names in the order in which
they came first, and under each name the stage that came last.
-/

namespace TaskScheduler

variable {η : Type}

/-! ### One pipeline -/

namespace Pipeline

/-- The stages that remain of a row of registrations: their names in the order of their first
registration, each name once, and under each name the stage that was registered last. -/
structure IsMadeOf (p : Pipeline η) (stages : List (Stage η)) : Prop where
  /-- A name stands where it was registered first. -/
  names : p.stageNames = (stages.map Stage.name).eraseDups
  /-- No name stands twice. -/
  nodup : p.stageNames.Nodup
  /-- Of the registrations under its name a stage is the last. -/
  latest : ∀ s ∈ p, (stages.filter fun s' => s'.name = s.name).getLast? = some s

/-- The pipeline without stages `IsMadeOf` no registrations. -/
theorem isMadeOf_nil : IsMadeOf ([] : Pipeline η) [] := ⟨rfl, List.nodup_nil, List.forall_mem_nil _⟩

/-- `upsert` adds the name of a registered stage at the end, unless it is there. -/
theorem stageNames_upsert (stage : Stage η) (p : Pipeline η) :
    (upsert stage p).stageNames =
      if stage.name ∈ p.stageNames then p.stageNames else p.stageNames ++ [stage.name] := by
  induction p with
  | nil => simp [upsert, stageNames]
  | cons s p ih =>
    unfold upsert
    by_cases h : s.name = stage.name
    · simp [stageNames, h]
    · have hne : ¬ stage.name = s.name := Ne.symm h
      simp only [stageNames, List.map_cons, List.mem_cons, if_neg h, hne, false_or] at ih ⊢
      rw [ih]
      by_cases hmem : stage.name ∈ List.map Stage.name p <;> simp [hmem]

/-- After `upsert` a stage is the registered one, or has another name and was there before. -/
theorem mem_upsert {stage s : Stage η} {p : Pipeline η} (h : p.stageNames.Nodup)
    (hs : s ∈ upsert stage p) : s = stage ∨ s.name ≠ stage.name ∧ s ∈ p := by
  induction p with
  | nil => exact .inl (List.mem_singleton.1 hs)
  | cons s' p ih =>
    obtain ⟨hnot, hp⟩ := List.nodup_cons.1 h
    unfold upsert at hs
    split at hs
    next heq =>
      rcases List.mem_cons.1 hs with rfl | hs
      · exact .inl (congrArg (Stage.mk · stage.handler) heq)
      · -- the others have other names than the one that was replaced
        refine .inr ⟨fun hname => hnot ?_, List.mem_cons_of_mem _ hs⟩
        exact List.mem_map.2 ⟨s, hs, hname.trans heq.symm⟩
    next hne =>
      rcases List.mem_cons.1 hs with rfl | hs
      · exact .inr ⟨hne, List.mem_cons_self⟩
      · exact (ih hp hs).imp_right (And.imp_right (List.mem_cons_of_mem _))

/-- `upsert` makes a pipeline that `IsMadeOf` one more registration. -/
theorem IsMadeOf.upsert {p : Pipeline η} {stages : List (Stage η)} (h : p.IsMadeOf stages)
    (stage : Stage η) : (upsert stage p).IsMadeOf (stages ++ [stage]) := by
  refine ⟨?_, ?_, fun s hs => ?_⟩
  · have helem : (stages.map Stage.name).elem stage.name = decide (stage.name ∈ p.stageNames) := by
      rw [List.elem_eq_mem, h.names]
      simp only [List.mem_eraseDups]
    rw [stageNames_upsert, List.map_append, List.map_singleton, List.eraseDups_append, ← h.names,
      List.removeAll, List.filter_singleton, helem]
    by_cases hold : stage.name ∈ p.stageNames <;> simp [hold, List.eraseDups_cons]
  · rw [stageNames_upsert]
    split
    next => exact h.nodup
    next hnew =>
      refine List.nodup_append.2 ⟨h.nodup, List.pairwise_singleton _ _, ?_⟩
      intro name hname _ hlast heq
      exact hnew (List.mem_singleton.1 hlast ▸ heq ▸ hname)
  · rcases mem_upsert h.nodup hs with rfl | ⟨hne, hs⟩
    · simp
    · have hnot : ¬ stage.name = s.name := Ne.symm hne
      rw [List.filter_append, List.filter_cons_of_neg (by simpa using hnot), List.filter_nil,
        List.append_nil]
      exact h.latest s hs

end Pipeline

/-! ### All pipelines -/

/-- The stages that were registered for a task type, in the order of their registration. -/
def stagesFor (taskType : String) (registrations : List (String × Stage η)) : List (Stage η) :=
  (registrations.filter fun r => r.1 = taskType).map Prod.snd

/-- One more registration is one of the `stagesFor` its own type. -/
theorem stagesFor_concat (taskType : String) (registrations : List (String × Stage η))
    (r : String × Stage η) : stagesFor taskType (registrations ++ [r]) =
      if r.1 = taskType then stagesFor taskType registrations ++ [r.2]
      else stagesFor taskType registrations := by
  unfold stagesFor
  rw [List.filter_append, List.map_append]
  by_cases h : r.1 = taskType <;> simp [h]

namespace PipelineTable

/-- `register` changes the pipeline of its own type and no other. -/
theorem get?_register (t : PipelineTable η) (taskType other : String) (stage : Stage η) :
    (t.register taskType stage).get? other =
      if other = taskType then some (Pipeline.upsert stage ((t.get? taskType).getD []))
      else t.get? other := FiniteMap.get?_insert t taskType other _

/-- A table holds what was registered, type by type. -/
structure IsMadeOf (t : PipelineTable η) (registrations : List (String × Stage η)) : Prop where
  /-- A pipeline is made of the registrations for its type. -/
  pipelines : ∀ {taskType : String} {p : Pipeline η}, t.get? taskType = some p →
    p.IsMadeOf (stagesFor taskType registrations)
  /-- Only a type without registrations has no pipeline. -/
  absent : ∀ {taskType : String}, t.get? taskType = none ↔ stagesFor taskType registrations = []

/-- The empty table `IsMadeOf` no registrations. -/
theorem isMadeOf_empty : IsMadeOf (.empty : PipelineTable η) [] where
  pipelines h := by cases h
  absent := ⟨fun _ => rfl, fun _ => rfl⟩

/-- The pipeline of every type is made of the `stagesFor` it, when a type without one counts as one
without stages. -/
theorem IsMadeOf.getD {t : PipelineTable η} {registrations : List (String × Stage η)}
    (h : t.IsMadeOf registrations) (taskType : String) :
    Pipeline.IsMadeOf ((t.get? taskType).getD []) (stagesFor taskType registrations) := by
  cases hget : t.get? taskType with
  | none =>
    rw [h.absent.1 hget]
    exact Pipeline.isMadeOf_nil
  | some p => exact h.pipelines hget

/-- `register` makes a table that `IsMadeOf` one more registration. -/
theorem IsMadeOf.register {t : PipelineTable η} {registrations : List (String × Stage η)}
    (h : t.IsMadeOf registrations) (r : String × Stage η) :
    (t.register r.1 r.2).IsMadeOf (registrations ++ [r]) := by
  constructor
  · intro taskType p hget
    rw [get?_register] at hget
    rw [stagesFor_concat]
    by_cases hown : taskType = r.1
    · rw [if_pos hown] at hget
      rw [if_pos hown.symm, ← Option.some.inj hget, hown]
      exact (h.getD r.1).upsert r.2
    · rw [if_neg hown] at hget
      rw [if_neg (Ne.symm hown)]
      exact h.pipelines hget
  · intro taskType
    rw [get?_register, stagesFor_concat]
    by_cases hown : taskType = r.1
    · simp [hown]
    · rw [if_neg hown, if_neg (Ne.symm hown)]
      exact h.absent

/-! ### Task types -/

/-- The `taskTypes` are listed in increasing order, each once. -/
theorem taskTypes_pairwise (t : PipelineTable η) : t.taskTypes.Pairwise (· < ·) := by
  have hsorted : t.taskTypes.Pairwise (· ≤ ·) := by
    have htrans : ∀ a b c : String, decide (a ≤ b) = true → decide (b ≤ c) = true →
        decide (a ≤ c) = true := fun a b c hab hbc =>
      decide_eq_true (String.le_trans (of_decide_eq_true hab) (of_decide_eq_true hbc))
    have htotal : ∀ a b : String, (decide (a ≤ b) || decide (b ≤ a)) = true := fun a b => by
      simpa using String.le_total a b
    exact (List.pairwise_mergeSort htrans htotal t.keys).imp of_decide_eq_true
  have hnodup : t.taskTypes.Nodup := (List.mergeSort_perm t.keys _).nodup_iff.2 t.nodup
  exact (hsorted.and hnodup).imp fun h => lt_of_le_of_ne h.1 h.2

/-- The `taskTypes` are those that have a pipeline. -/
theorem mem_taskTypes (t : PipelineTable η) {taskType : String} :
    taskType ∈ t.taskTypes ↔ t.get? taskType ≠ none := by
  rw [taskTypes, List.mem_mergeSort, ne_eq, t.get?_eq_none_iff, not_not]

end PipelineTable

end TaskScheduler
