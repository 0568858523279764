import TaskScheduler.Proofs.Scheduler.Order

/-!
# Where every popped task stands

A task that was popped and is not with a worker is in the hands of one of the loops.  `Loops.placed`
lists what a pair of loops holds and in which capacity, `Phase.place?` reads the capacity off a
task, and `Tracked` says that the two agree and that nothing is held twice.  A step either passes a
task on from one place to the next or leaves all places alone; `Core.Step.tracked` puts this
together.
-/

namespace TaskScheduler

variable {β η : Type}

/-! ### Places -/

/-- The capacity in which a loop holds a task. -/
inductive Place where
  /-- Popped and not registered. -/
  | popped
  /-- Waiting for dispatch. -/
  | waiting
  /-- Taken for dispatch. -/
  | dispatched
  deriving DecidableEq

/-- The capacity in which a task in a phase has to be held by a loop, if it has to be. -/
def Phase.place? : Phase η → Option Place
  | .popped => some .popped
  | .waiting => some .waiting
  | .dispatched => some .dispatched
  | _ => none

/-- What the popping loop holds. -/
def PopPhase.placed : PopPhase → List (Place × TaskRef)
  | .holding r => [(.popped, r)]
  | .sending r => [(.waiting, r)]
  | .passing r => [(.dispatched, r)]
  | _ => []

/-- What the dispatching loop holds. -/
def DispatchPhase.placed : DispatchPhase → List (Place × TaskRef)
  | .passing r => [(.dispatched, r)]
  | _ => []

/-- What the loops of a run and the buffer between them hold. -/
def Loops.placed (l : Loops) : List (Place × TaskRef) :=
  l.pop.placed ++ (l.dispatch.placed ++ l.buffer.map (Place.waiting, ·))

/-- What a run holds. -/
def Run.placed (run : Run) : List (Place × TaskRef) :=
  match run.phase with
  | .looping l => l.placed
  | _ => []

/-- The capacity in which a task of a list has to be held. -/
def placeOf (tasks : List (Task η)) (r : TaskRef) : Option Place :=
  tasks[r]?.bind fun t => t.phase.place?

/-- Every task that has to be held by a loop is held exactly once, in the capacity that its phase
says, and nothing else is held. -/
def Tracked (tasks : List (Task η)) (runs : List Run) : Prop :=
  ∀ x : Place × TaskRef,
    (runs.flatMap Run.placed).count x = if placeOf tasks x.2 = some x.1 then 1 else 0

/-- Going on to its `next` phase, the dispatching loop holds nothing. -/
@[simp] theorem Loops.placed_next (l : Loops) : l.next.placed = [] := by
  unfold next
  split <;> rfl

/-- Changing one element of a list by `List.modify` replaces its part of a `List.flatMap`. -/
theorem count_flatMap_modify {α γ : Type} [BEq γ] (g : α → List γ) (f : α → α) (x : γ)
    {l : List α} {i : Nat} {a : α} (h : l[i]? = some a) :
    ((l.modify i f).flatMap g).count x + (g a).count x =
      (l.flatMap g).count x + (g (f a)).count x := by
  induction l generalizing i with
  | nil => simp at h
  | cons b l ih =>
    cases i with
    | zero =>
      obtain rfl : b = a := by simpa using h
      simp only [List.modify_zero_cons, List.flatMap_cons, List.count_append]
      omega
    | succ i =>
      have hrest := ih (by simpa using h)
      simp only [List.modify_succ_cons, List.flatMap_cons, List.count_append]
      omega

/-- `placeOf` after a change of one task: that of the changed task in its place, and the old one
elsewhere. -/
theorem placeOf_modify (tasks : List (Task η)) (r r' : TaskRef) (f : Task η → Task η) :
    placeOf (tasks.modify r f) r' =
      if r = r' then tasks[r]?.bind fun t => (f t).phase.place? else placeOf tasks r' := by
  unfold placeOf
  rw [List.getElem?_modify]
  by_cases h : r = r'
  · subst h
    cases tasks[r]? <;> simp
  · simp [h]

namespace Tracked

variable {tasks : List (Task η)} {runs : List Run} {i : Nat} {run run' : Run} {r : TaskRef}

/-- Where the tasks are `Tracked`, a task that a run holds in some capacity has to be held in this
one. -/
theorem placeOf_of_mem (h : Tracked tasks runs) (hrun : runs[i]? = some run) {p : Place}
    (hmem : (p, r) ∈ run.placed) : placeOf tasks r = some p := by
  have hall : (p, r) ∈ runs.flatMap Run.placed :=
    List.mem_flatMap.2 ⟨run, List.mem_of_getElem? hrun, hmem⟩
  have hpos : 0 < (runs.flatMap Run.placed).count (p, r) := List.count_pos_iff.2 hall
  rw [h (p, r)] at hpos
  by_cases hp : placeOf tasks r = some p
  · exact hp
  · simp [hp] at hpos

/-- A run that rearranges what it holds keeps the tasks `Tracked`. -/
theorem modifyRun (h : Tracked tasks runs) (hrun : runs[i]? = some run) {f : Run → Run}
    (hf : (f run).placed.Perm run.placed) : Tracked tasks (runs.modify i f) := by
  intro x
  have hcount := count_flatMap_modify Run.placed f x hrun
  rw [hf.count_eq] at hcount
  rw [← h x]
  omega

/-- A change of a task that keeps its `Phase.place?` keeps the tasks `Tracked`. -/
theorem modifyTask (h : Tracked tasks runs) {f : Task η → Task η}
    (hf : ∀ t, tasks[r]? = some t → (f t).phase.place? = t.phase.place?) :
    Tracked (tasks.modify r f) runs := by
  intro x
  have hplace : placeOf (tasks.modify r f) x.2 = placeOf tasks x.2 := by
    rw [placeOf_modify]
    split
    next heq =>
      subst heq
      cases ht : tasks[x.2]? with
      | none => simp [placeOf, ht]
      | some t => simp [placeOf, ht, hf t ht]
    next => rfl
  rw [hplace]
  exact h x

/-- A run that passes one task on from one place to another, or out of its hands, keeps the tasks
`Tracked`. -/
theorem pass (h : Tracked tasks runs) (p' : Option Place) (hrun : runs[i]? = some run)
    {f : Run → Run} {g : Task η → Task η} {p : Place} (hmem : (p, r) ∈ run.placed)
    (hg : ∀ t, tasks[r]? = some t → (g t).phase.place? = p')
    (hf : ((p, r) :: (f run).placed).Perm ((p'.map (·, r)).toList ++ run.placed)) :
    Tracked (tasks.modify r g) (runs.modify i f) := by
  have hp := h.placeOf_of_mem hrun hmem
  intro x
  have hcount := count_flatMap_modify Run.placed f x hrun
  have hperm := hf.count_eq x
  have hplace : placeOf (tasks.modify r g) r = p' := by
    obtain ⟨t, ht, -⟩ := Option.bind_eq_some_iff.1 hp
    rw [placeOf_modify, if_pos rfl, ht]
    exact hg t ht
  have hx := h x
  obtain ⟨q, r'⟩ := x
  by_cases hr : r = r'
  · subst hr
    rw [hplace]
    simp only [hp] at hx
    cases p' with
    | none =>
      simp only [Option.map_none, Option.toList_none, List.nil_append, List.count_cons, beq_iff_eq,
        Prod.mk.injEq, and_true] at hperm
      simp only [Option.some.injEq, reduceCtorEq, if_false] at hx ⊢
      omega
    | some p' =>
      simp only [Option.map_some, Option.toList_some, List.singleton_append, List.count_cons,
        beq_iff_eq, Prod.mk.injEq, and_true] at hperm
      simp only [Option.some.injEq] at hx ⊢
      omega
  · have hother : placeOf (tasks.modify r g) r' = placeOf tasks r' := by
      rw [placeOf_modify, if_neg hr]
    rw [hother, ← hx]
    cases p' with
    | none =>
      simp only [Option.map_none, Option.toList_none, List.nil_append, List.count_cons, beq_iff_eq,
        Prod.mk.injEq, hr, and_false, if_false] at hperm
      omega
    | some p' =>
      simp only [Option.map_some, Option.toList_some, List.singleton_append, List.count_cons,
        beq_iff_eq, Prod.mk.injEq, hr, and_false, if_false] at hperm
      omega

/-- A run that pops a task, and holds it, keeps the tasks `Tracked`. -/
theorem pop (h : Tracked tasks runs) (hrun : runs[i]? = some run) {f : Run → Run} {t : Task η}
    (ht : t.phase = .popped)
    (hf : (f run).placed.Perm ((.popped, tasks.length) :: run.placed)) :
    Tracked (tasks ++ [t]) (runs.modify i f) := by
  intro x
  have hcount := count_flatMap_modify Run.placed f x hrun
  have hperm := hf.count_eq x
  have hx := h x
  obtain ⟨q, r⟩ := x
  simp only [List.count_cons, beq_iff_eq, Prod.mk.injEq] at hperm
  rcases Nat.lt_trichotomy r tasks.length with hr | hr | hr
  · have hsame : placeOf (tasks ++ [t]) r = placeOf tasks r := by
      unfold placeOf
      rw [List.getElem?_append_left hr]
    have hne : ¬ (Place.popped = q ∧ tasks.length = r) := fun hand =>
      absurd hand.2 (by omega)
    rw [if_neg hne] at hperm
    rw [hsame, ← hx]
    omega
  · subst hr
    have hnew : placeOf (tasks ++ [t]) tasks.length = some .popped := by
      simp [placeOf, ht, Phase.place?]
    have hold : placeOf tasks tasks.length = none := by simp [placeOf]
    rw [hnew]
    simp only [hold, reduceCtorEq, if_false] at hx
    simp only [and_true] at hperm
    simp only [Option.some.injEq]
    omega
  · have hnew : placeOf (tasks ++ [t]) r = none := by
      unfold placeOf
      rw [List.getElem?_eq_none (by rw [List.length_append, List.length_singleton]; omega)]
      rfl
    have hold : placeOf tasks r = none := by
      unfold placeOf
      rw [List.getElem?_eq_none (by omega)]
      rfl
    have hne : ¬ (Place.popped = q ∧ tasks.length = r) := fun hand =>
      absurd hand.2 (by omega)
    rw [if_neg hne] at hperm
    rw [hnew]
    simp only [hold, reduceCtorEq, if_false] at hx
    simp only [reduceCtorEq, if_false]
    omega

/-- One more run that holds nothing keeps the tasks `Tracked`. -/
theorem addRun (h : Tracked tasks runs) (hrun : run.placed = []) :
    Tracked tasks (runs ++ [run]) := by
  intro x
  simp only [List.flatMap_append, List.flatMap_singleton, hrun, List.append_nil]
  exact h x

end Tracked

/-! ### Places along a step -/

/-- A run whose `loops?` are at work is in the phase `looping` with them. -/
theorem Core.runs_of_loops? {c : Core β η} {i : Nat} {l : Loops} (h : c.loops? i = some l) :
    ∃ b, c.runs[i]? = some ⟨.looping l, b⟩ := by
  unfold Core.loops? at h
  split at h
  next l' b hrun =>
    obtain rfl : l' = l := Option.some.inj h
    exact ⟨b, hrun⟩
  next => exact absurd h (by simp)

/-- What the loops of a run hold is a task of the list, and has to be held there. -/
theorem Tracked.exists_of_loops? {c : Core β η} (ht : Tracked c.tasks c.runs) {i : Nat} {l : Loops}
    (h : c.loops? i = some l) {p : Place} {r : TaskRef} (hmem : (p, r) ∈ l.placed) :
    ∃ t, c.tasks[r]? = some t ∧ t.phase.place? = some p := by
  obtain ⟨b, hrun⟩ := Core.runs_of_loops? h
  exact Option.bind_eq_some_iff.1 (ht.placeOf_of_mem hrun hmem)

/-- A `LoopStep`, which hands nothing on, keeps what the loops hold. -/
theorem Core.LoopStep.placed {c : Core β η} {b : Bool} {n : Nat} {l l' : Loops}
    (h : c.LoopStep b n l l') : l'.placed.Perm l.placed := by
  cases h with
  | send hp ho hc =>
    simp only [Loops.placed, hp, PopPhase.placed, List.map_append, List.map_cons, List.map_nil,
      List.nil_append, List.singleton_append]
    rw [← List.append_assoc]
    exact List.perm_append_singleton _ _
  | ask hp | quit hp | wake hp | rejected hp | skipped hp =>
    simp [Loops.placed, hp, PopPhase.placed]
  | passedOver hd =>
    have hold : l.dispatch.placed = [] := by rw [hd]; rfl
    simp only [Loops.placed, hold, Loops.placed_next, List.Perm.refl]
  | close hd | empty hd | drain hd | await hd | again hd =>
    simp [Loops.placed, hd, DispatchPhase.placed]

/-- A task that a loop `Takes` for dispatch was waiting, and is held for dispatch afterwards. -/
theorem Core.Takes.placed {l l' : Loops} {r : TaskRef} (h : Core.Takes l r l') :
    ((Place.waiting, r) :: l'.placed).Perm ((Place.dispatched, r) :: l.placed) := by
  cases h with
  | refused hp hc =>
    simp only [Loops.placed, hp, PopPhase.placed, List.singleton_append]
    exact List.Perm.swap ..
  | @received rest hb hd =>
    have hold : l.dispatch.placed = [] := by
      rcases hd with hd | hd <;> simp [hd, DispatchPhase.placed]
    have hnew : (DispatchPhase.passing r).placed = [(Place.dispatched, r)] := rfl
    simp only [Loops.placed, hold, hnew, hb, List.singleton_append, List.map_cons, List.nil_append]
    refine ((List.perm_middle.cons _).trans (List.Perm.swap ..)).trans ?_
    exact List.perm_middle.symm.cons _

/-- A popping loop in the phase `holding` holds the task as one that it has popped. -/
theorem Loops.mem_placed_of_holding {l : Loops} {r : TaskRef} (h : l.pop = .holding r) :
    (Place.popped, r) ∈ l.placed := by
  simp [placed, h, PopPhase.placed]

/-- A task that a loop `Takes` for dispatch was held as a waiting one. -/
theorem Core.Takes.mem_placed {l l' : Loops} {r : TaskRef} (h : Core.Takes l r l') :
    (Place.waiting, r) ∈ l.placed := by
  cases h with
  | refused hp hc => simp [Loops.placed, hp, PopPhase.placed]
  | received hb hd => simp [Loops.placed, hb]

/-- A task that a loop hands over in `HandOver` was held for dispatch. -/
theorem Core.HandOver.mem_placed {l l' l'' : Loops} {r : TaskRef} (h : Core.HandOver l r l' l'') :
    (Place.dispatched, r) ∈ l.placed := by
  cases h with
  | pop hp => simp [Loops.placed, hp, PopPhase.placed]
  | dispatch hd => simp [Loops.placed, hd, DispatchPhase.placed]

/-- A task that a loop hands over in `HandOver` was held for dispatch, and is not held afterwards,
whether it is accepted or refused. -/
theorem Core.HandOver.placed {l l' l'' : Loops} {r : TaskRef} (h : Core.HandOver l r l' l'') :
    ((Place.dispatched, r) :: l'.placed).Perm l.placed ∧
      ((Place.dispatched, r) :: l''.placed).Perm l.placed := by
  cases h with
  | pop hp => simp [Loops.placed, hp, PopPhase.placed]
  | dispatch hd =>
    have hold : l.dispatch.placed = [(Place.dispatched, r)] := by rw [hd]; rfl
    have hskip : (DispatchPhase.skipping r).placed = [] := rfl
    simp only [Loops.placed, hold, hskip, Loops.placed_next, List.nil_append, List.singleton_append]
    exact ⟨List.perm_middle.symm, List.perm_middle.symm⟩

/-- Loops in order whose dispatching loop is `draining`, that is, only waits for the registry, hold
nothing. -/
theorem Loops.Ordered.placed_eq_nil {l : Loops} (h : l.Ordered) (hd : l.dispatch = .draining) :
    l.placed = [] := by
  have hclosed : l.closed = true := h.closed (by simp [hd, DispatchPhase.isClosing])
  have hend : l.pop = .ended := h.ended hclosed (by simp [hd])
  have hempty : l.buffer = [] := h.emptied (by simp [hd, DispatchPhase.isDraining])
  simp [Loops.placed, hend, hd, hempty, PopPhase.placed, DispatchPhase.placed]

/-- What a worker or a completion does, by `Task.Works`, leaves the task in nobody's hands. -/
theorem Task.Works.place? {t t' : Task η} (h : t.Works t') : t'.phase.place? = t.phase.place? := by
  cases h <;> simp_all [Phase.place?]

/-- Every step of the core keeps the tasks `Tracked`. -/
theorem Core.Step.tracked [TaskQueue β] {c c' : Core β η} {n : Nat} (h : Core.Step n c c')
    (ho : ∀ run ∈ c.runs, run.Ordered) (ht : Tracked c.tasks c.runs) :
    Tracked c'.tasks c'.runs := by
  cases h with
  | idle => exact ht
  | push e priority => exact ht
  | cancelQueued id wall => exact ht
  | refuse e => exact ht.addRun rfl
  | begin h => exact ht.addRun rfl
  | fail h e => exact ht.modifyRun h (List.Perm.refl [])
  | loop h => exact ht.modifyRun h (List.Perm.refl [])
  | breakOff h => exact ht.modifyRun h (List.Perm.refl [])
  | shutDown i =>
    cases hrun : c.runs[i]? with
    | none =>
      have hself : (c.runs.modify i fun run => { run with shutdown := true }) = c.runs :=
        modify_eq_self_of_none _ hrun
      dsimp only
      rw [hself]
      exact ht
    | some run => exact ht.modifyRun hrun (List.Perm.refl _)
  | loops h hl => exact ht.modifyRun h hl.placed
  | popped h hp ha now =>
    obtain ⟨b, hrun⟩ := Core.runs_of_loops? h
    refine ht.pop hrun rfl ?_
    simp [Run.placed, Loops.placed, hp, PopPhase.placed]
  | unpopped h hp =>
    obtain ⟨b, hrun⟩ := Core.runs_of_loops? h
    refine ht.modifyRun hrun ?_
    simp [Run.placed, Loops.placed, hp, PopPhase.placed]
  | enroll h hp =>
    obtain ⟨b, hrun⟩ := Core.runs_of_loops? h
    refine ht.pass (some .waiting) hrun (Loops.mem_placed_of_holding hp) (fun _ _ => rfl) ?_
    simp only [Run.placed, Loops.placed, hp, PopPhase.placed]
    exact List.Perm.swap ..
  | reject h hp =>
    obtain ⟨b, hrun⟩ := Core.runs_of_loops? h
    refine ht.pass none hrun (Loops.mem_placed_of_holding hp) (fun _ _ => rfl) ?_
    simp [Run.placed, Loops.placed, hp, PopPhase.placed]
  | take h hl =>
    obtain ⟨b, hrun⟩ := Core.runs_of_loops? h
    exact ht.pass (some .dispatched) hrun hl.mem_placed (fun _ _ => rfl) hl.placed
  | spawn h hl =>
    obtain ⟨b, hrun⟩ := Core.runs_of_loops? h
    exact ht.pass none hrun hl.mem_placed (fun _ _ => rfl) hl.placed.1
  | skip h hl =>
    obtain ⟨b, hrun⟩ := Core.runs_of_loops? h
    exact ht.pass none hrun hl.mem_placed (fun _ _ => rfl) hl.placed.2
  | finish h hd =>
    obtain ⟨b, hrun⟩ := Core.runs_of_loops? h
    refine ht.modifyRun hrun ?_
    have hnone := (Core.looping_of_loops? ho h).placed_eq_nil hd
    simp [Run.placed, hnone]
  | work hr h =>
    apply ht.modifyTask
    intro t' ht'
    rw [hr] at ht'
    exact Option.some.inj ht' ▸ h.place?
  | report hr hp =>
    apply ht.modifyTask
    intro t' ht'
    rw [hr] at ht'
    obtain rfl := Option.some.inj ht'
    simp [hp, Phase.place?]
  | cancel hr hs released => exact ht.modifyTask fun _ _ => rfl
  | release hr hp =>
    apply ht.modifyTask
    intro t' ht'
    rw [hr] at ht'
    obtain rfl := Option.some.inj ht'
    simp [hp, Phase.place?]

end TaskScheduler
