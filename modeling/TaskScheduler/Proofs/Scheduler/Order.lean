import TaskScheduler.Proofs.Scheduler.CoreMove

/-!
# The order in which a run shuts down

A run that is asked to stop closes the buffer, waits for the popping loop to end, empties the
buffer, and only then looks at the registry.  `Loops.Ordered` says this of the loops at one moment,
and `Core.Step.ordered` that no step disturbs it.
-/

namespace TaskScheduler

variable {β η : Type}

/-! ### Lists with one element changed -/

/-- What holds of all elements, and of the changed one, holds of all elements after
`List.modify`. -/
theorem forall_mem_modify {α : Type} {P : α → Prop} {l : List α} {i : Nat} {f : α → α}
    (h : ∀ a ∈ l, P a) (hf : ∀ a, l[i]? = some a → P a → P (f a)) : ∀ a ∈ l.modify i f, P a := by
  intro a ha
  obtain ⟨j, hj⟩ := List.mem_iff_getElem?.1 ha
  rw [List.getElem?_modify] at hj
  obtain ⟨b, hb, rfl⟩ := Option.map_eq_some_iff.1 hj
  have hPb := h b (List.mem_of_getElem? hb)
  by_cases hij : i = j
  · subst hij
    simpa using hf b hb hPb
  · simpa [hij] using hPb

/-! ### Loops in order -/

/-- The dispatching loop has passed the point at which it closes the buffer. -/
def DispatchPhase.isClosing : DispatchPhase → Bool
  | .closing | .emptying | .draining | .resting _ => true
  | _ => false

/-- The dispatching loop only waits for the registry to become empty. -/
def DispatchPhase.isDraining : DispatchPhase → Bool
  | .draining | .resting _ => true
  | _ => false

/-- The buffer is closed before the popping loop is waited for, and emptied after that. -/
structure Loops.Ordered (l : Loops) : Prop where
  /-- Tasks are received while the buffer is open. -/
  receiving : l.dispatch = .receiving → l.closed = false
  /-- The buffer stays closed. -/
  closed : l.dispatch.isClosing → l.closed = true
  /-- The popping loop has ended, except while it is waited for. -/
  ended : l.closed = true → l.dispatch ≠ .closing → l.pop = .ended
  /-- The buffer stays empty. -/
  emptied : l.dispatch.isDraining → l.buffer = []

/-- The loops of a run are in order, if it has loops. -/
def Run.Ordered (run : Run) : Prop := ∀ l, run.phase = .looping l → l.Ordered

namespace Loops

/-- Loops in order whose dispatching loop has not come to closing the buffer stay so when it goes on
to its `next` phase. -/
theorem Ordered.next {l : Loops} (h : l.Ordered) (hc : l.dispatch.isClosing = false) :
    ({ l with dispatch := l.next } : Loops).Ordered := by
  have hend : l.closed = true → l.pop = .ended := by
    intro hclosed
    apply h.ended hclosed
    intro hd
    rw [hd] at hc
    exact absurd hc (by decide)
  unfold Loops.next
  split
  next hclosed =>
    exact ⟨by simp, fun _ => hclosed, fun _ _ => hend hclosed, by simp [DispatchPhase.isDraining]⟩
  next hopen =>
    have hfalse : l.closed = false := Bool.eq_false_iff.2 hopen
    exact ⟨fun _ => hfalse, by simp [DispatchPhase.isClosing], fun htrue => absurd htrue hopen,
      by simp [DispatchPhase.isDraining]⟩

/-- Loops that begin are `Ordered`. -/
theorem ordered_default : ({} : Loops).Ordered :=
  ⟨fun _ => rfl, by simp [DispatchPhase.isClosing], by simp, by simp⟩

/-- Loops in order of which the dispatching loop only waits for the registry stay so while it
waits. -/
theorem Ordered.wait {l : Loops} (h : l.Ordered) (hold : l.dispatch.isDraining = true)
    {d : DispatchPhase} (hnew : d.isDraining = true) :
    ({ l with dispatch := d } : Loops).Ordered := by
  have hclosing : ∀ {d : DispatchPhase}, d.isDraining = true →
      d.isClosing = true ∧ d ≠ .closing ∧ d ≠ .receiving := by
    intro d hd
    cases d <;> simp_all [DispatchPhase.isDraining, DispatchPhase.isClosing]
  have hclosed : l.closed = true := h.closed (hclosing hold).1
  have hend : l.pop = .ended := h.ended hclosed (hclosing hold).2.1
  have hempty : l.buffer = [] := h.emptied hold
  exact ⟨fun hd => absurd hd (hclosing hnew).2.2, fun _ => hclosed, fun _ _ => hend,
    fun _ => hempty⟩

/-- Loops in order stay so when the popping loop, which has not ended, goes anywhere. -/
theorem Ordered.setPop {l : Loops} (h : l.Ordered) (hp : l.pop ≠ .ended) (p : PopPhase) :
    ({ l with pop := p } : Loops).Ordered :=
  ⟨h.receiving, h.closed, fun hc hd => absurd (h.ended hc hd) hp, h.emptied⟩

/-- Loops in order stay so when the popping loop ends. -/
theorem Ordered.endPop {l : Loops} (h : l.Ordered) :
    ({ l with pop := .ended } : Loops).Ordered :=
  ⟨h.receiving, h.closed, fun _ _ => rfl, h.emptied⟩

end Loops

namespace Core

variable {c c' : Core β η} {n : Nat} {l l' l'' : Loops} {r : TaskRef}

/-- A `LoopStep` keeps the loops `Ordered`. -/
theorem LoopStep.ordered {b : Bool} (h : c.LoopStep b n l l') (ho : l.Ordered) : l'.Ordered := by
  cases h with
  | ask hp => exact ho.setPop (by simp [hp]) _
  | quit hp => exact ho.endPop
  | wake hp => exact ho.setPop (by simp [hp]) _
  | rejected hp => exact ho.setPop (by simp [hp]) _
  | skipped hp => exact ho.endPop
  | send hp hopen =>
    have hopen' : ¬ l.closed = true := by simp [hopen]
    have hdraining : ¬ l.dispatch.isDraining = true := by
      intro hd
      apply hopen'
      apply ho.closed
      revert hd
      cases l.dispatch <;> simp [DispatchPhase.isDraining, DispatchPhase.isClosing]
    exact ⟨ho.receiving, ho.closed, fun hc => absurd hc hopen', fun hd => absurd hd hdraining⟩
  | close hd =>
    exact ⟨by simp, fun _ => rfl, fun _ h => absurd rfl h, by simp [DispatchPhase.isDraining]⟩
  | passedOver hd => exact ho.next (by simp [hd, DispatchPhase.isClosing])
  | empty hd hp =>
    have hclosed : l.closed = true := ho.closed (by simp [hd, DispatchPhase.isClosing])
    exact ⟨by simp, fun _ => hclosed, fun _ _ => hp, by simp [DispatchPhase.isDraining]⟩
  | drain hd hb =>
    have hclosed : l.closed = true := ho.closed (by simp [hd, DispatchPhase.isClosing])
    have hend : l.pop = .ended := ho.ended hclosed (by simp [hd])
    exact ⟨by simp, fun _ => hclosed, fun _ _ => hend, fun _ => hb⟩
  | await hd => exact ho.wait (by simp [hd, DispatchPhase.isDraining]) rfl
  | again hd => exact ho.wait (by simp [hd, DispatchPhase.isDraining]) rfl

/-- Taking a task for dispatch keeps the loops `Ordered`. -/
theorem Takes.ordered (h : Takes l r l') (ho : l.Ordered) : l'.Ordered := by
  cases h with
  | refused hp => exact ho.setPop (by simp [hp]) _
  | received hb hd =>
    have hend : l.closed = true → l.pop = .ended := by
      intro hclosed
      apply ho.ended hclosed
      rcases hd with hd | hd <;> simp [hd]
    exact ⟨by simp, by simp [DispatchPhase.isClosing], fun hclosed _ => hend hclosed,
      by simp [DispatchPhase.isDraining]⟩

/-- Handing a task over keeps the loops `Ordered`, whether it is accepted or refused. -/
theorem HandOver.ordered (h : HandOver l r l' l'') (ho : l.Ordered) : l'.Ordered ∧ l''.Ordered := by
  cases h with
  | pop hp => exact ⟨ho.endPop, ho.setPop (by simp [hp]) _⟩
  | dispatch hd =>
    have hclosing : l.dispatch.isClosing = false := by simp [hd, DispatchPhase.isClosing]
    have hend : l.closed = true → l.pop = .ended := by
      intro hclosed
      apply ho.ended hclosed
      simp [hd]
    exact ⟨ho.next hclosing, by simp, by simp [DispatchPhase.isClosing],
      fun hclosed _ => hend hclosed, by simp [DispatchPhase.isDraining]⟩

/-! #### What holds of the loops of all runs -/

section Looping

variable {P : Loops → Prop} (h : ∀ run ∈ c.runs, ∀ l, run.phase = .looping l → P l)

include h

/-- What holds of the loops of all runs holds of the `loops?` of one. -/
theorem looping_of_loops? {i : Nat} (hl : c.loops? i = some l) : P l := by
  unfold Core.loops? at hl
  split at hl
  next l' b hrun =>
    obtain rfl : l' = l := Option.some.inj hl
    exact h _ (List.mem_of_getElem? hrun) _ rfl
  next => exact absurd hl (by simp)

/-- What holds of the loops of all runs does so after `setLoops`, if it holds of the new ones. -/
theorem looping_setLoops (i : Nat) (hl : P l) :
    ∀ run ∈ (c.setLoops i l).runs, ∀ l', run.phase = .looping l' → P l' := by
  apply forall_mem_modify h
  intro run _ _ l' hl'
  obtain rfl : l = l' := by simpa using hl'
  exact hl

/-- What holds of the loops of all runs does so after `setRunPhase` with a phase without loops. -/
theorem looping_setRunPhase (i : Nat) {p : RunPhase} (hp : ∀ l, p ≠ .looping l) :
    ∀ run ∈ (c.setRunPhase i p).runs, ∀ l, run.phase = .looping l → P l := by
  apply forall_mem_modify h
  intro run _ _ l hl
  exact absurd hl (hp l)

/-- What holds of the loops of all runs does so with one more run without loops. -/
theorem looping_append {p : RunPhase} (hp : ∀ l, p ≠ .looping l) :
    ∀ run ∈ c.runs ++ [{ phase := p }], ∀ l, run.phase = .looping l → P l := by
  intro run hrun
  rcases List.mem_append.1 hrun with hrun | hrun
  · exact h run hrun
  · obtain rfl := List.mem_singleton.1 hrun
    intro l hl
    exact absurd hl (hp l)

end Looping

/-- Every step of the core keeps the loops of all runs `Ordered`. -/
theorem Step.ordered [TaskQueue β] (h : Step n c c') (ho : ∀ run ∈ c.runs, run.Ordered) :
    ∀ run ∈ c'.runs, run.Ordered := by
  cases h with
  | idle => exact ho
  | push e priority => exact ho
  | cancelQueued id wall => exact ho
  | refuse e => exact looping_append ho (by simp)
  | begin h => exact looping_append ho (by simp)
  | fail h e => exact looping_setRunPhase ho _ (by simp)
  | loop h => exact looping_setLoops ho _ Loops.ordered_default
  | breakOff h => exact looping_setRunPhase ho _ (by simp)
  | shutDown i => exact forall_mem_modify ho fun run _ hrun l hl => hrun l hl
  | loops h hl =>
    exact looping_setLoops ho _ (hl.ordered (ho _ (List.mem_of_getElem? h) _ rfl))
  | popped h hp => exact looping_setLoops ho _ ((looping_of_loops? ho h).setPop (by simp [hp]) _)
  | unpopped h hp => exact looping_setLoops ho _ ((looping_of_loops? ho h).setPop (by simp [hp]) _)
  | enroll h hp => exact looping_setLoops ho _ ((looping_of_loops? ho h).setPop (by simp [hp]) _)
  | reject h hp => exact looping_setLoops ho _ ((looping_of_loops? ho h).setPop (by simp [hp]) _)
  | take h hl => exact looping_setLoops ho _ (hl.ordered (looping_of_loops? ho h))
  | spawn h hl => exact looping_setLoops ho _ (hl.ordered (looping_of_loops? ho h)).1
  | skip h hl => exact looping_setLoops ho _ (hl.ordered (looping_of_loops? ho h)).2
  | finish h => exact looping_setRunPhase ho _ (by simp)
  | work ht h => exact ho
  | report ht hp => exact ho
  | cancel ht hs released => exact ho
  | release ht hp => exact ho

end Core

end TaskScheduler
