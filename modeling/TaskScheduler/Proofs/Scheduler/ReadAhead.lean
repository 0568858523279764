import Mathlib.Data.List.Induction
import Mathlib.Data.List.Perm.Subperm
import TaskScheduler.Proofs.Scheduler.Drain
import TaskScheduler.Proofs.Scheduler.Settings

/-!
# How far the popping loop reads ahead

A task that was popped and registered and not yet dispatched lies in the buffer, or one of the two
loops has it in hand: the popping loop waits for room, or a loop has taken the task and is about to
dispatch it, or has found it canceled and waits for its report.  `Loops.readAhead` lists these
tasks.  The buffer never holds more than `SchedulerConfig.waitBuffer` (`Core.Step.hasRoom`), and at
most one run is at work, so there are at most two more of them than the buffer can hold
(`Core.readAhead_le`), whatever becomes of the tasks in the meantime.  At most one more than the
buffer can hold has not been taken (`Core.unreceived_le`).

A run that was asked to stop asks the queue for no further task (`Core.Step.quiet`).  The call that
is on its way at that moment is the last one.
-/

namespace TaskScheduler

variable {β η : Type}

/-! ### The buffer -/

/-- The buffer of a run holds a limited number of tasks. -/
def Run.HasRoom (capacity : Nat) (run : Run) : Prop :=
  ∀ l, run.phase = .looping l → l.buffer.length ≤ capacity

namespace Core

variable {c c' : Core β η} {capacity : Nat}

/-- A `LoopStep` puts a task into the buffer only if there is room. -/
theorem LoopStep.length_buffer_le {b : Bool} {l l' : Loops} (h : c.LoopStep b capacity l l')
    (hl : l.buffer.length ≤ capacity) : l'.buffer.length ≤ capacity := by
  cases h with
  | send hp ho hroom =>
    rw [List.length_append, List.length_singleton]
    exact hroom
  | _ => exact hl

/-- A task that a loop `Takes` leaves the buffer or was not in it. -/
theorem Takes.length_buffer_le {l l' : Loops} {r : TaskRef} (h : Takes l r l') :
    l'.buffer.length ≤ l.buffer.length := by
  cases h with
  | refused hp hc => exact Nat.le_refl _
  | received hb hd =>
    rw [hb]
    exact Nat.le_succ _

/-- A `HandOver` leaves the buffer alone. -/
theorem HandOver.buffer_eq {l l' l'' : Loops} {r : TaskRef} (h : HandOver l r l' l'') :
    l'.buffer = l.buffer ∧ l''.buffer = l.buffer := by
  cases h <;> exact ⟨rfl, rfl⟩

/-- Every step of the core keeps to the capacity of the buffers. -/
theorem Step.hasRoom [TaskQueue β] (h : Step capacity c c')
    (hc : ∀ run ∈ c.runs, run.HasRoom capacity) : ∀ run ∈ c'.runs, run.HasRoom capacity := by
  have hl {i : Nat} {l : Loops} (h : c.loops? i = some l) : l.buffer.length ≤ capacity :=
    looping_of_loops? hc h
  have hsame {i : Nat} {l l' : Loops} (h : c.loops? i = some l) (hb : l'.buffer = l.buffer) :
      ∀ run ∈ (c.setLoops i l').runs, run.HasRoom capacity := looping_setLoops hc i (hb ▸ hl h)
  cases h with
  | idle => exact hc
  | push e priority => exact hc
  | cancelQueued id wall => exact hc
  | refuse e => exact looping_append hc (by simp)
  | begin h => exact looping_append hc (by simp)
  | fail h e => exact looping_setRunPhase hc _ (by simp)
  | loop h => exact looping_setLoops hc _ (Nat.zero_le _)
  | breakOff h => exact looping_setRunPhase hc _ (by simp)
  | shutDown i => exact forall_mem_modify hc fun run _ hrun l hl => hrun l hl
  | loops h hstep =>
    exact looping_setLoops hc _ (hstep.length_buffer_le (hc _ (List.mem_of_getElem? h) _ rfl))
  | popped h => exact hsame h rfl
  | unpopped h => exact hsame h rfl
  | enroll h => exact hsame h rfl
  | reject h => exact hsame h rfl
  | take h htakes => exact looping_setLoops hc _ (Nat.le_trans htakes.length_buffer_le (hl h))
  | spawn h hgiven => exact hsame h hgiven.buffer_eq.1
  | skip h hgiven => exact hsame h hgiven.buffer_eq.2
  | finish h => exact looping_setRunPhase hc _ (by simp)
  | work ht h => exact hc
  | report ht hp => exact hc
  | cancel ht hs released => exact hc
  | release ht hp => exact hc

end Core

/-! ### Tasks that wait for dispatch -/

/-- The task is registered, and no loop has taken it for dispatch. -/
def Task.isWaiting (t : Task η) : Bool :=
  match t.phase with
  | .waiting => true
  | _ => false

/-- The task is registered, and neither loop has called `Scheduler.dispatchTask` for it, though one
of them may have taken it. -/
def Task.isUndispatched (t : Task η) : Bool :=
  match t.phase with
  | .waiting => true
  | .dispatched => true
  | _ => false

/-- A loop of the run has found the task canceled when it dispatched it, and waits for its
report. -/
def Run.isSkipping (r : TaskRef) (run : Run) : Bool :=
  match run.phase with
  | .looping l => l.pop = .skipping r || l.dispatch = .skipping r
  | _ => false

namespace Core

/-- The number of tasks that were popped and registered and not taken for dispatch. -/
def unreceived (c : Core β η) : Nat := c.tasks.countP Task.isWaiting

/-- The number of tasks that were popped and registered and not dispatched. -/
def undispatched (c : Core β η) : Nat := c.tasks.countP Task.isUndispatched

/-- The task was popped and registered, and its dispatch has not begun or is not over. -/
def isReadAhead (c : Core β η) (r : TaskRef) : Bool :=
  c.tasks[r]?.any Task.isUndispatched || c.runs.any (Run.isSkipping r)

/-- The number of tasks that were popped and registered and whose dispatch has not begun or is not
over. -/
def readAhead (c : Core β η) : Nat := ((List.range c.tasks.length).filter c.isReadAhead).length

end Core

/-- The task between registration and the end of its dispatch that the popping loop has in hand. -/
def PopPhase.inHand? : PopPhase → Option TaskRef
  | .sending r => some r
  | .passing r => some r
  | .skipping r => some r
  | _ => none

/-- The task between registration and the end of its dispatch that the dispatching loop has in
hand. -/
def DispatchPhase.inHand? : DispatchPhase → Option TaskRef
  | .passing r => some r
  | .skipping r => some r
  | _ => none

namespace Loops

/-- The tasks between registration and dispatch that neither loop has taken, as the loops hold
them. -/
def unreceived (l : Loops) : List TaskRef :=
  match l.pop with
  | .sending r => r :: l.buffer
  | _ => l.buffer

/-- The tasks between registration and the end of their dispatch, as the loops hold them. -/
def readAhead (l : Loops) : List TaskRef :=
  l.pop.inHand?.toList ++ (l.dispatch.inHand?.toList ++ l.buffer)

variable {l : Loops} {r : TaskRef}

/-- A task that is held as a waiting one is in the buffer or on its way into it. -/
theorem mem_unreceived (h : (Place.waiting, r) ∈ l.placed) : r ∈ l.unreceived := by
  have hdispatch : (Place.waiting, r) ∉ l.dispatch.placed := by
    cases l.dispatch <;> simp [DispatchPhase.placed]
  rcases List.mem_append.1 h with hpop | hrest
  · cases hp : l.pop with
    | sending r' =>
      rw [hp] at hpop
      obtain ⟨-, rfl⟩ := Prod.mk.inj (List.mem_singleton.1 hpop)
      rw [unreceived, hp]
      exact List.mem_cons_self
    | _ => simp [hp, PopPhase.placed] at hpop
  · have hbuffer : r ∈ l.buffer := by
      simpa using (List.mem_append.1 hrest).resolve_left hdispatch
    unfold unreceived
    split
    next => exact List.mem_cons_of_mem _ hbuffer
    next => exact hbuffer

/-- A task that is held, and not as one just popped, is among those between registration and the end
of dispatch. -/
theorem mem_readAhead {p : Place} (h : (p, r) ∈ l.placed) (hp : p ≠ .popped) :
    r ∈ l.readAhead := by
  rcases List.mem_append.1 h with hpop | hrest
  · refine List.mem_append_left _ ?_
    cases hphase : l.pop <;> simp_all [PopPhase.placed, PopPhase.inHand?]
  · refine List.mem_append_right _ ?_
    rcases List.mem_append.1 hrest with hdispatch | hbuffer
    · refine List.mem_append_left _ ?_
      cases hphase : l.dispatch <;> simp_all [DispatchPhase.placed, DispatchPhase.inHand?]
    · obtain ⟨r', hr', heq⟩ := List.mem_map.1 hbuffer
      obtain ⟨-, rfl⟩ := Prod.mk.inj heq
      exact List.mem_append_right _ hr'

/-- A canceled task whose report a loop waits for, in the phase `skipping`, is in the hands of that
loop. -/
theorem mem_readAhead_of_skipping (h : l.pop = .skipping r ∨ l.dispatch = .skipping r) :
    r ∈ l.readAhead := by
  rcases h with h | h <;> simp [readAhead, h, PopPhase.inHand?, DispatchPhase.inHand?]

/-- In the list `unreceived` there is, besides the buffer, at most the task that the popping loop
has in hand. -/
theorem length_unreceived_le (l : Loops) : l.unreceived.length ≤ l.buffer.length + 1 := by
  unfold unreceived
  split
  next => exact Nat.le_refl _
  next => exact Nat.le_succ _

/-- In the list `readAhead` there is, besides the buffer, at most one task in the hands of either
loop. -/
theorem length_readAhead_le (l : Loops) : l.readAhead.length ≤ l.buffer.length + 2 := by
  have hoption (o : Option TaskRef) : o.toList.length ≤ 1 := by cases o <;> simp
  have hpop : l.pop.inHand?.toList.length ≤ 1 := hoption _
  have hdispatch : l.dispatch.inHand?.toList.length ≤ 1 := hoption _
  rw [readAhead, List.length_append, List.length_append]
  omega

end Loops

/-- `List.countP` counts the elements that pass a test by their places. -/
theorem countP_eq_length_filter_range {α : Type} (p : α → Bool) (l : List α) :
    l.countP p = ((List.range l.length).filter fun r => l[r]?.any p).length := by
  induction l using List.reverseRecOn with
  | nil => rfl
  | append_singleton l a ih =>
    have hold : (List.range l.length).filter (fun r => (l ++ [a])[r]?.any p) =
        (List.range l.length).filter fun r => l[r]?.any p :=
      List.filter_congr fun r hr => by rw [List.getElem?_append_left (List.mem_range.1 hr)]
    rw [List.countP_append, ih, List.length_append, List.length_singleton, List.range_succ,
      List.filter_append, List.length_append, hold]
    congr 1
    cases hp : p a <;> simp [hp]

namespace Core

variable {c : Core β η} {capacity : Nat}

/-- Tasks that are each in the hands of the loops of some run are no more than what the loops of one
run hold, because only one run is at work. -/
theorem length_filter_le_of_held {P : TaskRef → Bool} {held : Loops → List TaskRef} {n : Nat}
    (hexclusive : Exclusive c.runs c.active)
    (hheld : ∀ r, P r = true → ∃ (i : Nat) (l : Loops) (b : Bool),
      c.runs[i]? = some ⟨.looping l, b⟩ ∧ r ∈ held l)
    (hlength : ∀ run ∈ c.runs, ∀ l, run.phase = .looping l → (held l).length ≤ n) :
    ((List.range c.tasks.length).filter P).length ≤ n := by
  have hnodup : ((List.range c.tasks.length).filter P).Nodup := List.nodup_range.filter _
  rcases List.eq_nil_or_concat ((List.range c.tasks.length).filter P) with
    hnone | ⟨others, r₀, hsome⟩
  · rw [hnone]
    exact Nat.zero_le _
  · have hr₀ : r₀ ∈ (List.range c.tasks.length).filter P := by simp [hsome]
    obtain ⟨i, l, b, hi, -⟩ := hheld r₀ (List.mem_filter.1 hr₀).2
    have hsub : (List.range c.tasks.length).filter P ⊆ held l := by
      intro r hr
      obtain ⟨j, l', b', hj, hmem⟩ := hheld r (List.mem_filter.1 hr).2
      obtain rfl : i = j :=
        hexclusive.unique i j (by simp [hi, Run.isLive]) (by simp [hj, Run.isLive])
      obtain ⟨rfl, -⟩ : l = l' ∧ b = b' := by simpa [hi] using hj
      exact hmem
    exact Nat.le_trans (hnodup.subperm hsub).length_le
      (hlength _ (List.mem_of_getElem? hi) l rfl)

/-- Where the tasks are `Tracked`, a task that has to be held in some capacity is held by the loops
of a run. -/
theorem exists_placed (htracked : Tracked c.tasks c.runs) {r : TaskRef} {p : Place}
    (hplace : placeOf c.tasks r = some p) : ∃ (i : Nat) (l : Loops) (b : Bool),
      c.runs[i]? = some ⟨.looping l, b⟩ ∧ (p, r) ∈ l.placed := by
  have hcount := htracked (p, r)
  rw [if_pos hplace] at hcount
  obtain ⟨run, hrun, hmem⟩ := List.mem_flatMap.1 (List.count_pos_iff.1 (hcount ▸ Nat.one_pos))
  obtain ⟨i, hi⟩ := List.getElem?_of_mem hrun
  obtain ⟨phase, b⟩ := run
  cases phase with
  | looping l => exact ⟨i, l, b, hi, hmem⟩
  | _ => exact absurd hmem List.not_mem_nil

/-- In a `Tidy` core with `Exclusive` runs the `unreceived` tasks, which no loop has taken for
dispatch, are at most one more than the buffer can hold. -/
theorem unreceived_le (hc : c.Tidy) (hexclusive : Exclusive c.runs c.active)
    (hroom : ∀ run ∈ c.runs, run.HasRoom capacity) : c.unreceived ≤ capacity + 1 := by
  rw [unreceived, countP_eq_length_filter_range]
  refine length_filter_le_of_held hexclusive (fun r hr => ?_) fun run hrun l hl =>
    Nat.le_trans l.length_unreceived_le (Nat.add_le_add_right (hroom run hrun l hl) 1)
  obtain ⟨t, ht, hwaiting⟩ := (Option.any_eq_true _ _).1 hr
  have hplace : placeOf c.tasks r = some .waiting := by
    unfold Task.isWaiting at hwaiting
    split at hwaiting
    next hphase => simp [placeOf, ht, hphase, Phase.place?]
    next => exact absurd hwaiting (by simp)
  obtain ⟨i, l, b, hi, hmem⟩ := exists_placed hc.tracked hplace
  exact ⟨i, l, b, hi, Loops.mem_unreceived hmem⟩

/-- In a `Tidy` core with `Exclusive` runs the tasks that are `readAhead`, whose dispatch is not
over, are at most two more than the buffer can hold. -/
theorem readAhead_le (hc : c.Tidy) (hexclusive : Exclusive c.runs c.active)
    (hroom : ∀ run ∈ c.runs, run.HasRoom capacity) : c.readAhead ≤ capacity + 2 := by
  refine length_filter_le_of_held hexclusive (fun r hr => ?_) fun run hrun l hl =>
    Nat.le_trans l.length_readAhead_le (Nat.add_le_add_right (hroom run hrun l hl) 2)
  rcases (Bool.or_eq_true _ _).mp hr with hundispatched | hskipping
  · obtain ⟨t, ht, hphase⟩ := (Option.any_eq_true _ _).1 hundispatched
    have hplace : ∃ p, placeOf c.tasks r = some p ∧ p ≠ .popped := by
      unfold Task.isUndispatched at hphase
      split at hphase
      next hp => exact ⟨.waiting, by simp [placeOf, ht, hp, Phase.place?], by simp⟩
      next hp => exact ⟨.dispatched, by simp [placeOf, ht, hp, Phase.place?], by simp⟩
      next => exact absurd hphase (by simp)
    obtain ⟨p, hp, hne⟩ := hplace
    obtain ⟨i, l, b, hi, hmem⟩ := exists_placed hc.tracked hp
    exact ⟨i, l, b, hi, Loops.mem_readAhead hmem hne⟩
  · obtain ⟨run, hrun, hskips⟩ := List.any_eq_true.1 hskipping
    obtain ⟨i, hi⟩ := List.getElem?_of_mem hrun
    obtain ⟨phase, b⟩ := run
    cases phase with
    | looping l =>
      exact ⟨i, l, b, hi, Loops.mem_readAhead_of_skipping (by simpa [Run.isSkipping] using hskips)⟩
    | _ => simp [Run.isSkipping] at hskips

/-- Tasks that were not dispatched count among those that are `readAhead`. -/
theorem undispatched_le_readAhead (c : Core β η) : c.undispatched ≤ c.readAhead := by
  rw [undispatched, countP_eq_length_filter_range]
  exact (List.monotone_filter_right _ fun r hr =>
    (Bool.or_eq_true _ _).mpr (.inl hr)).length_le

end Core

/-! ### After the request to stop -/

/-- The popping loop waits for the queue to hand out a task. -/
def Run.isAsking (run : Run) : Bool :=
  match run.phase with
  | .looping l => l.pop = .asking
  | _ => false

/-- The run was asked to stop, and no call for a task is on its way. -/
structure Run.IsQuiet (run : Run) : Prop where
  /-- It was asked to stop. -/
  shutdown : run.shutdown = true
  /-- No call is on its way. -/
  asking : run.isAsking = false

/-- An element of a list that has a property stays as it is under `List.modify`, or is changed into
one that has the property too. -/
theorem exists_getElem?_modify {α : Type} {P : α → Prop} {l : List α} {i j : Nat} {a : α}
    {f : α → α} (ha : l[i]? = some a) (hP : P a) (hf : j = i → P (f a)) :
    ∃ a', (l.modify j f)[i]? = some a' ∧ P a' := by
  rw [List.getElem?_modify, ha]
  by_cases hij : j = i
  · exact ⟨f a, by simp [hij], hf hij⟩
  · exact ⟨a, by simp [hij], hP⟩

namespace Core

variable {c c' : Core β η} {capacity i : Nat} {run : Run}

/-- A run that was asked to stop stays so under every step. -/
theorem Step.shutdown [TaskQueue β] (h : Step capacity c c') (hrun : c.runs[i]? = some run)
    (hs : run.shutdown = true) : ∃ run', c'.runs[i]? = some run' ∧ run'.shutdown = true := by
  have hsame : ∃ run', c.runs[i]? = some run' ∧ run'.shutdown = true := ⟨run, hrun, hs⟩
  have hadd (new : Run) : ∃ run', (c.runs ++ [new])[i]? = some run' ∧ run'.shutdown = true :=
    ⟨run, by rw [List.getElem?_append_left (List.getElem?_eq_some_iff.1 hrun).1, hrun], hs⟩
  have hphase {j : Nat} {p : RunPhase} :
      ∃ run', (c.setRunPhase j p).runs[i]? = some run' ∧ run'.shutdown = true :=
    exists_getElem?_modify hrun hs fun _ => hs
  cases h with
  | refuse e => exact hadd _
  | begin h => exact hadd _
  | shutDown j => exact exists_getElem?_modify hrun hs fun _ => rfl
  | fail | loop | breakOff | loops | popped | unpopped | enroll | reject | take | spawn | skip
    | finish => exact hphase
  | idle | push | cancelQueued | work | report | cancel | release => exact hsame

/-- A popping loop of a run that was asked to stop does not come to the phase `asking`. -/
theorem LoopStep.pop_ne_asking {l l' : Loops} (h : c.LoopStep true capacity l l')
    (hl : l.pop ≠ .asking) : l'.pop ≠ .asking := by
  cases h with
  | ask hp hs => exact absurd hs (by simp)
  | quit | wake | rejected | send | skipped => simp
  | _ => exact hl

/-- Every step of the core leaves a run quiet that is so by `Run.IsQuiet`. -/
theorem Step.quiet [TaskQueue β] (h : Step capacity c c') (hrun : c.runs[i]? = some run)
    (hq : run.IsQuiet) : ∃ run', c'.runs[i]? = some run' ∧ run'.IsQuiet := by
  have hsame : ∃ run', c.runs[i]? = some run' ∧ run'.IsQuiet := ⟨run, hrun, hq⟩
  have hadd (new : Run) : ∃ run', (c.runs ++ [new])[i]? = some run' ∧ run'.IsQuiet :=
    ⟨run, by rw [List.getElem?_append_left (List.getElem?_eq_some_iff.1 hrun).1, hrun], hq⟩
  have hphase {j : Nat} {p : RunPhase} (hp : ∀ l, p ≠ .looping l) :
      ∃ run', (c.setRunPhase j p).runs[i]? = some run' ∧ run'.IsQuiet := by
    refine exists_getElem?_modify hrun hq fun _ => ⟨hq.shutdown, ?_⟩
    cases p with
    | looping l => exact absurd rfl (hp l)
    | _ => rfl
  -- the loops of the run itself may change as long as they do not come to ask
  have hloops {j : Nat} {l l' : Loops} {b : Bool} (hj : c.runs[j]? = some ⟨.looping l, b⟩)
      (hl : b = true → l.pop ≠ .asking → l'.pop ≠ .asking) :
      ∃ run', (c.setLoops j l').runs[i]? = some run' ∧ run'.IsQuiet := by
    refine exists_getElem?_modify hrun hq fun hij => ⟨hq.shutdown, ?_⟩
    subst hij
    obtain rfl := Option.some.inj (hj.symm.trans hrun)
    exact decide_eq_false (hl hq.shutdown (of_decide_eq_false hq.asking))
  cases h with
  | idle => exact hsame
  | push e priority => exact hsame
  | cancelQueued id wall => exact hsame
  | refuse e => exact hadd _
  | begin h => exact hadd _
  | fail h e => exact hphase (by simp)
  | loop h =>
    refine exists_getElem?_modify hrun hq fun _ => ⟨hq.shutdown, ?_⟩
    rfl
  | breakOff h => exact hphase (by simp)
  | shutDown j => exact exists_getElem?_modify hrun hq fun _ => ⟨rfl, hq.asking⟩
  | loops h hl => exact hloops h fun hb => by subst hb; exact hl.pop_ne_asking
  | popped h hp => exact hloops (runs_of_loops? h).choose_spec fun _ hne => absurd hp hne
  | unpopped h hp => exact hloops (runs_of_loops? h).choose_spec fun _ hne => absurd hp hne
  | enroll h => exact hloops (runs_of_loops? h).choose_spec fun _ _ => by simp
  | reject h => exact hloops (runs_of_loops? h).choose_spec fun _ _ => by simp
  | take h hl =>
    refine hloops (runs_of_loops? h).choose_spec fun _ hne => ?_
    cases hl with
    | refused => simp
    | received => exact hne
  | spawn h hl =>
    refine hloops (runs_of_loops? h).choose_spec fun _ hne => ?_
    cases hl with
    | pop => simp
    | dispatch => exact hne
  | skip h hl =>
    refine hloops (runs_of_loops? h).choose_spec fun _ hne => ?_
    cases hl with
    | pop => simp
    | dispatch => exact hne
  | finish h => exact hphase (by simp)
  | work ht h => exact hsame
  | report ht hp => exact hsame
  | cancel ht hs released => exact hsame
  | release ht hp => exact hsame

end Core

namespace Scheduler

variable [TaskQueue β]

/-- A call for a task by a run is on its way. -/
def isAsking (s : Scheduler β η) (i : Nat) : Bool := s.runs[i]?.any Run.isAsking

/-- After every history the buffers of all runs keep to `waitBuffer` of the settings. -/
theorem hasRoom_afterMoves (s : Scheduler β η)
    (hs : ∀ run ∈ s.core.runs, run.HasRoom s.config.waitBuffer) (moves : List (Move η)) :
    ∀ run ∈ (s.afterMoves moves).core.runs, run.HasRoom s.config.waitBuffer := by
  induction moves generalizing s with
  | nil => exact hs
  | cons m moves ih =>
    have hstep := (s.core_move m).hasRoom hs
    rw [← s.config_move m] at hstep ⊢
    exact ih (s.move m) hstep

/-- What one run is once, and stays in every step, it is after every history. -/
theorem exists_run_afterMoves {P : Run → Prop} {i : Nat}
    (hstep : ∀ {n : Nat} {c c' : Core β η} {run : Run}, Core.Step n c c' →
      c.runs[i]? = some run → P run → ∃ run', c'.runs[i]? = some run' ∧ P run')
    (s : Scheduler β η) {run : Run} (hrun : s.runs[i]? = some run) (hP : P run)
    (moves : List (Move η)) : ∃ run', (s.afterMoves moves).runs[i]? = some run' ∧ P run' :=
  afterMoves_induction (P := fun c => ∃ run, c.runs[i]? = some run ∧ P run)
    (fun h ⟨_, hrun, hP⟩ => hstep h hrun hP) s ⟨run, hrun, hP⟩ moves

/-- The tasks that were popped and registered and whose dispatch has not begun or is not over are at
most two more than the buffer can hold, and those among them that no loop has taken are at most one
more.  Once a run was asked to stop, it makes no call for a task after the one that may be on its
way. -/
theorem readAhead_bounded (config : SchedulerConfig) (queue : β) (metrics : Option Metrics)
    (moves : List (Move η)) :
    let s := (new config queue metrics).afterMoves moves
    s.core.unreceived ≤ config.waitBuffer + 1 ∧
    s.core.undispatched ≤ s.core.readAhead ∧ s.core.readAhead ≤ config.waitBuffer + 2 ∧
    ∀ i, s.isShutdown i = true → ∀ before more, (s.afterMoves before).isAsking i = false →
      (s.afterMoves (before ++ more)).isAsking i = false := by
  intro s
  have htidy : s.core.Tidy := tidy_afterMoves config queue metrics moves
  have hexclusive : Exclusive s.core.runs s.core.active :=
    afterMoves_induction (P := fun c => Exclusive c.runs c.active) Core.Step.exclusive _
      ⟨by simp [core, new], by simp [core, new]⟩ moves
  have hroom : ∀ run ∈ s.core.runs, run.HasRoom config.waitBuffer :=
    hasRoom_afterMoves (new config queue metrics) (by simp [core, new]) moves
  refine ⟨Core.unreceived_le htidy hexclusive hroom, s.core.undispatched_le_readAhead,
    Core.readAhead_le htidy hexclusive hroom, fun i hshutdown before more hasking => ?_⟩
  cases hrun : s.runs[i]? with
  | none => simp [isShutdown, hrun] at hshutdown
  | some run =>
    have hs : run.shutdown = true := by simpa [isShutdown, hrun] using hshutdown
    obtain ⟨run', hrun', hs'⟩ := exists_run_afterMoves (P := fun run => run.shutdown = true)
      Core.Step.shutdown s hrun hs before
    have hquiet : run'.IsQuiet := ⟨hs', by simpa [isAsking, hrun'] using hasking⟩
    obtain ⟨run'', hrun'', hquiet'⟩ :=
      exists_run_afterMoves Core.Step.quiet (s.afterMoves before) hrun' hquiet more
    rw [afterMoves_append, isAsking, hrun'']
    exact hquiet'.asking

/-- Settings with room for one task in the buffer. -/
def oneSlot : SchedulerConfig := { SchedulerConfig.default with waitBuffer := 1 }

/-- A queue that holds three tasks. -/
def threeTasks : MemoryQueue :=
  ((oneTask.push ⟨"job", .null, none⟩ 0).2.push ⟨"job", .null, none⟩ 0).2

/-- The popping loop asks for a task, is given one and registers it. -/
def popsOne : List (Event Unit) := [.stepPop 0, .pop 0 .epoch, .stepPop 0]

/-- A task is popped into the buffer of `oneSlot`, and something is done with it; then another one
is popped into the buffer, and a third one while the buffer is full. -/
def fullBufferHistory (done : List (Event Unit)) : List (Event Unit) :=
  [.callRun, .ping 0] ++ popsOne ++ .stepPop 0 :: done ++ popsOne ++ .stepPop 0 :: popsOne

/-- As in `fullBufferHistory`, where the first task is canceled and the dispatching loop waits for
its report; then the run is asked to stop. -/
def canceledBufferHistory : List (Event Unit) :=
  fullBufferHistory [.cancelTask 0, .stepDispatch 0, .stepDispatch 0] ++ [.shutDown 0]

/-- Both bounds of `readAhead_bounded` are reached while the dispatching loop waits for the report
of a canceled task, and the run that is then asked to stop does not go on to another task. -/
theorem readAhead_bounded_oneSlot :
    let s : Scheduler MemoryQueue Unit :=
      (new oneSlot threeTasks none).afterMoves (canceledBufferHistory.map .event)
    s.core.unreceived = oneSlot.waitBuffer + 1 ∧ s.core.unreceived ≤ oneSlot.waitBuffer + 1 ∧
      s.core.readAhead = oneSlot.waitBuffer + 2 ∧ s.core.readAhead ≤ oneSlot.waitBuffer + 2 ∧
      s.isShutdown 0 = true ∧ (s.afterMoves []).isAsking 0 = false ∧
      ∀ more, (s.afterMoves more).isAsking 0 = false := by
  intro s
  have hunreceived : s.core.unreceived = oneSlot.waitBuffer + 1 := by decide
  have hreadAhead : s.core.readAhead = oneSlot.waitBuffer + 2 := by decide
  have hshutdown : s.isShutdown 0 = true := by decide
  have hasking : (s.afterMoves []).isAsking 0 = false := by decide
  obtain ⟨hone, -, htwo, hquiet⟩ := readAhead_bounded oneSlot threeTasks none
    (canceledBufferHistory.map .event)
  exact ⟨hunreceived, hone, hreadAhead, htwo, hshutdown, hasking,
    fun more => hquiet 0 hshutdown [] more hasking⟩

/-- After `fullBufferHistory` in which the dispatching loop has received the first task and not
dispatched it, the buffer is full again, and the popping loop holds a third task: more tasks are
undispatched than the buffer and the popping loop can hold. -/
theorem exists_waitBuffer_lt_undispatched :
    ∃ (config : SchedulerConfig) (queue : MemoryQueue) (moves : List (Move Unit)),
      config.validate = .ok () ∧
      config.waitBuffer + 1 < ((new config queue none).afterMoves moves).core.undispatched :=
  ⟨oneSlot, threeTasks, (fullBufferHistory [.stepDispatch 0]).map .event, by decide, by decide⟩

end Scheduler

end TaskScheduler
