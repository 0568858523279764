import TaskScheduler.Proofs.Scheduler.Reports

/-!
# What a run has done when it returns

A run that was asked to stop returns when the registry is empty.  `Enrolled` says which tasks keep
it from being empty, the registered ones that were not released, and `Exclusive` that no second run
can be at work.

Together with the places of the tasks this tells what is left when a run returns: every task has
been reported, except those that were canceled while a worker had them and that the worker has not
reported yet.  A cancelation releases a task before its worker is done with it, so such tasks exist.
-/

namespace TaskScheduler

variable {β η : Type}

/-- If a test holds at some place after `List.modify`, and the change does not make it true, it held
there before. -/
theorem any_getElem?_of_modify {α : Type} {p : α → Bool} {l : List α} {i j : Nat} {f : α → α}
    (hf : ∀ a, l[i]? = some a → p (f a) → p a) (h : (l.modify i f)[j]?.any p) : l[j]?.any p := by
  rw [List.getElem?_modify] at h
  cases ha : l[j]? with
  | none => simp [ha] at h
  | some a =>
    by_cases heq : i = j
    · subst heq
      simp only [ha, if_true, Option.map_eq_map, Option.map_some, Option.any_some] at h ⊢
      exact hf a ha h
    · simpa [ha, heq] using h

/-! ### Registered tasks -/

/-- The tasks and the registry go together: a registered task that was not released is found under
its id. -/
def Enrolled (tasks : List (Task η)) (registry : FiniteMap String TaskRef) : Prop :=
  ∀ (r : TaskRef) (t : Task η), tasks[r]? = some t → t.registered = true → t.released = false →
    registry.get? t.id = some r

namespace Enrolled

variable {tasks : List (Task η)} {registry : FiniteMap String TaskRef} {r : TaskRef}

/-- A change of a task that keeps its id and its flags keeps the tasks `Enrolled`. -/
theorem modifyTask (h : Enrolled tasks registry) {f : Task η → Task η}
    (hf : ∀ t, tasks[r]? = some t → (f t).popped = t.popped ∧ (f t).registered = t.registered ∧
      (f t).released = t.released) : Enrolled (tasks.modify r f) registry := by
  intro r' t' ht' hregistered hreleased
  rw [List.getElem?_modify] at ht'
  obtain ⟨t, ht, rfl⟩ := Option.map_eq_some_iff.1 ht'
  by_cases heq : r = r'
  · subst heq
    obtain ⟨hpopped, hreg, hrel⟩ := hf t ht
    simp only [if_true] at hregistered hreleased ⊢
    have hid : (f t).id = t.id := by
      unfold Task.id
      rw [hpopped]
    rw [hid]
    exact h r t ht (hreg ▸ hregistered) (hrel ▸ hreleased)
  · simp only [heq, if_false] at hregistered hreleased ⊢
    exact h r' t ht hregistered hreleased

/-- A new task, which is not registered, keeps the tasks `Enrolled`. -/
theorem addTask (h : Enrolled tasks registry) (p : PoppedTask) (now : Instant) :
    Enrolled (tasks ++ [{ popped := p, createdAt := now }]) registry := by
  intro r t ht hregistered hreleased
  rw [List.getElem?_append] at ht
  split at ht
  next => exact h r t ht hregistered hreleased
  next =>
    rw [List.getElem?_singleton] at ht
    split at ht
    next =>
      obtain rfl := Option.some.inj ht
      exact absurd hregistered (by simp)
    next => exact absurd ht (by simp)

/-- Registering a task under an id that is free keeps the tasks `Enrolled`. -/
theorem enroll (h : Enrolled tasks registry) {t : Task η} (ht : tasks[r]? = some t)
    (hfree : registry.contains t.id = false) {f : Task η → Task η}
    (hf : (f t).popped = t.popped) :
    Enrolled (tasks.modify r f) (registry.insert t.id r) := by
  intro r' t' ht' hregistered hreleased
  rw [List.getElem?_modify] at ht'
  obtain ⟨u, hu, rfl⟩ := Option.map_eq_some_iff.1 ht'
  by_cases heq : r = r'
  · subst heq
    obtain rfl : t = u := Option.some.inj (ht.symm.trans hu)
    have hid : (f t).id = t.id := by
      unfold Task.id
      rw [hf]
    simp [hid]
  · simp only [heq, if_false] at hregistered hreleased ⊢
    have hfound := h r' u hu hregistered hreleased
    have hne : u.id ≠ t.id := by
      intro hid
      rw [hid] at hfound
      simp [FiniteMap.contains, hfound] at hfree
    rw [FiniteMap.get?_insert_of_ne _ _ hne]
    exact hfound

/-- The release of a task, which takes it out of the registry if it was there, keeps the tasks
`Enrolled`. -/
theorem release (h : Enrolled tasks registry) {t : Task η} (ht : tasks[r]? = some t)
    {f : Task η → Task η} (released : Bool) (hpopped : (f t).popped = t.popped)
    (hregistered : (f t).registered = t.registered)
    (hreleased : (f t).released = (t.released || released)) :
    Enrolled (tasks.modify r f)
      (if released && !t.released && t.registered then registry.erase t.id else registry) := by
  intro r' t' ht' hreg' hrel'
  rw [List.getElem?_modify] at ht'
  obtain ⟨u, hu, rfl⟩ := Option.map_eq_some_iff.1 ht'
  by_cases heq : r = r'
  · subst heq
    obtain rfl : t = u := Option.some.inj (ht.symm.trans hu)
    simp only [if_true] at hreg' hrel' ⊢
    rw [hreleased, Bool.or_eq_false_iff] at hrel'
    have hid : (f t).id = t.id := by
      unfold Task.id
      rw [hpopped]
    rw [hrel'.2, hid]
    exact h r t ht (hregistered ▸ hreg') hrel'.1
  · simp only [heq, if_false] at hreg' hrel' ⊢
    have hfound := h r' u hu hreg' hrel'
    split
    next herased =>
      simp only [Bool.and_eq_true, Bool.not_eq_true'] at herased
      have hhere := h r t ht herased.2 herased.1.2
      have hne : u.id ≠ t.id := by
        intro hid
        rw [hid, hhere] at hfound
        exact heq (Option.some.inj hfound)
      rw [FiniteMap.get?_erase_of_ne _ hne]
      exact hfound
    next => exact hfound

end Enrolled

/-- What `Task.Works` leaves neither the id of a task nor its flags different. -/
theorem Task.Works.flags_eq {t t' : Task η} (h : t.Works t') :
    t'.popped = t.popped ∧ t'.registered = t.registered ∧ t'.released = t.released := by
  cases h <;> exact ⟨rfl, rfl, rfl⟩

/-- Every step of the core keeps the registered tasks `Enrolled` until they are released. -/
theorem Core.Step.enrolled [TaskQueue β] {c c' : Core β η} {n : Nat} (h : Core.Step n c c')
    (he : Enrolled c.tasks c.registry) : Enrolled c'.tasks c'.registry := by
  cases h with
  | idle => exact he
  | push e priority => exact he
  | cancelQueued id wall => exact he
  | refuse e => exact he
  | begin h => exact he
  | fail h e => exact he
  | loop h => exact he
  | breakOff h => exact he
  | shutDown i => exact he
  | loops h hl => exact he
  | popped h hp ha now => exact he.addTask _ now
  | unpopped h hp => exact he
  | enroll h hp ht hn now => exact he.enroll ht hn rfl
  | reject h hp ht hn now => exact he.modifyTask fun _ _ => ⟨rfl, rfl, rfl⟩
  | take h hl => exact he.modifyTask fun _ _ => ⟨rfl, rfl, rfl⟩
  | spawn h hl => exact he.modifyTask fun _ _ => ⟨rfl, rfl, rfl⟩
  | skip h hl => exact he.modifyTask fun _ _ => ⟨rfl, rfl, rfl⟩
  | finish h => exact he
  | work ht h =>
    refine he.modifyTask fun t' ht' => ?_
    rw [ht] at ht'
    exact Option.some.inj ht' ▸ h.flags_eq
  | report ht hp => exact he.modifyTask fun _ _ => ⟨rfl, rfl, rfl⟩
  | cancel ht hs released => exact he.release ht released rfl rfl rfl
  | release ht hp => exact he.release ht true rfl rfl (Bool.or_true _).symm

/-! ### One run at a time -/

/-- A run has begun and not come to an end. -/
def Run.isLive (run : Run) : Bool :=
  match run.phase with
  | .pinging | .looping _ => true
  | _ => false

/-- No two runs are live, and none while the scheduler is not active. -/
structure Exclusive (runs : List Run) (active : Bool) : Prop where
  /-- Two live runs are one. -/
  unique : ∀ i j : Nat, runs[i]?.any Run.isLive → runs[j]?.any Run.isLive → i = j
  /-- A live run keeps the scheduler active. -/
  active : ∀ i : Nat, runs[i]?.any Run.isLive → active = true

namespace Exclusive

variable {runs : List Run} {active : Bool} {i : Nat} {run : Run}

/-- Runs among which no new one is live are `Exclusive` as before. -/
theorem of_live {runs' : List Run} (h : Exclusive runs active)
    (hlive : ∀ j : Nat, runs'[j]?.any Run.isLive → runs[j]?.any Run.isLive) :
    Exclusive runs' active where
  unique j k hj hk := h.unique j k (hlive j hj) (hlive k hk)
  active j hj := h.active j (hlive j hj)

/-- A change of a run that does not bring it to life keeps the runs `Exclusive`. -/
theorem modify (h : Exclusive runs active) {f : Run → Run}
    (hf : ∀ run, runs[i]? = some run → (f run).isLive → run.isLive) :
    Exclusive (runs.modify i f) active :=
  h.of_live fun _ hj => any_getElem?_of_modify hf hj

/-- If the live run comes to its end, the runs are `Exclusive` with a scheduler that is not
active. -/
theorem stop (h : Exclusive runs active) (hrun : runs[i]? = some run) (hlive : run.isLive)
    {f : Run → Run} (hf : (f run).isLive = false) : Exclusive (runs.modify i f) false := by
  have hnone : ∀ j : Nat, ¬ (runs.modify i f)[j]?.any Run.isLive := by
    intro j hj
    rw [List.getElem?_modify] at hj
    by_cases heq : i = j
    · subst heq
      simp [hrun, hf] at hj
    · have hother : runs[j]?.any Run.isLive := by simpa [heq] using hj
      exact heq (h.unique i j (by simpa [hrun] using hlive) hother)
  exact ⟨fun j _ hj => absurd hj (hnone j), fun j hj => absurd hj (hnone j)⟩

/-- A change of the loops of a run at work keeps the runs `Exclusive`. -/
theorem setLoops (h : Exclusive runs active) {l : Loops} {b : Bool}
    (hrun : runs[i]? = some ⟨.looping l, b⟩) (l' : Loops) :
    Exclusive (runs.modify i fun run => { run with phase := .looping l' }) active := by
  apply h.modify
  intro run hrun' _
  rw [hrun] at hrun'
  exact Option.some.inj hrun' ▸ rfl

/-- One more run that is not live keeps the runs `Exclusive`. -/
theorem addRun (h : Exclusive runs active) (hrun : run.isLive = false) :
    Exclusive (runs ++ [run]) active := by
  refine h.of_live fun j hj => ?_
  rw [List.getElem?_append] at hj
  split at hj
  next => exact hj
  next =>
    rw [List.getElem?_singleton] at hj
    split at hj <;> simp [hrun] at hj

/-- If the scheduler is not active, one more run leaves the runs `Exclusive`, and the scheduler may
become active. -/
theorem begin (h : Exclusive runs false) (run : Run) : Exclusive (runs ++ [run]) true := by
  have hlive : ∀ j : Nat, (runs ++ [run])[j]?.any Run.isLive → j = runs.length := by
    intro j hj
    rw [List.getElem?_append] at hj
    split at hj
    next => exact absurd (h.active j hj) (by simp)
    next hge =>
      rw [List.getElem?_singleton] at hj
      split at hj
      next => omega
      next => exact absurd hj (by simp)
  exact ⟨fun j k hj hk => (hlive j hj).trans (hlive k hk).symm, fun _ _ => rfl⟩

end Exclusive

/-- Every step of the core keeps the runs `Exclusive`. -/
theorem Core.Step.exclusive [TaskQueue β] {c c' : Core β η} {n : Nat} (h : Core.Step n c c')
    (he : Exclusive c.runs c.active) : Exclusive c'.runs c'.active := by
  cases h with
  | idle => exact he
  | push e priority => exact he
  | cancelQueued id wall => exact he
  | refuse e => exact he.addRun rfl
  | begin h =>
    rw [h] at he
    exact he.begin _
  | fail h e => exact he.stop h rfl rfl
  | loop h => exact he.modify fun run hrun _ => by rw [h] at hrun; exact Option.some.inj hrun ▸ rfl
  | breakOff h => exact he.modify fun run _ hlive => nomatch hlive
  | shutDown i => exact he.modify fun _ _ hlive => hlive
  | loops h hl => exact he.setLoops h _
  | popped h => exact he.setLoops (Core.runs_of_loops? h).choose_spec _
  | unpopped h => exact he.setLoops (Core.runs_of_loops? h).choose_spec _
  | enroll h => exact he.setLoops (Core.runs_of_loops? h).choose_spec _
  | reject h => exact he.setLoops (Core.runs_of_loops? h).choose_spec _
  | take h => exact he.setLoops (Core.runs_of_loops? h).choose_spec _
  | spawn h => exact he.setLoops (Core.runs_of_loops? h).choose_spec _
  | skip h => exact he.setLoops (Core.runs_of_loops? h).choose_spec _
  | finish h => exact he.stop (Core.runs_of_loops? h).choose_spec rfl rfl
  | work ht h => exact he
  | report ht hp => exact he
  | cancel ht hs released => exact he
  | release ht hp => exact he

/-! ### The moment of return -/

/-- A run has returned without an error. -/
def Run.hasReturned (run : Run) : Bool :=
  match run.phase with
  | .returned (.ok _) => true
  | _ => false

/-- A run of a core has returned without an error. -/
def Core.hasReturned (c : Core β η) (i : Nat) : Bool := c.runs[i]?.any Run.hasReturned

/-- No run returns when `setRunPhase` brings it into a phase that is not the return. -/
theorem Core.hasReturned_of_setRunPhase {c : Core β η} {i j : Nat} {p : RunPhase}
    (hp : ∀ b, (⟨p, b⟩ : Run).hasReturned = false) (h : (c.setRunPhase i p).hasReturned j) :
    c.hasReturned j := by
  refine any_getElem?_of_modify (fun run _ hnew => ?_) h
  exact absurd hnew (Bool.eq_false_iff.1 (hp run.shutdown))

/-- No run returns by `setLoops`. -/
theorem Core.hasReturned_of_setLoops {c : Core β η} {i j : Nat} {l : Loops}
    (h : (c.setLoops i l).hasReturned j) : c.hasReturned j :=
  Core.hasReturned_of_setRunPhase (fun _ => rfl) h

/-- A step with which a run returns is its last look at the registry, which is empty, and leaves the
tasks and the reports alone. -/
theorem Core.Step.returned [TaskQueue β] {c c' : Core β η} {n i : Nat} (h : Core.Step n c c')
    (hbefore : c.hasReturned i = false) (hafter : c'.hasReturned i = true) :
    (∃ l, c.loops? i = some l ∧ l.dispatch = .draining) ∧ c.registry.isEmpty = true ∧
      c'.tasks = c.tasks ∧ c'.reports = c.reports := by
  have hno : ¬ c.hasReturned i = true := Bool.eq_false_iff.1 hbefore
  have hadd : ∀ run : Run, run.hasReturned = false →
      (c.runs ++ [run])[i]?.any Run.hasReturned → c.hasReturned i := by
    intro run hrun hnew
    rw [List.getElem?_append] at hnew
    split at hnew
    next => exact hnew
    next =>
      rw [List.getElem?_singleton] at hnew
      split at hnew <;> simp [hrun] at hnew
  cases h with
  | idle => exact absurd hafter hno
  | push e priority => exact absurd hafter hno
  | cancelQueued id wall => exact absurd hafter hno
  | refuse e => exact absurd (hadd _ rfl hafter) hno
  | begin h => exact absurd (hadd _ rfl hafter) hno
  | fail h e => exact absurd (hasReturned_of_setRunPhase (c := c) (fun _ => rfl) hafter) hno
  | loop h => exact absurd (hasReturned_of_setLoops hafter) hno
  | breakOff h => exact absurd (hasReturned_of_setRunPhase (fun _ => rfl) hafter) hno
  | shutDown j =>
    have hold : c.runs[i]?.any Run.hasReturned :=
      any_getElem?_of_modify (f := fun run => { run with shutdown := true }) (fun _ _ hnew => hnew)
        hafter
    exact absurd hold hno
  | loops h hl => exact absurd (hasReturned_of_setLoops hafter) hno
  | popped h => exact absurd (hasReturned_of_setLoops hafter) hno
  | unpopped h => exact absurd (hasReturned_of_setLoops hafter) hno
  | enroll h => exact absurd (hasReturned_of_setLoops (c := c) hafter) hno
  | reject h => exact absurd (hasReturned_of_setLoops (c := c) hafter) hno
  | take h hl => exact absurd (hasReturned_of_setLoops (c := c) hafter) hno
  | spawn h hl => exact absurd (hasReturned_of_setLoops (c := c) hafter) hno
  | skip h hl => exact absurd (hasReturned_of_setLoops (c := c) hafter) hno
  | @finish j l h hd hr =>
    by_cases heq : j = i
    · subst heq
      exact ⟨⟨l, h, hd⟩, hr, rfl, rfl⟩
    · have hsame : (c.runs.modify j fun run => { run with phase := .returned (.ok ()) })[i]? =
          c.runs[i]? := by simp [heq]
      have hold : c.hasReturned i := by
        unfold hasReturned
        rw [← hsame]
        exact hafter
      exact absurd hold hno
  | work ht h => exact absurd hafter hno
  | report ht hp => exact absurd hafter hno
  | cancel ht hs released => exact absurd hafter hno
  | release ht hp => exact absurd hafter hno

/-- In a `Tidy` core, when the loops of the live run hold nothing and the registry is empty, a task
has ended or is still with its worker, and in the latter case it was canceled. -/
theorem Core.Tidy.ended_or_canceled {c : Core β η} (hc : c.Tidy)
    (he : Enrolled c.tasks c.registry) (hx : Exclusive c.runs c.active) {i : Nat} {l : Loops}
    (hl : c.loops? i = some l) (hd : l.dispatch = .draining) (hr : c.registry.isEmpty = true)
    {r : TaskRef} {t : Task η} (ht : c.tasks[r]? = some t) :
    t.phase = .ended ∨ t.status = .canceled ∧ t.inWorker = true := by
  obtain ⟨b, hrun⟩ := Core.runs_of_loops? hl
  have hordered := Core.looping_of_loops? hc.ordered hl
  have honly : ∀ run ∈ c.runs, ∀ l', run.phase = .looping l' → l' = l := by
    intro run hmem l' hl'
    obtain ⟨j, hj⟩ := List.mem_iff_getElem?.1 hmem
    have hij : i = j := hx.unique i j (by simp [hrun, Run.isLive]) (by simp [hj, Run.isLive, hl'])
    subst hij
    rw [hrun] at hj
    obtain rfl := Option.some.inj hj
    exact (RunPhase.looping.inj hl').symm
  have hplace : t.phase.place? = none := by
    refine hc.place?_eq_none (fun run hmem => ?_) ht
    unfold Run.placed
    split
    next l' hl' =>
      rw [honly run hmem l' hl']
      exact hordered.placed_eq_nil hd
    next => rfl
  have hwatched : ¬ t.IsWatched := by
    intro hw
    obtain ⟨run, hmem, l', hl', hwatches⟩ := hc.watched r t ht hw
    rw [honly run hmem l' hl'] at hwatches
    exact hordered.not_watches hd hwatches
  have hsound := hc.reported.sound t (List.mem_of_getElem? ht)
  have hcanceled : t.registered = true → t.phase = .ended ∨ t.status = .canceled := by
    intro hregistered
    cases hreleased : t.released with
    | true => exact hsound.canceled hreleased
    | false =>
      have hfound := he r t ht hregistered hreleased
      have hnone : c.registry.get? t.id = none := by
        rw [FiniteMap.get?_eq_none_iff]
        have hentries : c.registry.entries = [] := List.isEmpty_iff.1 hr
        simp [FiniteMap.keys, hentries]
      rw [hnone] at hfound
      exact absurd hfound (by simp)
  have hworking : t.phase.isRegistered = true → t.phase ≠ .ended → t.inWorker = true →
      t.phase = .ended ∨ t.status = .canceled ∧ t.inWorker = true := by
    intro hregistered hended hworker
    exact .inr ⟨(hcanceled (hsound.registered hregistered)).resolve_left hended, hworker⟩
  have hcompleting : t.phase.isCompleting = true → t.phase ≠ .ended → t.inWorker = t.token.isSome →
      t.phase = .ended ∨ t.status = .canceled ∧ t.inWorker = true := by
    intro hp hended hworker
    have htoken : t.token.isSome = true := by
      rw [Option.isSome_iff_ne_none]
      exact fun hnone => hwatched ⟨hnone, hp⟩
    exact .inr ⟨(hcanceled (hsound.armed htoken)).resolve_left hended, hworker.trans htoken⟩
  cases hp : t.phase with
  | popped | waiting | dispatched => simp [hp, Phase.place?] at hplace
  | spawned | armed | starting | started | running | stopping | finishing =>
    rw [← hp]
    exact hworking (by simp [hp, Phase.isRegistered]) (by simp [hp]) (by simp [hp, Task.inWorker])
  | completing | reporting | releasing =>
    rw [← hp]
    exact hcompleting (by simp [hp, Phase.isCompleting]) (by simp [hp])
      (by simp [hp, Task.inWorker])
  | ended => exact .inl rfl

/-! ### What is left at the moment of return -/

/-- A worker is in the middle of a stage of the task. -/
def Task.isExecuting (t : Task η) : Bool :=
  match t.phase with
  | .running top callers => top.stage.isSome || !callers.isEmpty
  | _ => false

/-- The number of reports handed over for a task. -/
def Core.reportCount (c : Core β η) (r : TaskRef) : Nat := (c.reports.map Prod.fst).count r

/-- A task has been reported once and no stage of it is executing. -/
def Core.Drained (c : Core β η) (r : TaskRef) (t : Task η) : Prop :=
  c.reportCount r = 1 ∧ t.isExecuting = false

/-- In a `Tidy` core the `reportCount` of a task is one if its phase `isReported`, and zero
otherwise. -/
theorem Core.Tidy.reportCount_eq {c : Core β η} (hc : c.Tidy) {r : TaskRef} {t : Task η}
    (ht : c.tasks[r]? = some t) : c.reportCount r = if t.phase.isReported then 1 else 0 := by
  have hcount := hc.reported.count r
  rw [ht] at hcount
  exact hcount

namespace Scheduler

variable [TaskQueue β]

/-- When a run returns without an error, every task popped so far is `Drained`, that is, has been
reported exactly once and executes no stage, except exactly those that were canceled while a worker
had them and that this worker has not reported yet. -/
theorem drained_iff (config : SchedulerConfig) (queue : β) (metrics : Option Metrics)
    (moves : List (Move η)) (m : Move η) (i : Nat) :
    let s := (new config queue metrics).afterMoves moves
    s.core.hasReturned i = false → (s.move m).core.hasReturned i = true →
      ∀ (r : TaskRef) (t : Task η), (s.move m).task? r = some t →
        ((s.move m).core.Drained r t ↔
          ¬ (t.status = .canceled ∧ t.inWorker = true ∧ (s.move m).core.reportCount r = 0)) := by
  intro s hbefore hafter r t ht
  have htidy : s.core.Tidy := tidy_afterMoves config queue metrics moves
  have henrolled : Enrolled s.core.tasks s.core.registry :=
    afterMoves_induction (P := fun c => Enrolled c.tasks c.registry) Core.Step.enrolled _
      (by simp [Enrolled, core, new]) moves
  have hexclusive : Exclusive s.core.runs s.core.active :=
    afterMoves_induction (P := fun c => Exclusive c.runs c.active) Core.Step.exclusive _
      ⟨by simp [core, new], by simp [core, new]⟩ moves
  obtain ⟨⟨l, hl, hd⟩, hempty, htasks, hreports⟩ := (s.core_move m).returned hbefore hafter
  have ht' : s.core.tasks[r]? = some t := htasks ▸ ht
  have hcount : (s.move m).core.reportCount r = if t.phase.isReported then 1 else 0 := by
    unfold Core.reportCount
    rw [hreports]
    exact htidy.reportCount_eq ht'
  have hexecuting : t.phase.isReported = true → t.isExecuting = false := by
    unfold Task.isExecuting Phase.isReported
    cases t.phase <;> simp
  unfold Core.Drained
  rw [hcount]
  rcases htidy.ended_or_canceled henrolled hexclusive hl hd hempty ht' with hended | ⟨hs, hw⟩
  · have hreported : t.phase.isReported = true := by simp [hended, Phase.isReported]
    simp [hreported, hexecuting hreported]
  · cases hreported : t.phase.isReported with
    | true => simp [hexecuting hreported]
    | false => simp [hs, hw]

/-- `drained_iff` at the step with which the run of `oneTaskHistory` returns: its only task is
`Drained`. -/
theorem drained_iff_oneTask :
    let s : Scheduler MemoryQueue Unit :=
      (new .default oneTask none).afterMoves ((oneTaskHistory .epoch).dropLast.map .event)
    let s' := s.move (.event (.stepDispatch 0))
    s.core.hasReturned 0 = false ∧ s'.core.hasReturned 0 = true ∧
      ∀ (r : TaskRef) (t : Task Unit), s'.task? r = some t → s'.core.Drained r t := by
  intro s s'
  have hbefore : s.core.hasReturned 0 = false := by decide
  have hafter : s'.core.hasReturned 0 = true := by decide
  have hdone : ∀ t ∈ s'.tasks, t.status = .done := by decide
  refine ⟨hbefore, hafter, fun r t ht => ?_⟩
  have hiff := drained_iff .default oneTask none ((oneTaskHistory .epoch).dropLast.map .event)
    (.event (.stepDispatch 0)) 0 hbefore hafter r t ht
  refine hiff.2 fun hleft => ?_
  have hstatus := hdone t (List.mem_of_getElem? ht)
  exact absurd (hstatus.symm.trans hleft.1) (by decide)

/-- A task whose stage is executing is canceled, and the run is asked to stop. -/
def canceledHistory (wall : Timestamp) : List (Event Unit) :=
  [.register "job" ⟨"wait", ()⟩, .callRun, .ping 0, .stepPop 0, .pop 0 wall, .stepPop 0, .stepPop 0,
    .stepDispatch 0, .stepDispatch 0] ++ ownSteps 6 ++
  [.cancel "1" wall, .shutDown 0, .stepPop 0, .stepDispatch 0, .stepDispatch 0, .stepDispatch 0]

/-- In `canceledHistory` a run returns while a stage of a canceled task is executing that has no
report: not every popped task is `Drained` then. -/
theorem exists_not_drained :
    ∃ (history : List (Event Unit)) (e : Event Unit),
      let s := (new .default oneTask none).after history
      s.core.hasReturned 0 = false ∧ (s.step e).core.hasReturned 0 = true ∧
        ∃ t, (s.step e).task? 0 = some t ∧ ¬ (s.step e).core.Drained 0 t := by
  refine ⟨canceledHistory .epoch, .stepDispatch 0, by decide, by decide, ?_⟩
  have hexecuting : (((new .default oneTask none).after (canceledHistory .epoch)).step
      (.stepDispatch 0)).tasks[0]?.any Task.isExecuting = true := by decide
  obtain ⟨t, ht, hstage⟩ := (Option.any_eq_true _ _).1 hexecuting
  exact ⟨t, ht, fun hdrained => absurd (hdrained.2.symm.trans hstage) (by decide)⟩

end Scheduler

end TaskScheduler
