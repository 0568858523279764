import TaskScheduler.Proofs.Queue.Contract
import TaskScheduler.Proofs.Scheduler.Drain

/-!
# Cancelations while a task is handed over

A popped task leaves the queue in one step and enters the registry in a later one.  A cancelation by
id goes the same way: it looks into the registry, and asks the queue when it found nothing there,
perhaps some steps later.  So there are moments at which a task is in neither of the two, and there
are cancelations that look into each of them while the task is in the other.

`cancel_notFound_iff` says exactly when that happens.  It rests on three things that hold in every
history: an id that was given is in one place of the journal of the queue, tasks only go forward,
and the registry knows the tasks that the popping loop has taken in and no others.
-/

namespace TaskScheduler

variable {β η : Type}

/-! ### Tasks go forward -/

/-- The task has not been brought beyond its pipeline.  That includes the moment at which the
pipeline has ended and the worker has yet to stop. -/
def Phase.isUnfinished : Phase η → Bool
  | .finishing _ _ | .completing _ | .reporting _ | .releasing | .ended => false
  | _ => true

/-- A task and the same task later: what was popped stays, and neither the end of its pipeline nor a
cancelation is undone. -/
structure Task.Follows (t t' : Task η) : Prop where
  /-- What was popped stays as it was. -/
  popped : t'.popped = t.popped
  /-- A task is taken in once. -/
  taken : t'.phase = .popped → t.phase = .popped
  /-- A pipeline that has finished does not go on. -/
  unfinished : t'.phase.isUnfinished = true → t.phase.isUnfinished = true
  /-- A canceled task stays canceled. -/
  canceled : t.status = .canceled → t'.status = .canceled

variable {t t' t'' : Task η}

/-- Every task `Follows` itself. -/
theorem Task.Follows.refl (t : Task η) : t.Follows t := ⟨rfl, fun h => h, fun h => h, fun h => h⟩

/-- A task that `Follows` a second one, which in turn follows a first, follows the first. -/
theorem Task.Follows.trans (h : t.Follows t') (h' : t'.Follows t'') : t.Follows t'' where
  popped := h'.popped.trans h.popped
  taken := h.taken ∘ h'.taken
  unfinished := h.unfinished ∘ h'.unfinished
  canceled := h'.canceled ∘ h.canceled

/-- A task that has worked, in the sense of `Task.Works`, `Follows` the task before. -/
theorem Task.Works.follows (h : t.Works t') : t.Follows t' := by
  cases h with
  | start h hs => exact ⟨rfl, by simp, by simp [h, Phase.isUnfinished], by simp [hs]⟩
  | stop h =>
    refine ⟨rfl, by simp, by simp [Phase.isUnfinished], fun hcanceled => ?_⟩
    simp [hcanceled]
  | countStop h | gaugeStop h =>
    exact ⟨rfl, by simp, by simp [Phase.isUnfinished], fun hcanceled => hcanceled⟩
  | arm c k h | skip h | countStart h | gaugeStart h | lookUp h | lack h | pass h | leave h
  | record h => exact ⟨rfl, by simp, by simp [h, Phase.isUnfinished], fun hcanceled => hcanceled⟩

/-- A task after a step `Follows` the task before it. -/
theorem Task.Step.follows (h : t.Step t') : t.Follows t' := by
  cases h with
  | work hw => exact hw.follows
  | cancel hd released => exact ⟨rfl, fun hp => hp, fun hp => hp, fun _ => rfl⟩
  | enroll hp | reject hp | take hp | spawn hp | skip hp | release hp =>
    exact ⟨rfl, by simp, by simp [hp, Phase.isUnfinished], fun hcanceled => hcanceled⟩

/-- Tasks keep their places and go forward. -/
def Core.Follows (c c' : Core β η) : Prop :=
  ∀ (r : TaskRef) (t : Task η), c.tasks[r]? = some t → ∃ t', c'.tasks[r]? = some t' ∧ t.Follows t'

/-- After a step of the tasks each of them is followed by the one in its place. -/
theorem TasksStep.follows {tasks tasks' : List (Task η)} {out : List (TaskRef × TaskReport)}
    (h : TasksStep tasks tasks' out) {r : TaskRef} {t : Task η} (ht : tasks[r]? = some t) :
    ∃ t', tasks'[r]? = some t' ∧ t.Follows t' := by
  have hmodify : ∀ {r' : TaskRef} {u u' : Task η}, tasks[r']? = some u → u.Follows u' →
      ∃ t', (tasks.modify r' fun _ => u')[r]? = some t' ∧ t.Follows t' := by
    intro r' u u' hu hfollows
    rw [List.getElem?_modify, ht]
    by_cases heq : r' = r
    · subst heq
      obtain rfl : t = u := Option.some.inj (ht.symm.trans hu)
      exact ⟨u', by simp, hfollows⟩
    · exact ⟨t, by simp [heq], .refl t⟩
  cases h with
  | same => exact ⟨t, ht, .refl t⟩
  | pop p now =>
    have hlt : r < tasks.length := (List.getElem?_eq_some_iff.1 ht).1
    exact ⟨t, by rw [List.getElem?_append_left hlt, ht], .refl t⟩
  | change hu hs => exact hmodify hu hs.follows
  | report hu hp => exact hmodify hu ⟨rfl, by simp, by simp [Phase.isUnfinished], fun h => h⟩

/-- Every step of a core whose tasks are `Tracked` keeps the tasks in their places and brings them
forward. -/
theorem Core.Step.follows [TaskQueue β] {c c' : Core β η} {n : Nat} (h : Core.Step n c c')
    (htracked : Tracked c.tasks c.runs) : c.Follows c' := by
  obtain ⟨out, htasks, -⟩ := h.tasksStep htracked
  exact fun _ _ ht => htasks.follows ht

/-- Along `Core.Follows` tasks that are neither canceled nor beyond their pipelines at the end were
so before. -/
theorem Core.Follows.going {c c' : Core β η} (h : c.Follows c') {id : String}
    (hgoing : ∀ t ∈ c'.tasks, t.id = id → t.status ≠ .canceled ∧ t.phase.isUnfinished = true) :
    ∀ t ∈ c.tasks, t.id = id → t.status ≠ .canceled ∧ t.phase.isUnfinished = true := by
  intro t ht hid
  obtain ⟨r, hr⟩ := List.mem_iff_getElem?.1 ht
  obtain ⟨t', ht', hfollows⟩ := h r t hr
  have hid' : t'.id = id := by
    rw [← hid, Task.id, Task.id, hfollows.popped]
  obtain ⟨hstatus, hunfinished⟩ := hgoing t' (List.mem_of_getElem? ht') hid'
  exact ⟨fun hcanceled => hstatus (hfollows.canceled hcanceled), hfollows.unfinished hunfinished⟩

/-! ### What the registry finds -/

/-- What is found under an id is a task with that id which the popping loop has taken in. -/
def Core.FindsTaken (c : Core β η) : Prop :=
  ∀ id r, c.registry.get? id = some r →
    ∃ t, c.tasks[r]? = some t ∧ t.id = id ∧ t.phase ≠ .popped

/-- What the registry finds after a step of the core it found before, or the popping loop has just
taken it in. -/
theorem Core.Step.found [TaskQueue β] {c c' : Core β η} {n : Nat} (h : Core.Step n c c')
    {id : String} {r : TaskRef} (hget : c'.registry.get? id = some r) :
    c.registry.get? id = some r ∨ ∃ t, c'.tasks[r]? = some t ∧ t.id = id ∧ t.phase ≠ .popped := by
  have herased : ∀ {b : Bool} {id' : String},
      (if b then c.registry.erase id' else c.registry).get? id = some r →
        c.registry.get? id = some r := by
    intro b id' hget
    split at hget
    next => exact FiniteMap.get?_of_get?_erase hget
    next => exact hget
  cases h with
  | @enroll i l r' t hl hp ht hn now =>
    dsimp only at hget
    rw [FiniteMap.get?_insert] at hget
    split at hget
    next hid =>
      obtain rfl := Option.some.inj hget
      refine .inr ⟨{ t with createdAt := now, phase := .waiting, registered := true }, ?_,
        hid.symm, by simp⟩
      simp [Core.setLoops, Core.setRunPhase, Core.modifyTask, ht]
    next => exact .inl hget
  | cancel ht hs released => exact .inl (herased hget)
  | release ht hp => exact .inl (herased hget)
  | idle | push | cancelQueued | refuse | begin | fail | loop | breakOff | shutDown | loops
  | popped | unpopped | reject | take | spawn | skip | finish | work | report => exact .inl hget

/-- Every step keeps `Core.FindsTaken`. -/
theorem Core.Step.findsTaken [TaskQueue β] {c c' : Core β η} {n : Nat} (h : Core.Step n c c')
    (htracked : Tracked c.tasks c.runs) (hc : c.FindsTaken) : c'.FindsTaken := by
  intro id r hget
  rcases h.found hget with hbefore | hnew
  · obtain ⟨t, ht, hid, hp⟩ := hc id r hbefore
    obtain ⟨t', ht', hfollows⟩ := h.follows htracked r t ht
    refine ⟨t', ht', ?_, fun hp' => hp (hfollows.taken hp')⟩
    rw [← hid, Task.id, Task.id, hfollows.popped]
  · exact hnew

/-! ### Queue, tasks and registry along a history -/

/-- A call of the queue, by its `QueueStep`, is the next entry of the journal. -/
theorem QueueStep.journal [TaskQueue β] {C : QueueContract β} {j j' : Journal β}
    {popped : List PoppedTask} {reported : List TaskReport} (h : QueueStep j popped reported j') :
    j.pushes ≤ j'.pushes ∧ j'.popped = j.popped ++ popped.map PoppedTask.id ∧
      ((∀ n < j'.pushes, C.HasRoom n) → (∃ ids, j.Traced C ids) → ∃ ids, j'.Traced C ids) := by
  cases h with
  | same => exact ⟨Nat.le_refl _, (List.append_nil _).symm, fun _ h => h⟩
  | push e priority =>
    obtain ⟨hpushes, hpopped⟩ := j.push_frame e priority
    refine ⟨by omega, hpopped.trans (List.append_nil _).symm, ?_⟩
    rintro hroom ⟨ids, h⟩
    exact h.push (hroom _ (by omega)) e priority
  | @popped p wall ha =>
    obtain ⟨hpushes, hpopped⟩ := Journal.pop_ok ha
    exact ⟨by omega, hpopped, fun _ ⟨ids, h⟩ => h.pop wall⟩
  | @unpopped e wall ha =>
    obtain ⟨hpushes, hpopped⟩ := Journal.pop_error ha
    exact ⟨by omega, hpopped.trans (List.append_nil _).symm, fun _ ⟨ids, h⟩ => h.pop wall⟩
  | cancel id wall =>
    obtain ⟨hpushes, hpopped⟩ := j.cancel_frame id wall
    exact ⟨by omega, hpopped.trans (List.append_nil _).symm, fun _ ⟨ids, h⟩ => h.cancel id wall⟩
  | report r wall =>
    exact ⟨Nat.le_refl _, (List.append_nil _).symm, fun _ ⟨ids, h⟩ => ⟨ids, h.report r wall⟩⟩

/-- Where an id can be: the journal of the queue, the tasks and the registry go together. -/
structure Core.Placed [TaskQueue β] (C : QueueContract β) (c : Core (Journal β) η) : Prop where
  /-- Loops, places, reports and completions are in order. -/
  tidy : c.Tidy
  /-- Registered tasks are found until they are released. -/
  enrolled : Enrolled c.tasks c.registry
  /-- What is found has been taken in. -/
  finds : c.FindsTaken
  /-- What was popped is a task. -/
  popped : c.queue.popped = c.tasks.map Task.id
  /-- Every id that was given has one place, as long as the queue has room. -/
  traced : (∀ n < c.queue.pushes, C.HasRoom n) → ∃ ids, c.queue.Traced C ids

/-- Every step keeps the journal of the queue, the tasks and the registry `Placed`. -/
theorem Core.Step.placed [TaskQueue β] {C : QueueContract β} {c c' : Core (Journal β) η} {n : Nat}
    (h : Core.Step n c c') (hc : c.Placed C) : c'.Placed C := by
  obtain ⟨popped, reported, hqueue, htasks, -⟩ := h.queueStep
  obtain ⟨hpushes, hpopped, htraced⟩ := hqueue.journal (C := C)
  have hids : ∀ tasks : List (Task η),
      tasks.map Task.id = (tasks.map Task.popped).map PoppedTask.id := by
    intro tasks
    rw [List.map_map]
    rfl
  constructor
  · exact h.tidy hc.tidy
  · exact h.enrolled hc.enrolled
  · exact h.findsTaken hc.tidy.tracked hc.finds
  · rw [hpopped, hc.popped, hids c'.tasks, hids c.tasks, htasks, List.map_append]
  · intro hroom
    exact htraced hroom (hc.traced fun n hn => hroom n (by omega))

namespace Core.Placed

variable [TaskQueue β] {C : QueueContract β} {c : Core (Journal β) η} {id : String}

/-- In a `Placed` core a task that was not canceled and whose pipeline has not finished is found as
soon as it has been taken in, and not before. -/
theorem get?_registry_eq_none_iff (hc : c.Placed C)
    (hlive : ∀ t ∈ c.tasks, t.id = id → t.status ≠ .canceled ∧ t.phase.isUnfinished = true) :
    c.registry.get? id = none ↔ ∀ t ∈ c.tasks, t.id = id → t.phase = .popped := by
  constructor
  · intro hnone t ht hid
    by_contra hp
    obtain ⟨hstatus, hunfinished⟩ := hlive t ht hid
    have hsound := hc.tidy.reported.sound t ht
    have hregistered : t.registered = true := by
      apply hsound.registered
      cases hphase : t.phase <;> simp_all [Phase.isUnfinished, Phase.isRegistered]
    have hreleased : t.released = false := by
      by_contra hreleased
      rcases hsound.canceled (Bool.not_eq_false _ ▸ hreleased) with hended | hcanceled
      · simp [hended, Phase.isUnfinished] at hunfinished
      · exact hstatus hcanceled
    obtain ⟨r, hr⟩ := List.mem_iff_getElem?.1 ht
    have hfound := hc.enrolled r t hr hregistered hreleased
    rw [hid, hnone] at hfound
    exact absurd hfound (by simp)
  · intro hpopped
    rw [← Option.not_isSome_iff_eq_none, Option.isSome_iff_exists]
    rintro ⟨r, hget⟩
    obtain ⟨t, ht, hid, hp⟩ := hc.finds id r hget
    exact hp (hpopped t (List.mem_of_getElem? ht) hid)

/-- The `cancel` of the queue answers `notFound` for an id that was given, and that no cancelation
has found, exactly if the id was popped, as that of a task or as one that could not be read. -/
theorem cancel_eq_notFound_iff (hc : c.Placed C) (hroom : ∀ n < c.queue.pushes, C.HasRoom n)
    (hid : id ∈ c.queue.pushed) (hfound : ∀ id' ∈ c.queue.found, C.means id' ≠ some id)
    (wall : Timestamp) :
    (TaskQueue.cancel c.queue id wall).1 = .error (.notFound id) ↔
      (∃ t ∈ c.tasks, t.id = id) ∨ id ∈ c.queue.unreadable := by
  obtain ⟨ids, htraced⟩ := hc.traced hroom
  rw [htraced.cancel_eq_notFound_iff hroom hid hfound, hc.popped, List.mem_map]

/-- In a `Placed` core, as long as there is room for the ids, an id has one task at most. -/
theorem eq_of_id_eq (hc : c.Placed C) (hroom : ∀ n < c.queue.pushes, C.HasRoom n) {t u : Task η}
    (ht : t ∈ c.tasks) (hu : u ∈ c.tasks) (hid : t.id = u.id) : t = u := by
  obtain ⟨ids, htraced⟩ := hc.traced hroom
  have hnodup := htraced.nodup_popped
  rw [hc.popped] at hnodup
  exact List.inj_on_of_nodup_map hnodup ht hu hid

/-- In a `Placed` core an id that could not be read has no task. -/
theorem id_ne_of_unreadable (hc : c.Placed C) (hroom : ∀ n < c.queue.pushes, C.HasRoom n)
    (hunreadable : id ∈ c.queue.unreadable) {t : Task η} (ht : t ∈ c.tasks) : t.id ≠ id := by
  rintro rfl
  obtain ⟨ids, htraced⟩ := hc.traced hroom
  have hpopped : t.id ∈ c.queue.popped := hc.popped ▸ List.mem_map_of_mem ht
  exact htraced.not_mem_unreadable hpopped hunreadable

/-- In a `Placed` core an id that is off the queue and not registered is that of a task which the
popping loop holds, or could not be read. -/
theorem popped_iff (hc : c.Placed C) (hroom : ∀ n < c.queue.pushes, C.HasRoom n) :
    (∀ t ∈ c.tasks, t.id = id → t.phase = .popped) ∧
        ((∃ t ∈ c.tasks, t.id = id) ∨ id ∈ c.queue.unreadable) ↔
      (∃ t ∈ c.tasks, t.id = id ∧ t.phase = .popped) ∨ id ∈ c.queue.unreadable := by
  constructor
  · rintro ⟨hpopped, ⟨t, ht, hid⟩ | hunreadable⟩
    · exact .inl ⟨t, ht, hid, hpopped t ht hid⟩
    · exact .inr hunreadable
  · rintro (⟨t, ht, hid, hp⟩ | hunreadable)
    · refine ⟨fun u hu huid => ?_, .inl ⟨t, ht, hid⟩⟩
      rwa [hc.eq_of_id_eq hroom hu ht (huid.trans hid.symm)]
    · refine ⟨fun u hu huid => ?_, .inr hunreadable⟩
      exact absurd huid (hc.id_ne_of_unreadable hroom hunreadable hu)

end Core.Placed

namespace Scheduler

variable [TaskQueue β]

/-- Whatever happens, the tasks of a scheduler with a `Tidy` core keep their places and go
forward. -/
theorem follows_afterMoves {s : Scheduler β η} (htidy : s.core.Tidy) (moves : List (Move η)) :
    s.core.Follows (s.afterMoves moves).core := by
  have hstart : s.core.Tidy ∧ s.core.Follows s.core := ⟨htidy, fun _ t ht => ⟨t, ht, .refl t⟩⟩
  refine (afterMoves_induction (P := fun c => c.Tidy ∧ s.core.Follows c) ?_ s hstart moves).2
  rintro n c c' h ⟨hc, hfollows⟩
  refine ⟨h.tidy hc, fun r t ht => ?_⟩
  obtain ⟨t', ht', htt'⟩ := hfollows r t ht
  obtain ⟨t'', ht'', ht't''⟩ := h.follows hc.tracked r t' ht'
  exact ⟨t'', ht'', htt'.trans ht't''⟩

/-- In every history of a scheduler with a new queue the journal, the tasks and the registry are
`Placed`. -/
theorem placed_afterMoves {C : QueueContract β} (config : SchedulerConfig) {queue : β}
    (hqueue : C.Holds queue 0 []) (metrics : Option Metrics) (moves : List (Move η)) :
    ((new config { queue := queue } metrics : Scheduler (Journal β) η).afterMoves moves).core.Placed
      C := by
  refine afterMoves_induction Core.Step.placed _ ?_ moves
  constructor
  · exact tidy_new config _ metrics
  · simp [Enrolled, core, new]
  · intro id r hget
    simp [core, new] at hget
  · rfl
  · exact fun _ => ⟨[], Journal.traced_start hqueue⟩

/-! ### Cancelations in one piece and in two -/

/-- A cancelation that goes on with what it found in the registry, now or some steps before. -/
def cancelFound (s : Scheduler β η) (found : Option TaskRef) (id : String) (wall : Timestamp) :
    Except SchedulerError Unit × Scheduler β η :=
  match found with
  | some r =>
    let s := s.cancelTask r
    if (s.task? r).any fun t => t.status = .done then (.error (.taskFinished id), s)
    else (.ok (), s)
  | none =>
    let (answer, queue) := TaskQueue.cancel s.queue id wall
    (answer.mapError .backend, { s with queue := queue })

/-- A cancelation in one piece is `cancelFound` with what the registry finds at once. -/
theorem cancel_eq_cancelFound (s : Scheduler β η) (id : String) (wall : Timestamp) :
    s.cancel id wall = s.cancelFound (s.registry.get? id) id wall := by
  unfold cancel cancelFound
  cases s.registry.get? id <;> rfl

/-- `cancelFound` answers `notFound` exactly if the registry found no task and the `cancel` of the
queue answers `notFound`. -/
theorem cancelFound_eq_notFound_iff (s : Scheduler β η) (found : Option TaskRef) (id : String)
    (wall : Timestamp) :
    (s.cancelFound found id wall).1 = .error (.backend (.notFound id)) ↔
      found = none ∧ (TaskQueue.cancel s.queue id wall).1 = .error (.notFound id) := by
  cases found with
  | some r =>
    refine iff_of_false ?_ (by simp)
    unfold cancelFound
    dsimp only
    split <;> simp
  | none =>
    unfold cancelFound
    dsimp only
    generalize TaskQueue.cancel s.queue id wall = result
    obtain ⟨_ | _, queue⟩ := result <;> simp [Except.mapError]

/-- An id that a push gave and that no cancelation has found, and of which a task, if there is one,
is not canceled and has a pipeline that has not finished. -/
structure Live (C : QueueContract β) (s : Scheduler (Journal β) η) (id : String) : Prop where
  /-- A push gave the id. -/
  given : id ∈ s.queue.pushed
  /-- It was not canceled in the queue. -/
  kept : ∀ id' ∈ s.queue.found, C.means id' ≠ some id
  /-- Its task has not been canceled and not been brought beyond its pipeline. -/
  going : ∀ t ∈ s.tasks, t.id = id → t.status ≠ .canceled ∧ t.phase.isUnfinished = true

/-- However the steps of the loops, the workers, the users and the clock follow each other: a
cancelation of an id that is `Live`, which looks into the registry at one moment and goes on at a
later one by `cancelFound`, fails to find the id exactly if the registry did not know its task at
the first moment and the task was off the queue at the second.  In one piece it fails exactly while
the popping loop holds the task, which is off the queue and not yet registered.  A task that could
not be read is never found. -/
theorem cancel_notFound_iff (C : QueueContract β) (config : SchedulerConfig) {queue : β}
    (hqueue : C.Holds queue 0 []) (metrics : Option Metrics) (moves more : List (Move η))
    (id : String) (wall : Timestamp) :
    let s : Scheduler (Journal β) η := (new config { queue := queue } metrics).afterMoves moves
    let s' := s.afterMoves more
    (∀ n < s'.queue.pushes, C.HasRoom n) → s'.Live C id →
      ((s'.cancelFound (s.registry.get? id) id wall).1 = .error (.backend (.notFound id)) ↔
        (∀ t ∈ s.tasks, t.id = id → t.phase = .popped) ∧
          ((∃ t ∈ s'.tasks, t.id = id) ∨ id ∈ s'.queue.unreadable)) ∧
      ((s'.cancel id wall).1 = .error (.backend (.notFound id)) ↔
        (∃ t ∈ s'.tasks, t.id = id ∧ t.phase = .popped) ∨ id ∈ s'.queue.unreadable) := by
  intro s s' hroom hlive
  have hs : s.core.Placed C := placed_afterMoves config hqueue metrics moves
  have hs' : s'.core.Placed C := by
    have happend : s' = (new config { queue := queue } metrics).afterMoves (moves ++ more) :=
      (afterMoves_append _ moves more).symm
    rw [happend]
    exact placed_afterMoves config hqueue metrics (moves ++ more)
  have hgoing : ∀ t ∈ s.tasks, t.id = id → t.status ≠ .canceled ∧ t.phase.isUnfinished = true :=
    (follows_afterMoves hs.tidy more).going hlive.going
  have hregistry : s.registry.get? id = none ↔ ∀ t ∈ s.tasks, t.id = id → t.phase = .popped :=
    hs.get?_registry_eq_none_iff hgoing
  have hregistry' : s'.registry.get? id = none ↔ ∀ t ∈ s'.tasks, t.id = id → t.phase = .popped :=
    hs'.get?_registry_eq_none_iff hlive.going
  have hqueue' : (TaskQueue.cancel s'.queue id wall).1 = .error (.notFound id) ↔
      (∃ t ∈ s'.tasks, t.id = id) ∨ id ∈ s'.queue.unreadable :=
    hs'.cancel_eq_notFound_iff hroom hlive.given hlive.kept wall
  constructor
  · rw [cancelFound_eq_notFound_iff, hregistry, hqueue']
  · rw [cancel_eq_cancelFound, cancelFound_eq_notFound_iff, hregistry', hqueue']
    exact hs'.popped_iff hroom

/-- A task is pushed and popped, and the popping loop has not taken it in. -/
def poppedHistory (wall : Timestamp) : List (Event Unit) :=
  [.register "job" ⟨"work", ()⟩, .push "job" .null none none, .callRun, .ping 0, .stepPop 0,
    .pop 0 wall]

/-- Whether the popping loop still holds a task can be decided. -/
instance Phase.decidableEqPopped : (p : Phase η) → Decidable (p = .popped)
  | .popped => .isTrue rfl
  | .waiting | .dispatched | .spawned | .armed _ | .starting _ _ | .started _ | .running _ _
  | .stopping _ | .finishing _ _ | .completing _ | .reporting _ | .releasing | .ended =>
    .isFalse nofun

/-- A new connection to an empty store. -/
def emptyConnection : RedisConnection := { queue := ⟨.default⟩, store := .empty }

/-- A scheduler over `emptyConnection` after the first events of `poppedHistory`: a task is
queued. -/
def queuedInStore : Scheduler (Journal RedisConnection) Unit :=
  (new .default { queue := emptyConnection } none).afterMoves
    (((poppedHistory .epoch).take 2).map .event)

/-- A scheduler over `emptyConnection` after the whole of `poppedHistory`: the popping loop holds
the task. -/
def poppedFromStore : Scheduler (Journal RedisConnection) Unit :=
  queuedInStore.afterMoves (((poppedHistory .epoch).drop 2).map .event)

/-- `cancel_notFound_iff` while the popping loop holds the only task, over a queue in memory and
over one in a store.  The task is live, and its cancelation is answered with `notFound`; in the
store also one that has looked into the registry before the run began. -/
theorem cancel_notFound_iff_popped :
    let s : Scheduler (Journal MemoryQueue) Unit :=
      (new .default { queue := {} } none).afterMoves ((poppedHistory .epoch).map .event)
    (MemoryQueue.contract.Holds {} 0 [] ∧ (∀ n < s.queue.pushes, MemoryQueue.contract.HasRoom n) ∧
      s.Live MemoryQueue.contract "1" ∧
      (s.cancel "1" .epoch).1 = .error (.backend (.notFound "1"))) ∧
    (RedisConnection.contract.Holds emptyConnection 0 [] ∧
      (∀ n < poppedFromStore.queue.pushes, RedisConnection.contract.HasRoom n) ∧
      poppedFromStore.Live RedisConnection.contract "1" ∧
      (poppedFromStore.cancelFound (queuedInStore.registry.get? "1") "1" .epoch).1 =
        .error (.backend (.notFound "1")) ∧
      (poppedFromStore.cancel "1" .epoch).1 = .error (.backend (.notFound "1"))) := by
  intro s
  constructor
  · have hholds := MemoryQueue.contract_holds_new
    have hroom : ∀ n < s.queue.pushes, MemoryQueue.contract.HasRoom n := fun _ _ => trivial
    have hlive : s.Live MemoryQueue.contract "1" := ⟨by decide, by decide, by decide⟩
    have hheld : ∃ t ∈ s.tasks, t.id = "1" ∧ t.phase = .popped := ⟨_, List.mem_cons_self, rfl, rfl⟩
    have hiff := cancel_notFound_iff MemoryQueue.contract .default hholds none
      ((poppedHistory .epoch).map .event) [] "1" .epoch hroom hlive
    exact ⟨hholds, hroom, hlive, hiff.2.2 (.inl hheld)⟩
  · have hholds : RedisConnection.contract.Holds emptyConnection 0 [] :=
      RedisConnection.contract_holds_new ⟨.default⟩
    have hiff := cancel_notFound_iff RedisConnection.contract .default hholds none
      (((poppedHistory .epoch).take 2).map .event) (((poppedHistory .epoch).drop 2).map .event) "1"
      .epoch
    have hearly : (new .default { queue := emptyConnection } none).afterMoves
        (((poppedHistory .epoch).take 2).map .event) = queuedInStore := rfl
    have hlate : queuedInStore.afterMoves (((poppedHistory .epoch).drop 2).map .event) =
        poppedFromStore := rfl
    -- with names for the two schedulers nothing computes them once more
    dsimp only at hiff
    rw [hearly, hlate] at hiff
    have hpushes : poppedFromStore.queue.pushes = 1 := by decide +kernel
    have hroom : ∀ n < poppedFromStore.queue.pushes, RedisConnection.contract.HasRoom n := by
      rw [hpushes]
      intro n hn
      change n + 1 ≤ 2 ^ 53
      omega
    have hfound : poppedFromStore.queue.found = [] := by decide +kernel
    have hlive : poppedFromStore.Live RedisConnection.contract "1" := by
      refine ⟨by decide +kernel, ?_, by decide +kernel⟩
      rw [hfound]
      exact List.forall_mem_nil _
    have hheld : ∃ t ∈ poppedFromStore.tasks, t.id = "1" ∧ t.phase = .popped := by decide +kernel
    have hqueued : queuedInStore.tasks.length = 0 := by decide +kernel
    have hunknown : ∀ t ∈ queuedInStore.tasks, t.id = "1" → t.phase = .popped := by
      rw [List.eq_nil_of_length_eq_zero hqueued]
      exact List.forall_mem_nil _
    obtain ⟨t, ht, hid, hp⟩ := hheld
    obtain ⟨hfirst, hsecond⟩ := hiff hroom hlive
    exact ⟨hholds, hroom, hlive, hfirst.2 ⟨hunknown, .inl ⟨t, ht, hid⟩⟩,
      hsecond.2 (.inl ⟨t, ht, hid, hp⟩)⟩

/-- What is left to do for a popped task: it is registered, dispatched and started, its stage
returns, and the report is handed over. -/
def completedHistory (wall : Timestamp) : List (Event Unit) :=
  [.stepPop 0, .stepPop 0, .stepDispatch 0, .stepDispatch 0] ++ ownSteps 6 ++
    .returnFromStage 0 (.ok .null) :: ownSteps 5 ++ [.report 0 wall]

/-- A live task need not be found: its cancelation is answered as that of an unknown id, and the
task is completed after that. -/
theorem exists_cancel_notFound :
    let s : Scheduler (Journal MemoryQueue) Unit :=
      (new .default { queue := {} } none).afterMoves ((poppedHistory .epoch).map .event)
    s.Live MemoryQueue.contract "1" ∧
      (s.cancel "1" .epoch).1 = .error (.backend (.notFound "1")) ∧
      (((s.cancel "1" .epoch).2.after (completedHistory .epoch)).reports.map fun x =>
        (x.2.id, x.2.status)) = [("1", .completed)] := by
  intro s
  exact ⟨⟨by decide, by decide, by decide⟩, by decide, by decide⟩

end Scheduler

end TaskScheduler
