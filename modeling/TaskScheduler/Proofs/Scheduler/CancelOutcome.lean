import TaskScheduler.Proofs.Queue.Expiry
import TaskScheduler.Proofs.Scheduler.CanceledRun
import TaskScheduler.Proofs.Scheduler.TaskLife

/-!
# What is recorded after a cancelation

A cancelation by id finds a task in the registry or asks the queue.  If it succeeds in the queue,
the id is never popped, so nothing is reported under it, and `get_result` answers that the task was
canceled until the record expires (`RecordsCanceled`).  If it succeeds in the registry, the task is
canceled for good (`StaysCanceled`); what is reported of it is told in
`TaskScheduler.Proofs.Scheduler.CanceledRun`, and the worker may be past its last question by then.
-/

namespace TaskScheduler

variable {β η : Type} [TaskQueue β] {C : QueueContract β} {K : QueueRecords C}

/-! ### What a queue has noted -/

/-- A call of the queue keeps `Journal.Noted`, if what is reported was popped. -/
theorem QueueStep.noted {j j' : Journal β} {popped : List PoppedTask} {reported : List TaskReport}
    (h : QueueStep j popped reported j') {ids : List String} (htraced : j.Traced C ids)
    (hroom : ∀ n < j'.pushes, C.HasRoom n) (hreported : ∀ r ∈ reported, r.id ∈ j'.popped)
    (hj : j.Noted K) : j'.Noted K := by
  obtain ⟨hpushes, -⟩ := h.journal (C := C)
  have hbefore : ∀ n < j.pushes, C.HasRoom n := fun n hn => hroom n (by omega)
  cases h with
  | same => exact hj
  | push e priority =>
    have hlast : j.pushes < (TaskQueue.push j e priority).2.pushes := by
      rw [(j.push_frame e priority).1]
      exact Nat.lt_succ_self _
    exact hj.push htraced (hroom _ hlast) e priority
  | popped | unpopped => exact hj.pop htraced _
  | cancel id wall => exact hj.cancel htraced hbefore id wall
  | report r wall => exact hj.report htraced (hreported r (List.mem_singleton_self r)) wall

/-- A call of the queue keeps `Journal.Canceled`, if what is reported was popped. -/
theorem QueueStep.canceled {j j' : Journal β} {popped : List PoppedTask}
    {reported : List TaskReport} (h : QueueStep j popped reported j') {ids : List String}
    (htraced : j.Traced C ids) (hroom : ∀ n < j'.pushes, C.HasRoom n)
    (hreported : ∀ r ∈ reported, r.id ∈ j'.popped)
    {id i : String} {made : Timestamp} (hc : j.Canceled K id i made) : j'.Canceled K id i made := by
  obtain ⟨hpushes, -⟩ := h.journal (C := C)
  have hbefore : ∀ n < j.pushes, C.HasRoom n := fun n hn => hroom n (by omega)
  cases h with
  | same => exact hc
  | push e priority =>
    have hlast : j.pushes < (TaskQueue.push j e priority).2.pushes := by
      rw [(j.push_frame e priority).1]
      exact Nat.lt_succ_self _
    exact hc.push htraced (hroom _ hlast) e priority
  | popped | unpopped => exact hc.pop htraced hbefore _
  | cancel id' wall => exact hc.cancel htraced id' wall
  | report r wall => exact hc.report htraced hbefore (hreported r (List.mem_singleton_self r)) wall

/-- Every report is about an id that was popped. -/
theorem Core.Placed.id_mem_popped {c : Core (Journal β) η} (hc : c.Placed C)
    {x : TaskRef × TaskReport} (hx : x ∈ c.reports) : x.2.id ∈ c.queue.popped := by
  obtain ⟨t, ht, hid, -⟩ := hc.tidy.reported.matching x hx
  rw [hc.popped, hid]
  exact List.mem_map_of_mem (List.mem_of_getElem? ht)

/-- Under the id of a task no other task is reported. -/
theorem Core.Placed.eq_of_reported {c : Core (Journal β) η} (hc : c.Placed C)
    (hroom : ∀ n < c.queue.pushes, C.HasRoom n) {r : TaskRef} {t : Task η}
    (ht : c.tasks[r]? = some t) {x : TaskRef × TaskReport} (hx : x ∈ c.reports)
    (hid : x.2.id = t.id) : x.1 = r := by
  obtain ⟨ids, htraced⟩ := hc.traced hroom
  have hnodup := htraced.nodup_popped
  rw [hc.popped] at hnodup
  obtain ⟨u, hu, hxu, -⟩ := hc.tidy.reported.matching x hx
  have hlt : x.1 < (c.tasks.map Task.id).length := by
    rw [List.length_map]
    exact (List.getElem?_eq_some_iff.1 hu).1
  refine (List.getElem?_inj hlt hnodup).1 ?_
  rw [List.getElem?_map, List.getElem?_map, hu, ht]
  exact congrArg some (hxu.symm.trans hid)

/-- A status that is not `done` after a cancelation is `canceled`. -/
theorem TaskStatus.after_cancel_eq {st : TaskStatus} (h : st.after .cancel ≠ .done) :
    st.after .cancel = .canceled := by
  rw [after_cancel] at h ⊢
  revert h
  cases st <;> simp [isTerminal]

namespace Scheduler

/-- The id of a task that was canceled in the queue at some time: the task was not popped and is not
reported.  If the id is one that a push gave, and the record can be read back, `get_result` answers
that the task was canceled, without a result, until the record has expired. -/
structure RecordsCanceled (K : QueueRecords C) (s : Scheduler (Journal β) η) (id : String)
    (wall : Timestamp) : Prop where
  /-- The record says that the task was canceled. -/
  recorded : ∀ e, (id, e) ∈ s.queue.bodies → K.Reads e wall → ¬ K.HasLapsed s.queue.queue id →
    ∀ now, K.get s.queue.queue id now =
      .ok (some ⟨id, e.taskType, .canceled, some "task canceled", none, 0, wall⟩)
  /-- No task has the id that was meant. -/
  unpopped : ∀ t ∈ s.tasks, C.means id ≠ some t.id
  /-- No report has it. -/
  unreported : ∀ x ∈ s.reports, C.means id ≠ some x.2.id

/-- No history makes the number of pushes smaller. -/
theorem pushes_le_afterMoves (C : QueueContract β) (s : Scheduler (Journal β) η)
    (later : List (Move η)) : s.queue.pushes ≤ (s.afterMoves later).queue.pushes :=
  afterMoves_induction (P := fun c => s.queue.pushes ≤ c.queue.pushes)
    (fun h hle => by
      obtain ⟨_, _, hqueue, -⟩ := h.queueStep
      exact Nat.le_trans hle (hqueue.journal (C := C)).1) s (Nat.le_refl _) later

/-- What every call of a queue keeps, as long as there is room and only popped tasks are reported,
holds in every history of moves. -/
theorem journal_afterMoves {P : Journal β → Prop}
    (hstep : ∀ {j j' : Journal β} {popped : List PoppedTask} {reported : List TaskReport}
      {ids : List String}, QueueStep j popped reported j' → j.Traced C ids →
      (∀ n < j'.pushes, C.HasRoom n) → (∀ r ∈ reported, r.id ∈ j'.popped) → P j → P j')
    {s : Scheduler (Journal β) η} (hs : s.core.Placed C) (hP : P s.queue) (later : List (Move η))
    (hroom : ∀ n < (s.afterMoves later).queue.pushes, C.HasRoom n) :
    P (s.afterMoves later).queue := by
  refine (afterMoves_induction
    (P := fun c => c.Placed C ∧ ((∀ n < c.queue.pushes, C.HasRoom n) → P c.queue))
    (fun {n c c'} h ⟨hc, hold⟩ => ⟨h.placed hc, fun hroom => ?_⟩) s ⟨hs, fun _ => hP⟩ later).2 hroom
  obtain ⟨popped, reported, hqueue, -, hreports⟩ := h.queueStep
  obtain ⟨hpushes, -⟩ := hqueue.journal (C := C)
  have hbefore : ∀ n < c.queue.pushes, C.HasRoom n := fun n hn => hroom n (by omega)
  obtain ⟨ids, htraced⟩ := hc.traced hbefore
  refine hstep hqueue htraced hroom (fun r hr => ?_) (hold hbefore)
  have hmem : r ∈ c'.reports.map Prod.snd := hreports ▸ List.mem_append_right _ hr
  obtain ⟨x, hx, rfl⟩ := List.mem_map.1 hmem
  exact (h.placed hc).id_mem_popped hx

/-- What a new queue has noted of its tasks is `Journal.Noted` after every history. -/
theorem noted_afterMoves (config : SchedulerConfig) {queue : β} (hqueue : C.Holds queue 0 [])
    (hnew : K.IsNew queue) (metrics : Option Metrics) (moves : List (Move η)) :
    let s : Scheduler (Journal β) η := (new config { queue := queue } metrics).afterMoves moves
    (∀ n < s.queue.pushes, C.HasRoom n) → s.queue.Noted K :=
  journal_afterMoves (fun h htraced hroom hreported => h.noted htraced hroom hreported)
    (placed_afterMoves config hqueue metrics []) (Journal.noted_start hnew) moves

/-- `RecordsCanceled` holds after every history of the id of a task that was canceled in the
queue. -/
theorem recordsCanceled {s : Scheduler (Journal β) η} (hs : s.core.Placed C) {id i : String}
    {wall : Timestamp} (hcanceled : s.queue.Canceled K id i wall) (later : List (Move η))
    (hroom : ∀ n < (s.afterMoves later).queue.pushes, C.HasRoom n) :
    (s.afterMoves later).RecordsCanceled K id wall := by
  have hplaced : (s.afterMoves later).core.Placed C :=
    afterMoves_induction Core.Step.placed s hs later
  have hc : (s.afterMoves later).queue.Canceled K id i wall :=
    journal_afterMoves (fun h htraced hroom hreported => h.canceled htraced hroom hreported) hs
      hcanceled later hroom
  obtain ⟨ids, htraced⟩ := hplaced.traced hroom
  have hne : ∀ x ∈ (s.afterMoves later).core.queue.popped, C.means id ≠ some x := fun x hx =>
    (htraced.ne_of_canceled hroom hc (.inr hx)).1
  refine ⟨fun e he hreads hkept => K.get_canceled (hc.noted e he) hkept hreads,
    fun t ht => hne _ ?_, fun x hx => hne _ (hplaced.id_mem_popped hx)⟩
  rw [hplaced.popped]
  exact List.mem_map_of_mem ht

/-! ### Tasks that were canceled in the registry -/

/-- A task that the registry has found has the id and was taken in, however many moves ago that
was. -/
theorem exists_task_of_found {s : Scheduler (Journal β) η} (hs : s.core.Placed C) {id : String}
    {r : TaskRef} (hfound : s.registry.get? id = some r) (more : List (Move η)) :
    ∃ t, (s.afterMoves more).task? r = some t ∧ t.id = id ∧ t.phase ≠ .popped := by
  obtain ⟨t₀, ht₀, hid₀, htaken₀⟩ := hs.finds id r hfound
  obtain ⟨t, ht, hfollows⟩ := follows_afterMoves hs.tidy more r t₀ ht₀
  exact ⟨t, ht, by rw [← hid₀, Task.id, Task.id, hfollows.popped],
    fun hp => htaken₀ (hfollows.taken hp)⟩

/-- A registered task whose cancelation by `cancelFound` succeeds is canceled. -/
theorem task?_cancelFound {s : Scheduler β η} {r : TaskRef} {t : Task η} {id : String}
    {wall : Timestamp} (ht : s.task? r = some t)
    (hok : (s.cancelFound (some r) id wall).1 = .ok ()) :
    ∃ t', (s.cancelFound (some r) id wall).2 = s.move (.event (.cancelTask r)) ∧
      (s.move (.event (.cancelTask r))).task? r = some t' ∧ t'.status = .canceled ∧
      t'.popped = t.popped ∧ t'.phase = t.phase := by
  have heffect := taskEffect_cancelTask ht
  have hmove : s.move (.event (.cancelTask r)) = s.cancelTask r := rfl
  have hanswer : (s.cancelFound (some r) id wall).2 = s.cancelTask r := by
    unfold cancelFound
    dsimp only
    split <;> rfl
  have hopen : t.status.after .cancel ≠ .done := by
    intro hdone
    unfold cancelFound at hok
    dsimp only at hok
    rw [heffect.task, Option.any_some, decide_eq_true hdone] at hok
    exact absurd hok (by simp)
  exact ⟨_, hanswer.trans hmove.symm, heffect.task, TaskStatus.after_cancel_eq hopen, rfl, rfl⟩

/-- `markCanceled`, the first half of a cancelation, changes the status of a task and nothing else
of it. -/
theorem task?_markCanceled {s : Scheduler β η} {r : TaskRef} {t : Task η}
    (ht : s.task? r = some t) :
    (s.move (.markCanceled r)).task? r = some { t with status := t.status.after .cancel } := by
  have hmark : (s.move (.markCanceled r)).task? r =
      some (if t.status.isTerminal then t else { t with status := .canceled }) :=
    task?_modifyTask ht _
  rw [hmark, TaskStatus.after_cancel]
  split <;> rfl

/-- Where `cancelFound` is given no task of the registry and succeeds, so does the `cancel` of the
queue, and the move is `cancelQueued`. -/
theorem cancelFound_none {s : Scheduler β η} {id : String} {wall : Timestamp}
    (hok : (s.cancelFound none id wall).1 = .ok ()) :
    (TaskQueue.cancel s.queue id wall).1 = .ok () ∧
      (s.cancelFound none id wall).2 = s.move (.cancelQueued id wall) := by
  refine ⟨?_, rfl⟩
  unfold cancelFound at hok
  dsimp only at hok
  revert hok
  cases (TaskQueue.cancel s.queue id wall).1 <;> simp [Except.mapError]

/-! ### Both ways -/

/-- However the steps of the loops, the workers, the users and the clock follow each other: a
cancelation of an id that looks into the registry at one moment, goes on at a later one and succeeds
has one of two effects.  If it found a task, this task is canceled for good, enters no stage any
more, and is the only one that is ever reported under the id, once and with an outcome that the
cancelation left open; it is so from the first half of the cancelation on.  If it found none, the
task that the id means is off the queue and never popped or reported, and if the id is one that a
push gave, its record says that it was canceled until it expires. -/
theorem cancel_recorded (C : QueueContract β) (K : QueueRecords C) (config : SchedulerConfig)
    {queue : β} (hqueue : C.Holds queue 0 []) (hnew : K.IsNew queue) (metrics : Option Metrics)
    (moves more : List (Move η)) (id : String) (wall : Timestamp) :
    let s : Scheduler (Journal β) η := (new config { queue := queue } metrics).afterMoves moves
    let found := s.registry.get? id
    let s₁ := s.afterMoves more
    let s' := (s₁.cancelFound found id wall).2
    (∀ r, found = some r → ∀ t, (s₁.move (.markCanceled r)).task? r = some t → t.status ≠ .done →
      t.id = id ∧ ∀ later, (s₁.move (.markCanceled r)).StaysCanceled r t later) ∧
    ((s₁.cancelFound found id wall).1 = .ok () →
      ∀ later, (∀ n < (s'.afterMoves later).queue.pushes, C.HasRoom n) →
        (∀ r, found = some r → ∃ t, s'.task? r = some t ∧ t.id = id ∧ s'.StaysCanceled r t later ∧
          ∀ x ∈ (s'.afterMoves later).reports, x.2.id = id → x.1 = r) ∧
        (found = none → (s'.afterMoves later).RecordsCanceled K id wall)) := by
  intro s found s₁ s'
  have happend : s₁ = (new config { queue := queue } metrics).afterMoves (moves ++ more) :=
    (afterMoves_append _ moves more).symm
  have hs : s.core.Placed C := placed_afterMoves config hqueue metrics moves
  have hs₁ : s₁.core.Placed C := happend ▸ placed_afterMoves config hqueue metrics (moves ++ more)
  have hstays : ∀ m r t, (s₁.move m).task? r = some t → t.status = .canceled → t.phase ≠ .popped →
      ∀ later, (s₁.move m).StaysCanceled r t later := by
    intro m r t ht hstatus hp later
    rw [happend, ← afterMoves_concat] at ht ⊢
    exact staysCanceled config _ metrics _ ht hstatus hp later
  refine ⟨fun r hfound t ht hopen => ?_,
    fun hok later hroom => ⟨fun r hfound => ?_, fun hnone => ?_⟩⟩
  · obtain ⟨t₁, ht₁, hid, htaken⟩ := exists_task_of_found hs hfound more
    obtain rfl := Option.some.inj (ht.symm.trans (task?_markCanceled ht₁))
    exact ⟨hid, hstays _ r _ ht (TaskStatus.after_cancel_eq hopen) htaken⟩
  · obtain ⟨t₁, ht₁, hid, htaken⟩ := exists_task_of_found hs hfound more
    rw [hfound] at hok
    obtain ⟨t, hmove, ht, hstatus, hpopped, hphase⟩ := task?_cancelFound ht₁ hok
    have hs' : s' = s₁.move (.event (.cancelTask r)) := by
      rw [← hmove, ← hfound]
    have hplaced : s'.core.Placed C := hs' ▸ (s₁.core_move _).placed hs₁
    have hplaced' : (s'.afterMoves later).core.Placed C :=
      afterMoves_induction Core.Step.placed _ hplaced later
    have hid' : t.id = id := by
      rw [← hid, Task.id, Task.id, hpopped]
    obtain ⟨t', hlast, hsame⟩ := follows_afterMoves hplaced.tidy later r t (hs' ▸ ht)
    refine ⟨t, hs' ▸ ht, hid', hs' ▸ hstays _ r t ht hstatus (hphase ▸ htaken) later,
      fun x hx hxid => hplaced'.eq_of_reported hroom hlast hx ?_⟩
    rw [hxid, ← hid', Task.id, Task.id, hsame.popped]
  · rw [hnone] at hok
    obtain ⟨hqueued, hmove⟩ := cancelFound_none hok
    have hs' : s' = s₁.move (.cancelQueued id wall) := by
      rw [← hmove, ← hnone]
    have hbefore : ∀ n < s₁.queue.pushes, C.HasRoom n := by
      have hpushes := pushes_le_afterMoves C s₁ (.cancelQueued id wall :: later)
      intro n hn
      refine hroom n ?_
      rw [hs']
      exact Nat.lt_of_lt_of_le hn hpushes
    have hnoted : s₁.queue.Noted K := by
      rw [happend] at hbefore ⊢
      exact noted_afterMoves config hqueue hnew metrics (moves ++ more) hbefore
    obtain ⟨ids, htraced⟩ := hs₁.traced hbefore
    obtain ⟨i, hcanceled⟩ := hnoted.canceled htraced hbefore hqueued
    have hplaced : s'.core.Placed C := hs' ▸ (s₁.core_move _).placed hs₁
    refine recordsCanceled (i := i) hplaced ?_ later hroom
    rw [hs']
    exact hcanceled

/-- The one task has entered its only stage. -/
def workingHistory (wall : Timestamp) : List (Event Unit) :=
  poppedHistory wall ++ (completedHistory wall).take 10

/-- A scheduler with a new queue in memory, after a history. -/
def journaled (history : List (Event Unit)) : Scheduler (Journal MemoryQueue) Unit :=
  (new .default { queue := {} } none).afterMoves (history.map .event)

/-- A connection to an empty store, in which the record of the first task lapses before the fourth
call. -/
def expiringQueue : ExpiringConnection where
  connection := { queue := RedisQueue.defaultClient, store := .empty }
  schedule := [[], [], [], [RedisQueue.defaultClient.taskKey "1"]]

/-- A scheduler over `expiringQueue` that knows one type of tasks. -/
def expiring : Scheduler (Journal ExpiringConnection) Unit :=
  (new .default { queue := expiringQueue } none).afterMoves
    [.event (.register "job" ⟨"work", ()⟩)]

/-- `cancel_recorded` at three cancelations: of a task that is queued in memory, of one at work, and
of one that is queued in a store.  In the store a push comes after the cancelation, and `get_result`
answers a canceled task; the record is gone after another one. -/
theorem cancel_recorded_both :
    let idle := journaled ((poppedHistory .epoch).take 1)
    let push : List (Move Unit) := [.event (.push "job" .null none none)]
    let queued := (idle.afterMoves push).cancelFound (idle.registry.get? "1") "1" .epoch
    let started := journaled ((workingHistory .epoch).take 15)
    let enter : List (Move Unit) := [.event (.stepTask 0)]
    let working := (started.afterMoves enter).cancelFound (started.registry.get? "1") "1" .epoch
    let rest : List (Move Unit) := ((completedHistory .epoch).drop 10).map .event
    let stored := (expiring.afterMoves push).cancelFound (expiring.registry.get? "1") "1" .epoch
    (MemoryQueue.contract.Holds {} 0 [] ∧ MemoryQueue.records.IsNew {} ∧
      idle.registry.get? "1" = none ∧ queued.1 = .ok () ∧
      (queued.2.afterMoves rest).RecordsCanceled MemoryQueue.records "1" .epoch) ∧
    (started.registry.get? "1" = some 0 ∧ working.1 = .ok () ∧
      ∃ t, working.2.StaysCanceled 0 t rest) ∧
    (ExpiringConnection.contract.Holds expiringQueue 0 [] ∧
      ExpiringConnection.records.IsNew expiringQueue ∧
      expiring.registry.get? "1" = none ∧ stored.1 = .ok () ∧
      ExpiringConnection.records.get (stored.2.afterMoves push).queue.queue "1" .epoch =
        .ok (some ⟨"1", "job", .canceled, some "task canceled", none, 0, .epoch⟩) ∧
      (stored.2.afterMoves (push ++ push)).queue.queue.HasLapsed "1") := by
  intro idle push queued started enter working rest stored
  have hholds := MemoryQueue.contract_holds_new
  have hnew := MemoryQueue.records_isNew {}
  refine ⟨⟨hholds, hnew, by decide, by decide, ?_⟩, ⟨by decide, by decide, ?_⟩, ?_⟩
  · obtain ⟨-, h⟩ := cancel_recorded (η := Unit) MemoryQueue.contract MemoryQueue.records .default
      hholds hnew none (((poppedHistory .epoch).take 1).map .event)
      [.event (.push "job" .null none none)] "1" .epoch
    exact (h (by decide) _ fun _ _ => trivial).2 (by decide)
  · obtain ⟨-, h⟩ := cancel_recorded (η := Unit) MemoryQueue.contract MemoryQueue.records .default
      hholds hnew none (((workingHistory .epoch).take 15).map .event) [.event (.stepTask 0)] "1"
      .epoch
    obtain ⟨t, -, -, hstays, -⟩ := (h (by decide) _ fun _ _ => trivial).1 0 (by decide)
    exact ⟨t, hstays⟩
  · have hholds' := ExpiringConnection.contract_holds_new RedisQueue.defaultClient
      expiringQueue.schedule
    have hnew' := ExpiringConnection.records_isNew RedisQueue.defaultClient expiringQueue.schedule
    have hok : stored.1 = .ok () := by decide +kernel
    have hpushes : (stored.2.afterMoves push).queue.pushes = 2 := by decide +kernel
    have hroom : ∀ n < (stored.2.afterMoves push).queue.pushes, n + 1 ≤ 2 ^ 53 := by
      rw [hpushes]
      decide
    have hbodies :
        ("1", Envelope.new "job" .null none) ∈ (stored.2.afterMoves push).queue.bodies := by
      decide +kernel
    have hkept : ¬ (stored.2.afterMoves push).queue.queue.HasLapsed "1" := by
      unfold ExpiringConnection.HasLapsed
      decide +kernel
    obtain ⟨-, h⟩ := cancel_recorded (η := Unit) ExpiringConnection.contract
      ExpiringConnection.records .default hholds' hnew' none
      [.event (.register "job" ⟨"work", ()⟩)] push "1" .epoch
    have hcanceled := (h hok push hroom).2 (by decide +kernel)
    refine ⟨hholds', hnew', by decide +kernel, hok,
      hcanceled.recorded _ hbodies ⟨by decide +kernel, by decide⟩ hkept .epoch, ?_⟩
    unfold ExpiringConnection.HasLapsed
    decide +kernel

/-- A cancelation that succeeds need not be what is recorded: if it comes while the last stage is at
work, and the stage returns a value, the task is reported and recorded as completed. -/
theorem exists_cancel_completed :
    let s := journaled (workingHistory .epoch)
    let s' := (s.cancel "1" .epoch).2.after ((completedHistory .epoch).drop 10)
    (s.cancel "1" .epoch).1 = .ok () ∧
      s'.reports.map (fun x => (x.2.id, x.2.outcome, x.2.status)) =
        [("1", .ok .null, .completed)] ∧
      (s'.queue.queue.get "1").map ResultRecord.status = some .completed := by
  intro s s'
  exact ⟨by decide, by decide, by decide⟩

end Scheduler

end TaskScheduler
