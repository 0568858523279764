import TaskScheduler.Proofs.Queue.Accounts
import TaskScheduler.Proofs.Queue.Memory
import TaskScheduler.Queue.Connection

/-!
# What a queue does with ids

A scheduler knows its queue by five operations only.  What it may rely on is written down as a
contract: every push gives a new id and queues it, a pop takes one queued id off, a cancelation
takes off the id that it means or finds that it is not queued, and a report leaves the queued ids
alone.  Both queues keep the contract, the one in Redis as long as scripts can count the pushes and
the connection holds.

A queue with a `Journal` remembers which ids it gave and which left it.  Under the contract every id
that was given is in one place: queued, popped, unreadable, or found by a cancelation.
-/

namespace TaskScheduler

/-- The id that the answer of `pop` takes off the queue, with the task or without. -/
def takenIds : Except QueueError PoppedTask → List String
  | .ok task => [task.id]
  | .error (.corrupt id _) => [id]
  | .error _ => []

/-- A contract about the ids of a queue. -/
structure QueueContract (β : Type) [TaskQueue β] where
  /-- The queue is in order after a number of pushes, and these ids are queued. -/
  Holds : β → Nat → List String → Prop
  /-- There is room for a push after so many others. -/
  HasRoom : Nat → Prop
  /-- The id that the push of a number gives. -/
  name : Nat → String
  /-- The id that a caller of `cancel` means. -/
  means : String → Option String
  /-- Different pushes give different ids. -/
  name_injective : Function.Injective name
  /-- An id that was given means itself. -/
  means_name : ∀ {n}, HasRoom n → means (name (n + 1)) = some (name (n + 1))
  /-- A push queues a new id. -/
  push : ∀ {q n ids}, Holds q n ids → HasRoom n → ∀ e priority, ∃ ids',
    (TaskQueue.push q e priority).1 = .ok (name (n + 1)) ∧
    Holds (TaskQueue.push q e priority).2 (n + 1) ids' ∧ ids'.Perm (name (n + 1) :: ids)
  /-- A pop takes off the id that it answers. -/
  pop : ∀ {q n ids}, Holds q n ids → ∀ now, ∃ ids', Holds (TaskQueue.pop q now).2 n ids' ∧
    ids.Perm (takenIds (TaskQueue.pop q now).1 ++ ids')
  /-- A cancelation finds the id that it means and takes it off, whether or not it can write the
  record after that. -/
  cancel_found : ∀ {q n ids}, Holds q n ids → ∀ {id i}, means id = some i → i ∈ ids → ∀ now,
    ∃ ids', (∀ id', (TaskQueue.cancel q id now).1 ≠ .error (.notFound id')) ∧
      Holds (TaskQueue.cancel q id now).2 n ids' ∧ ids.Perm (i :: ids')
  /-- An id that is not queued is not found, and the queued ones stay. -/
  cancel_notFound : ∀ {q n ids}, Holds q n ids → ∀ {id}, (∀ i, means id = some i → i ∉ ids) →
    ∀ now, (TaskQueue.cancel q id now).1 = .error (.notFound id) ∧
      Holds (TaskQueue.cancel q id now).2 n ids
  /-- A report leaves the queued ids. -/
  report : ∀ {q n ids}, Holds q n ids → ∀ r now, Holds (TaskQueue.report q r now).2 n ids

/-! ### The queue in memory -/

namespace MemoryQueue

variable {m : MemoryQueue}

/-- The ids of the queued tasks, first task first. -/
def queuedIds (m : MemoryQueue) : List String := m.order.map Prod.snd

/-- In a `WellFormed` queue an id is among the `queuedIds` exactly when it has a body. -/
theorem WellFormed.mem_queuedIds_iff (h : m.WellFormed) (id : String) :
    id ∈ m.queuedIds ↔ (m.queued.get? id).isSome = true := by
  unfold queuedIds
  rw [List.mem_map, Option.isSome_iff_exists]
  constructor
  · rintro ⟨o, ho, rfl⟩
    obtain ⟨e, hget⟩ := h.bodies o ho
    exact ⟨_, hget⟩
  · rintro ⟨⟨key, e⟩, hget⟩
    exact ⟨_, h.placed hget, rfl⟩

/-- Leaving out the place of a task leaves the `queuedIds` without its id. -/
theorem WellFormed.queuedIds_perm (h : m.WellFormed) {o : QueueKey × String} (ho : o ∈ m.order) :
    m.queuedIds.Perm (o.2 :: (m.order.filter fun x => x.1 ≠ o.1).map Prod.snd) := by
  have hrest : m.order.erase o = m.order.filter fun x => x.1 ≠ o.1 := by
    rw [h.distinct.of_map.erase_eq_filter]
    refine List.filter_congr fun x hx => ?_
    have hiff : x = o ↔ x.1 = o.1 :=
      ⟨congrArg Prod.fst, fun hkey => h.eq_of_seq hx ho (congrArg QueueKey.seq hkey)⟩
    rw [bne, beq_eq_decide, decide_not, decide_eq_decide.2 hiff]
  rw [← hrest]
  exact (List.perm_cons_erase ho).map Prod.snd

/-- `MemoryQueue` keeps the contract: the `queuedIds` are those of its places, the `n`-th push gives
`idOf n`, and an id means itself. -/
def contract : QueueContract MemoryQueue where
  Holds m n ids := m.WellFormed ∧ m.seq = n ∧ m.queuedIds = ids
  HasRoom _ := True
  name := idOf
  means := some
  name_injective := idOf_injective
  means_name _ := rfl
  push := by
    rintro m n ids ⟨h, rfl, rfl⟩ - e priority
    exact ⟨_, rfl, ⟨h.push e priority, rfl, rfl⟩, (insertOrdered_perm _ _ _).map Prod.snd⟩
  pop := by
    rintro m n ids ⟨h, rfl, rfl⟩ now
    cases horder : m.order with
    | nil =>
      have hpop : TaskQueue.pop m now = (.error .empty, m) := pop_nil horder
      rw [hpop]
      exact ⟨_, ⟨h, rfl, rfl⟩, .refl _⟩
    | cons o rest =>
      obtain ⟨e, hget⟩ := h.bodies o (horder ▸ List.mem_cons_self)
      have hpop : TaskQueue.pop m now =
          (.ok (e.popped o.2), { m with order := rest, queued := m.queued.erase o.2 }) :=
        pop_cons horder hget
      have hwellFormed := h.pop
      rw [pop_cons horder hget] at hwellFormed
      rw [hpop]
      refine ⟨_, ⟨hwellFormed, rfl, rfl⟩, ?_⟩
      unfold queuedIds
      rw [horder]
      exact .refl _
  cancel_found := by
    rintro m n ids ⟨h, rfl, rfl⟩ id i hmeans hi now
    obtain rfl : id = i := Option.some.inj hmeans
    obtain ⟨⟨key, e⟩, hget⟩ := Option.isSome_iff_exists.1 ((h.mem_queuedIds_iff id).1 hi)
    have hwellFormed := h.cancel id now
    rw [cancel_some hget] at hwellFormed
    have hcancel : TaskQueue.cancel m id now = _ := cancel_some hget now
    rw [hcancel]
    exact ⟨_, by simp, ⟨hwellFormed, rfl, rfl⟩, h.queuedIds_perm (h.placed hget)⟩
  cancel_notFound := by
    rintro m n ids ⟨h, rfl, rfl⟩ id hid now
    have hnone : m.queued.get? id = none := by
      rw [← Option.not_isSome_iff_eq_none, ← h.mem_queuedIds_iff]
      exact hid id rfl
    have hcancel : TaskQueue.cancel m id now = (.error (.notFound id), m) := cancel_none hnone now
    rw [hcancel]
    exact ⟨rfl, h, rfl, rfl⟩
  report := by
    rintro m n ids ⟨h, rfl, rfl⟩ r now
    exact ⟨h.report r now, rfl, rfl⟩

/-- An empty `MemoryQueue` keeps the contract. -/
theorem contract_holds_new : contract.Holds {} 0 [] := ⟨.empty, rfl, rfl⟩

end MemoryQueue

/-! ### The queue in Redis -/

namespace RedisConnection

open RedisQueue

/-- `takenIds` of the answer to a pop is what the call has `consumed` in a history of the store. -/
theorem takenIds_eq (client : RedisQueue) (now : Timestamp)
    (answer : Except QueueError PoppedTask) :
    takenIds answer = Served.consumed ⟨client, .pop now, .popped answer⟩ := by
  rcases answer with (_ | _ | _ | _ | _ | _) | _ <;> rfl

/-- A `RedisConnection` that is not lost carries an operation that keeps it to its store. -/
theorem carry_eq {α : Type} {c : RedisConnection} (hc : c.lost = false)
    (f : RedisQueue → Redis.Store → Except QueueError α × Redis.Store) :
    c.carry f = ((f c.queue c.store).1, { c with store := (f c.queue c.store).2 }) := by
  unfold carry
  rw [hc]
  rfl

/-- A push over a `RedisConnection` that is not lost is a `RedisQueue.push` in its store. -/
theorem push_eq {c : RedisConnection} (hc : c.lost = false) (e : Envelope) (priority : Int64) :
    TaskQueue.push c e priority = ((c.queue.push e priority c.store).1,
      { c with store := (c.queue.push e priority c.store).2 }) :=
  carry_eq hc fun q => q.push e priority

/-- A pop over a `RedisConnection` that is not lost is a `RedisQueue.pop` from its store. -/
theorem pop_eq {c : RedisConnection} (hc : c.lost = false) (now : Timestamp) :
    TaskQueue.pop c now = ((c.queue.pop now c.store).1,
      { c with store := (c.queue.pop now c.store).2 }) :=
  carry_eq hc fun q => q.pop now

/-- A cancelation over a `RedisConnection` that is not lost is a `RedisQueue.cancel` in its
store. -/
theorem cancel_eq {c : RedisConnection} (hc : c.lost = false) (id : String) (now : Timestamp) :
    TaskQueue.cancel c id now = ((c.queue.cancel id now c.store).1,
      { c with store := (c.queue.cancel id now c.store).2 }) :=
  carry_eq hc fun q => q.cancel id now

/-- A `RedisConnection` that is not lost carries a report to its store, and is not lost by it if the
hash of the task can be read. -/
theorem report_snd {c : RedisConnection} (hc : c.lost = false) {r : TaskReport}
    {fields : FiniteMap Bytes Bytes} (hreadable : c.store.hash? (c.queue.taskKey r.id) = .ok fields)
    (now : Timestamp) :
    (TaskQueue.report c r now).2 = { c with store := (c.queue.report r now c.store).2 } := by
  change (RedisConnection.report c r now).2 = _
  unfold RedisConnection.report
  rw [carry_eq hc, hreadable, hc]
  rfl

/-- `RedisConnection` keeps the contract while there are at most `2 ^ 53` pushes: the queued ids are
those that the members name, and `scriptRead?` says what an id means. -/
def contract : QueueContract RedisConnection where
  Holds c n ids :=
    c.lost = false ∧ ∃ members, Layout c.queue c.store n members ∧ idsOf members = ids
  HasRoom n := n + 1 ≤ 2 ^ 53
  name := idText
  means := named
  name_injective := idText_injective
  means_name hn := by
    unfold named
    rw [scriptRead?_idText hn]
    rfl
  push := by
    rintro c n ids ⟨hc, members, h, rfl⟩ hn e priority
    obtain ⟨s', members', hpush, h', hperm⟩ := h.push hn e priority
    rw [push_eq hc, hpush]
    exact ⟨_, rfl, ⟨hc, members', h', rfl⟩, hperm⟩
  pop := by
    rintro c n ids ⟨hc, members, h, rfl⟩ now
    obtain ⟨answer, s', members', hpop, h', hids⟩ := h.pop c.queue now
    rw [pop_eq hc, hpop]
    refine ⟨_, ⟨hc, members', h', rfl⟩, ?_⟩
    rw [takenIds_eq c.queue now, hids]
  cancel_found := by
    rintro c n ids ⟨hc, members, h, rfl⟩ id i hmeans hi now
    obtain ⟨answer, s', members', hcancel, hkept, h', hperm⟩ := h.cancel_found hmeans hi now
    rw [cancel_eq hc, hcancel]
    exact ⟨_, hkept.ne_notFound, ⟨hc, members', h', rfl⟩, hperm⟩
  cancel_notFound := by
    rintro c n ids ⟨hc, members, h, rfl⟩ id hid now
    rw [cancel_eq hc, h.cancel_notFound hid now]
    exact ⟨rfl, hc, members, h, rfl⟩
  report := by
    rintro c n ids ⟨hc, members, h, rfl⟩ r now
    obtain ⟨hash, hview, -⟩ := h.view
    rw [report_snd hc (hview.hashes r.id)]
    exact ⟨hc, members, h.report r now, rfl⟩

/-- A new `RedisConnection` to an empty store keeps the contract. -/
theorem contract_holds_new (q : RedisQueue) :
    contract.Holds { queue := q, store := .empty } 0 [] :=
  ⟨rfl, [], Layout.empty q, rfl⟩

end RedisConnection

/-! ### The journal of a queue -/

/-- A queue that remembers the ids it gave, the envelopes it gave them for, and the ids that left
it. -/
structure Journal (β : Type) where
  /-- The queue. -/
  queue : β
  /-- How many pushes there were. -/
  pushes : Nat := 0
  /-- The ids that were given, oldest first. -/
  pushed : List String := []
  /-- The ids that were given, with the envelopes that were pushed under them. -/
  bodies : List (String × Envelope) := []
  /-- The ids of the tasks that were popped, oldest first. -/
  popped : List String := []
  /-- The ids of the tasks that a pop took off and could not read, oldest first. -/
  unreadable : List String := []
  /-- The ids that cancelations found, oldest first and as the callers spelled them. -/
  found : List String := []

namespace Journal

variable {β : Type} [TaskQueue β]

/-- Queue a task, and note its id and its envelope. -/
def push (j : Journal β) (e : Envelope) (priority : Int64) : Except QueueError String × Journal β :=
  match TaskQueue.push j.queue e priority with
  | (.ok id, q) =>
    (.ok id, { j with
      queue := q
      pushes := j.pushes + 1
      pushed := j.pushed ++ [id]
      bodies := j.bodies ++ [(id, e)] })
  | (.error err, q) => (.error err, { j with queue := q, pushes := j.pushes + 1 })

/-- Take the first task off the queue, and note its id. -/
def pop (j : Journal β) (now : Timestamp) : Except QueueError PoppedTask × Journal β :=
  match TaskQueue.pop j.queue now with
  | (.ok task, q) => (.ok task, { j with queue := q, popped := j.popped ++ [task.id] })
  | (.error (.corrupt id reason), q) =>
    (.error (.corrupt id reason), { j with queue := q, unreadable := j.unreadable ++ [id] })
  | (.error err, q) => (.error err, { j with queue := q })

/-- Ask the queue to cancel a task, and note the id unless it was not found. -/
def cancel (j : Journal β) (id : String) (now : Timestamp) : Except QueueError Unit × Journal β :=
  match TaskQueue.cancel j.queue id now with
  | (.error (.notFound id'), q) => (.error (.notFound id'), { j with queue := q })
  | (answer, q) => (answer, { j with queue := q, found := j.found ++ [id] })

instance : TaskQueue (Journal β) where
  ping j := TaskQueue.ping j.queue
  push := push
  pop := pop
  cancel := cancel
  report j r now :=
    let (answer, q) := TaskQueue.report j.queue r now
    (answer, { j with queue := q })

/-- A pop of a `Journal` is one of its queue, and finds nothing. -/
theorem pop_queue (j : Journal β) (now : Timestamp) :
    (TaskQueue.pop j now).2.queue = (TaskQueue.pop j.queue now).2 ∧
      (TaskQueue.pop j now).2.found = j.found := by
  change (j.pop now).2.queue = _ ∧ (j.pop now).2.found = _
  unfold pop
  split <;> next heq => rw [heq]; exact ⟨rfl, rfl⟩

/-- A cancelation of a `Journal` is one of its queue, and finds no other id than its own. -/
theorem cancel_queue (j : Journal β) (id : String) (now : Timestamp) :
    (TaskQueue.cancel j id now).2.queue = (TaskQueue.cancel j.queue id now).2 ∧
      ((TaskQueue.cancel j id now).2.found = j.found ∨
        (TaskQueue.cancel j id now).2.found = j.found ++ [id]) := by
  change (j.cancel id now).2.queue = _ ∧
    ((j.cancel id now).2.found = _ ∨ (j.cancel id now).2.found = _)
  unfold cancel
  split
  next heq => rw [heq]; exact ⟨rfl, .inl rfl⟩
  next heq => rw [heq]; exact ⟨rfl, .inr rfl⟩

/-- A push of a `Journal` is counted and pops nothing. -/
theorem push_frame (j : Journal β) (e : Envelope) (priority : Int64) :
    (TaskQueue.push j e priority).2.pushes = j.pushes + 1 ∧
      (TaskQueue.push j e priority).2.popped = j.popped := by
  change (j.push e priority).2.pushes = _ ∧ (j.push e priority).2.popped = _
  unfold push
  split <;> exact ⟨rfl, rfl⟩

/-- A pop that gives a task notes its id in `Journal.popped`. -/
theorem pop_ok {j : Journal β} {now : Timestamp} {task : PoppedTask}
    (h : (TaskQueue.pop j now).1 = .ok task) :
    (TaskQueue.pop j now).2.pushes = j.pushes ∧
      (TaskQueue.pop j now).2.popped = j.popped ++ [task.id] := by
  change (j.pop now).1 = .ok task at h
  change (j.pop now).2.pushes = _ ∧ (j.pop now).2.popped = _
  unfold pop at h ⊢
  split at h
  next task' q heq =>
    obtain rfl : task' = task := by simpa using h
    exact ⟨rfl, rfl⟩
  next => exact absurd h (by simp)
  next => exact absurd h (by simp)

/-- A pop that gives no task leaves `Journal.popped`. -/
theorem pop_error {j : Journal β} {now : Timestamp} {err : QueueError}
    (h : (TaskQueue.pop j now).1 = .error err) :
    (TaskQueue.pop j now).2.pushes = j.pushes ∧ (TaskQueue.pop j now).2.popped = j.popped := by
  change (j.pop now).1 = .error err at h
  change (j.pop now).2.pushes = _ ∧ (j.pop now).2.popped = _
  unfold pop at h ⊢
  split at h
  next => exact absurd h (by simp)
  next => exact ⟨rfl, rfl⟩
  next => exact ⟨rfl, rfl⟩

/-- A cancelation leaves `Journal.pushes` and `Journal.popped`. -/
theorem cancel_frame (j : Journal β) (id : String) (now : Timestamp) :
    (TaskQueue.cancel j id now).2.pushes = j.pushes ∧
      (TaskQueue.cancel j id now).2.popped = j.popped := by
  change (j.cancel id now).2.pushes = _ ∧ (j.cancel id now).2.popped = _
  unfold cancel
  split <;> exact ⟨rfl, rfl⟩

/-- A `Journal` answers a cancelation as its queue does. -/
theorem cancel_fst (j : Journal β) (id : String) (now : Timestamp) :
    (TaskQueue.cancel j id now).1 = (TaskQueue.cancel j.queue id now).1 := by
  change (j.cancel id now).1 = _
  unfold cancel
  split
  next heq => rw [heq]
  next heq => rw [heq]

/-- The queue keeps the contract, and every id that was given is in one place: it is queued, or it
was popped, or found by a cancelation, or it is unreadable. -/
structure Traced (C : QueueContract β) (j : Journal β) (ids : List String) : Prop where
  /-- These ids are queued. -/
  holds : C.Holds j.queue j.pushes ids
  /-- The ids are given in a row. -/
  pushed : j.pushed = (List.range' 1 j.pushes).map C.name
  /-- Every id has one place. -/
  placed : j.pushed.Perm (ids ++ (j.popped ++ (j.found.filterMap C.means ++ j.unreadable)))

variable {C : QueueContract β} {j : Journal β} {ids : List String}

/-- A queue that keeps the contract without any push starts a `Traced` journal. -/
theorem traced_start {queue : β} (h : C.Holds queue 0 []) :
    ({ queue := queue } : Journal β).Traced C [] :=
  ⟨h, rfl, .refl _⟩

/-- A push keeps the journal `Traced`: it puts a new id among the queued ones. -/
theorem Traced.push (h : j.Traced C ids) (hroom : C.HasRoom j.pushes) (e : Envelope)
    (priority : Int64) : ∃ ids', (j.push e priority).2.Traced C ids' := by
  obtain ⟨ids', hanswer, hholds, hids⟩ := C.push h.holds hroom e priority
  unfold Journal.push
  generalize TaskQueue.push j.queue e priority = result at hanswer hholds
  obtain ⟨answer, q⟩ := result
  dsimp only at hanswer hholds
  subst hanswer
  refine ⟨ids', hholds, ?_, ?_⟩
  · dsimp only
    rw [h.pushed, List.range'_1_concat, List.map_append, Nat.add_comm 1]
    rfl
  · dsimp only
    refine (List.perm_append_singleton _ _).trans ((h.placed.cons _).trans ?_)
    exact (hids.symm.append_right _)

/-- A pop keeps the journal `Traced`: it takes an id from the queued ones and puts it among those
that it handed out or could not read. -/
theorem Traced.pop (h : j.Traced C ids) (now : Timestamp) :
    ∃ ids', (j.pop now).2.Traced C ids' := by
  obtain ⟨ids', hholds, hids⟩ := C.pop h.holds now
  have hplaced := h.placed.trans (hids.append_right _)
  unfold Journal.pop
  generalize TaskQueue.pop j.queue now = result at hholds hplaced
  obtain ⟨answer, q⟩ := result
  refine ⟨ids', ?_⟩
  split
  next task q' heq =>
    obtain ⟨rfl, rfl⟩ := Prod.mk.inj heq
    refine ⟨hholds, h.pushed, hplaced.trans (List.perm_iff_count.2 fun x => ?_)⟩
    simp only [takenIds, List.count_append]
    omega
  next id reason q' heq =>
    obtain ⟨rfl, rfl⟩ := Prod.mk.inj heq
    refine ⟨hholds, h.pushed, hplaced.trans (List.perm_iff_count.2 fun x => ?_)⟩
    simp only [takenIds, List.count_append]
    omega
  next err q' hreadable heq =>
    obtain ⟨rfl, rfl⟩ := Prod.mk.inj heq
    have hnone : takenIds (.error err) = [] := by
      unfold takenIds
      split <;> simp_all
    rw [hnone] at hplaced
    exact ⟨hholds, h.pushed, hplaced⟩

/-- A cancelation keeps the journal `Traced`: it moves the id that it means, if this is queued. -/
theorem Traced.cancel (h : j.Traced C ids) (id : String) (now : Timestamp) :
    ∃ ids', (j.cancel id now).2.Traced C ids' := by
  by_cases hqueued : ∃ i, C.means id = some i ∧ i ∈ ids
  · obtain ⟨i, hmeans, hi⟩ := hqueued
    obtain ⟨ids', hfound, hholds, hids⟩ := C.cancel_found h.holds hmeans hi now
    have hplaced := h.placed.trans (hids.append_right _)
    unfold Journal.cancel
    generalize TaskQueue.cancel j.queue id now = result at hfound hholds
    obtain ⟨answer, q⟩ := result
    refine ⟨ids', ?_⟩
    split
    next id' q' heq => exact absurd (Prod.mk.inj heq).1 (hfound id')
    next answer' q' _ heq =>
      obtain ⟨rfl, rfl⟩ := Prod.mk.inj heq
      refine ⟨hholds, h.pushed, hplaced.trans (List.perm_iff_count.2 fun x => ?_)⟩
      have hmoved : [id].filterMap C.means = [i] := by simp [hmeans]
      simp only [List.filterMap_append, hmoved, List.cons_append, List.count_cons,
        List.count_append, List.count_nil]
      omega
  · have hnone : ∀ i, C.means id = some i → i ∉ ids := fun i hi hmem => hqueued ⟨i, hi, hmem⟩
    obtain ⟨hanswer, hholds⟩ := C.cancel_notFound h.holds hnone now
    unfold Journal.cancel
    generalize TaskQueue.cancel j.queue id now = result at hanswer hholds
    obtain ⟨answer, q⟩ := result
    dsimp only at hanswer hholds
    subst hanswer
    exact ⟨ids, hholds, h.pushed, h.placed⟩

/-- A report keeps the journal `Traced` with the same queued ids. -/
theorem Traced.report (h : j.Traced C ids) (r : TaskReport) (now : Timestamp) :
    (TaskQueue.report j r now).2.Traced C ids :=
  ⟨C.report h.holds r now, h.pushed, h.placed⟩

/-- In a `Traced` journal no id was given twice. -/
theorem Traced.nodup_pushed (h : j.Traced C ids) : j.pushed.Nodup := by
  rw [h.pushed]
  exact (List.nodup_range' 1).map C.name_injective

/-- In a `Traced` journal no id was popped twice. -/
theorem Traced.nodup_popped (h : j.Traced C ids) : j.popped.Nodup := by
  have hnodup := h.placed.nodup_iff.1 h.nodup_pushed
  exact (List.nodup_append.1 (List.nodup_append.1 hnodup).2.1).1

/-- In a `Traced` journal what was popped could be read. -/
theorem Traced.not_mem_unreadable (h : j.Traced C ids) {id : String} (hid : id ∈ j.popped) :
    id ∉ j.unreadable := by
  have hnodup := h.placed.nodup_iff.1 h.nodup_pushed
  intro hunreadable
  exact (List.nodup_append.1 (List.nodup_append.1 hnodup).2.1).2.2 id hid id
    (List.mem_append_right _ hunreadable) rfl

/-- An id that was given means itself, as long as there was room for every push. -/
theorem Traced.means_of_mem (h : j.Traced C ids) (hroom : ∀ n < j.pushes, C.HasRoom n) {id : String}
    (hid : id ∈ j.pushed) : C.means id = some id := by
  rw [h.pushed] at hid
  obtain ⟨n, hn, rfl⟩ := List.mem_map.1 hid
  rw [List.mem_range'_1] at hn
  obtain ⟨k, rfl⟩ : ∃ k, n = k + 1 := ⟨n - 1, by omega⟩
  exact C.means_name (hroom k (by omega))

/-- The cancelation of an id that was given and that no cancelation found is answered with
`notFound` exactly if the id was popped, with its task or as unreadable. -/
theorem Traced.cancel_eq_notFound_iff (h : j.Traced C ids) (hroom : ∀ n < j.pushes, C.HasRoom n)
    {id : String} (hid : id ∈ j.pushed) (hfound : ∀ id' ∈ j.found, C.means id' ≠ some id)
    (now : Timestamp) :
    (TaskQueue.cancel j id now).1 = .error (.notFound id) ↔ id ∈ j.popped ∨ id ∈ j.unreadable := by
  have hmeans : C.means id = some id := h.means_of_mem hroom hid
  have hnodup := h.placed.nodup_iff.1 h.nodup_pushed
  have hmem := (h.placed.mem_iff (a := id)).1 hid
  have hcanceled : id ∉ j.found.filterMap C.means := by
    intro hmem
    obtain ⟨id', hid', heq⟩ := List.mem_filterMap.1 hmem
    exact hfound id' hid' heq
  rw [cancel_fst]
  by_cases hqueued : id ∈ ids
  · obtain ⟨ids', hanswer, -⟩ := C.cancel_found h.holds hmeans hqueued now
    have hother : id ∉ j.popped ++ (j.found.filterMap C.means ++ j.unreadable) :=
      fun hgone => (List.nodup_append.1 hnodup).2.2 id hqueued id hgone rfl
    refine iff_of_false (hanswer id) ?_
    rintro (hpopped | hunreadable)
    · exact hother (List.mem_append_left _ hpopped)
    · exact hother (List.mem_append_right _ (List.mem_append_right _ hunreadable))
  · have hnone : ∀ i, C.means id = some i → i ∉ ids := by
      intro i hi
      rwa [← Option.some.inj (hmeans.symm.trans hi)]
    refine iff_of_true (C.cancel_notFound h.holds hnone now).1 ?_
    simpa [hqueued, hcanceled] using hmem

end Journal

end TaskScheduler
