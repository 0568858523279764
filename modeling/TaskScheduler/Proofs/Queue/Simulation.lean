import TaskScheduler.Proofs.Number.Binary64
import TaskScheduler.Proofs.Queue.Calls
import TaskScheduler.Proofs.Queue.Memory
import TaskScheduler.Proofs.Queue.RedisRecord

/-!
# The queue in Redis simulates the queue in memory

The members of the sorted set are the places of the queued tasks, in the same order, and the hash of
a task is at the stage at which the memory has the task.  Every operation keeps this relation and
gives the same answer on both sides.
-/

namespace TaskScheduler.RedisQueue

open Redis

/-! ### The order of the queue -/

/-- `MemoryQueue.idOf` and `idText` write ids in the same way. -/
theorem idOf_eq : MemoryQueue.idOf = idText := rfl

/-- The member of the sorted set for a place in the queue. -/
def memberOf (o : QueueKey × String) : Scored := ⟨o.1.priority.toInt, memberText o.1.seq⟩

/-- The `memberOf` of places are ordered as the places. -/
theorem before_memberOf {o o' : QueueKey × String} (h : o.1.seq < 2 ^ 64) (h' : o'.1.seq < 2 ^ 64) :
    (memberOf o).before (memberOf o') = o.1.before o'.1 := by
  have hseq := before_memberText_iff h h'
  rw [Bool.eq_iff_iff]
  simp only [Scored.before, QueueKey.before, memberOf, Bool.or_eq_true, Bool.and_eq_true,
    decide_eq_true_eq, beq_iff_eq, hseq, Int64.toInt_inj]
  exact or_congr_left decide_eq_true_iff

/-- `insertOrdered` and `insertScored` put a task at the same place on both sides. -/
theorem map_insertOrdered {key : QueueKey} {order : List (QueueKey × String)}
    (hkey : key.seq < 2 ^ 64) (horder : ∀ o ∈ order, o.1.seq < 2 ^ 64) (id : String) :
    (MemoryQueue.insertOrdered key id order).map memberOf =
      Store.insertScored (memberOf (key, id)) (order.map memberOf) := by
  induction order with
  | nil => rfl
  | cons o rest ih =>
    obtain ⟨ho, hrest⟩ := List.forall_mem_cons.1 horder
    rw [List.map_cons]
    unfold MemoryQueue.insertOrdered Store.insertScored
    rw [before_memberOf (o := (key, id)) hkey ho]
    split
    · rfl
    · rw [List.map_cons, ih hrest]

/-- Leaving out the `memberText` of a push leaves out its place. -/
theorem filter_map_memberOf (order : List (QueueKey × String)) (k : Nat) :
    (order.map memberOf).filter (fun x => x.member ≠ memberText k) =
      (order.filter fun o => o.1.seq ≠ k).map memberOf := by
  rw [List.filter_map]
  refine congrArg (List.map memberOf) (List.filter_congr fun o _ => ?_)
  simp only [Function.comp_apply, memberOf, ne_eq, memberText_injective.eq_iff]

/-! ### Ids that are canceled -/

/-- `scriptNumber` takes a number of more than 53 binary digits for another such number, or for zero
when rounding takes it beyond 64 digits. -/
theorem scriptNumber_of_large {n : Nat} (h : 2 ^ 53 ≤ n) (hn : n < 2 ^ 64) :
    scriptNumber n = 0 ∨ 2 ^ 53 ≤ scriptNumber n := by
  obtain ⟨hle, hge⟩ := Binary64.roundNat_bounds h hn
  have hround : Binary64.roundInt n = (Binary64.roundNat n : Int) := by
    unfold Binary64.roundInt
    rw [if_neg (by omega), Int.natAbs_natCast]
  unfold scriptNumber
  rw [hround]
  omega

/-- `scriptRead?` reads an `idText` as its number, unless it has more than 53 binary digits. -/
theorem eq_of_scriptRead?_idText {v k : Nat} (h : scriptRead? (idText v).toList = some k)
    (hpos : 0 < k) (hk : k < 2 ^ 53) : v = k := by
  rcases Nat.lt_or_ge v (2 ^ 53) with hsmall | hlarge
  · rw [scriptRead?_idText hsmall.le] at h
    exact Option.some.inj h
  · have hlist : (idText v).toList = Hex.digits v := String.toList_ofList
    unfold scriptRead? at h
    rw [hlist, Hex.readHex?_digits] at h
    simp only [Bool.false_eq_true, if_false, Option.some.injEq] at h
    split at h
    · rcases scriptNumber_of_large (n := 2 ^ 64 - 1) (by decide) (by decide) with hword | hword
      · omega
      · omega
    · rcases scriptNumber_of_large hlarge (by omega) with hword | hword
      · omega
      · omega

/-! ### The relation -/

/-- What the two queues hold under an id agrees.  The task of the id may have been handed out and
wait for its report. -/
structure Agrees (m : MemoryQueue) (id : String) (fields : FiniteMap Bytes Bytes) (awaited : Prop) :
    Prop where
  /-- A queued task has its body in its hash. -/
  queued : ∀ {key e}, m.queued.get? id = some (key, e) →
    Pending fields "queued" e ∧ Envelope.decode? e.encode = some e
  /-- A task that waits for its report is pending. -/
  waiting : awaited → ∃ e, Pending fields "popped" e
  /-- The record is that of the memory. -/
  record : Reads id fields (m.results.get? id)

/-- The two queues stand at the same point of a run in which the tasks of some ids wait for their
reports. -/
structure Simulates (q : RedisQueue) (m : MemoryQueue) (s : Store)
    (hash : String → FiniteMap Bytes Bytes) (awaited : String → Prop) : Prop where
  /-- The memory is well formed. -/
  memory : m.WellFormed
  /-- Scripts can tell the numbers of the pushes apart. -/
  few : m.seq < 2 ^ 53
  /-- The store shows the places of the queued tasks. -/
  view : Shows q s m.seq (m.order.map memberOf) hash
  /-- The two queues hold the same under every id. -/
  agrees : ∀ id, Agrees m id (hash id) (awaited id)
  /-- An id that was not given yet has no hash. -/
  fresh : ∀ {k}, m.seq < k → hash (idText k) = .empty

variable {q : RedisQueue} {m m' : MemoryQueue} {s s' : Store}
  {hash : String → FiniteMap Bytes Bytes} {awaited awaited' : String → Prop}

/-- `Simulates` holds of two empty queues, with no task that waits for its report. -/
theorem Simulates.empty (q : RedisQueue) :
    Simulates q {} .empty (fun _ => .empty) fun _ => False where
  memory := .empty
  few := by decide
  view := .empty q
  agrees _ := ⟨fun h => absurd h (by simp [FiniteMap.get?_empty]), False.elim,
    reads_none isText_empty rfl⟩
  fresh _ := rfl

/-- `Simulates` holds with fewer tasks that wait for their reports. -/
theorem Simulates.mono (h : Simulates q m s hash awaited) (hsub : ∀ id, awaited' id → awaited id) :
    Simulates q m s hash awaited' where
  memory := h.memory
  few := h.few
  view := h.view
  agrees id := ⟨(h.agrees id).queued, fun hid => (h.agrees id).waiting (hsub id hid),
    (h.agrees id).record⟩
  fresh := h.fresh

/-- An operation that concerns one id keeps `Simulates` when both sides still agree on this id. -/
theorem Simulates.of_task (h : Simulates q m s hash awaited) {id : String}
    {fields : FiniteMap Bytes Bytes} (hmemory : m'.WellFormed) (hfew : m'.seq < 2 ^ 53)
    (hview : Shows q s' m'.seq (m'.order.map memberOf) (Function.update hash id fields))
    (hself : Agrees m' id fields (awaited' id))
    (hqueued : ∀ id', id' ≠ id → m'.queued.get? id' = m.queued.get? id')
    (hresults : ∀ id', id' ≠ id → m'.results.get? id' = m.results.get? id')
    (hawaited : ∀ id', id' ≠ id → awaited' id' → awaited id')
    (hgiven : ∀ k, m'.seq < k → m.seq < k ∧ idText k ≠ id) :
    Simulates q m' s' (Function.update hash id fields) awaited' := by
  refine ⟨hmemory, hfew, hview, fun id' => ?_, fun {k} hk => ?_⟩
  · rcases eq_or_ne id' id with rfl | hne
    · rw [Function.update_self]
      exact hself
    · obtain ⟨hbody, hwaiting, hrecord⟩ := h.agrees id'
      rw [Function.update_of_ne hne]
      exact ⟨fun hget => hbody ((hqueued id' hne).symm.trans hget),
        fun hid => hwaiting (hawaited id' hne hid), (hresults id' hne).symm ▸ hrecord⟩
  · obtain ⟨hk', hne⟩ := hgiven k hk
    rw [Function.update_of_ne hne, h.fresh hk']

/-- A hash that is `Pending` is not empty. -/
theorem Pending.ne_empty {fields : FiniteMap Bytes Bytes} {state : String} {e : Envelope}
    (h : Pending fields state e) : fields ≠ .empty := by
  rintro rfl
  exact absurd h.state (by simp [textAt_empty])

/-- A hash is `Pending` with one state only. -/
theorem Pending.state_eq {fields : FiniteMap Bytes Bytes} {state state' : String} {e e' : Envelope}
    (h : Pending fields state e) (h' : Pending fields state' e') : state = state' :=
  Option.some.inj (h.state.symm.trans h'.state)

/-- On the sides of `Simulates` a task that waits for its report is not queued. -/
theorem Simulates.ne_of_awaited (h : Simulates q m s hash awaited) {id id' : String}
    {key : QueueKey} {e : Envelope} (hqueued : m.queued.get? id = some (key, e))
    (hid : awaited id') : id' ≠ id := by
  rintro rfl
  obtain ⟨e', hpopped⟩ := (h.agrees _).waiting hid
  exact absurd (((h.agrees _).queued hqueued).1.state_eq hpopped) (by decide)

/-- On the sides of `Simulates` an id with a hash that is `Pending` is not one that is to be
given. -/
theorem Simulates.ne_of_fresh (h : Simulates q m s hash awaited) {id state : String} {e : Envelope}
    (hpending : Pending (hash id) state e) {k : Nat} (hk : m.seq < k) : idText k ≠ id := by
  rintro rfl
  exact hpending.ne_empty (h.fresh hk)

/-- On the sides of `Simulates` a task whose hash is `Pending` has no record in memory. -/
theorem Simulates.results_of_pending (h : Simulates q m s hash awaited) {id state : String}
    {e : Envelope} (hpending : Pending (hash id) state e)
    (hstate : ReportStatus.ofName? state = none) : m.results.get? id = none := by
  refine (h.agrees id).record.eq_none hpending.text ?_
  rw [hpending.state, Option.bind_some, hstate]

/-! ### Operations -/

/-- A push gives the same id on both sides and keeps `Simulates`, if the priority has at most 53
binary digits and the body is read back. -/
theorem Simulates.push (h : Simulates q m s hash awaited) (hfew : m.seq + 1 < 2 ^ 53) {e : Envelope}
    {priority : Int64} (hpriority : -2 ^ 53 ≤ priority.toInt ∧ priority.toInt ≤ 2 ^ 53)
    (hbody : Envelope.decode? e.encode = some e) :
    ∃ s' hash', q.push e priority s = (.ok (m.push e priority).1, s') ∧
      Simulates q (m.push e priority).2 s' hash' awaited := by
  obtain ⟨s', hpush, hview⟩ := h.view.push (by omega) e priority
  have hround : Binary64.roundInt priority.toInt = priority.toInt :=
    Binary64.roundInt_eq_self (by omega)
  have hfresh : hash (idText (m.seq + 1)) = .empty := h.fresh (Nat.lt_succ_self _)
  have hothers : (m.order.filter fun o => o.1.seq ≠ m.seq + 1) = m.order := by
    rw [List.filter_eq_self]
    intro o ho
    have hle := (h.memory.ids o ho).2.2
    exact decide_eq_true (by omega)
  have horder : (m.push e priority).2.order.map memberOf =
      Store.insertScored ⟨priority.toInt, memberText (m.seq + 1)⟩ (m.order.map memberOf) := by
    refine map_insertOrdered (by dsimp only; omega) (fun o ho => ?_) _
    have hle := (h.memory.ids o ho).2.2
    have hfew := h.few
    omega
  rw [hround, filter_map_memberOf, hothers, ← horder, hfresh] at hview
  have hpending := Pending.of_push (idText (m.seq + 1)) e
  refine ⟨s', _, hpush, h.of_task (h.memory.push e priority) hfew hview ?_ ?_ ?_ ?_ ?_⟩
  · constructor
    · intro key e' hget
      rw [MemoryQueue.get?_push, idOf_eq, if_pos rfl] at hget
      obtain ⟨-, rfl⟩ := Prod.mk.inj (Option.some.inj hget)
      exact ⟨hpending, hbody⟩
    · intro hid
      obtain ⟨e', hpopped⟩ := (h.agrees _).waiting hid
      exact absurd hfresh hpopped.ne_empty
    · have hrecord := (h.agrees (idText (m.seq + 1))).record
      rw [hfresh] at hrecord
      have hnone : (m.push e priority).2.results.get? (idText (m.seq + 1)) = none :=
        hrecord.eq_none isText_empty rfl
      rw [hnone]
      exact hpending.reads rfl _
  · intro id hne
    rw [MemoryQueue.get?_push, idOf_eq, if_neg hne]
  · exact fun _ _ => rfl
  · exact fun _ _ hid => hid
  · intro k hk
    have hk' : m.seq + 1 < k := hk
    exact ⟨by omega, idText_injective.ne (by omega)⟩

/-- `taken` reads the body of a hash that is `Pending`. -/
theorem Pending.taken_eq {fields : FiniteMap Bytes Bytes} {state : String} {e : Envelope}
    (h : Pending fields state e) (hbody : Envelope.decode? e.encode = some e) (id : String) :
    taken id (fields.get? (Bytes.ofString "data")) = .ok (e.popped id) := by
  obtain ⟨data, hdata, htext⟩ := Option.bind_eq_some_iff.1 h.data
  unfold taken
  rw [hdata]
  dsimp only
  rw [htext]
  dsimp only
  rw [hbody]

/-- A pop hands out the same task on both sides and keeps `Simulates`, where this task waits for its
report from then on. -/
theorem Simulates.pop (h : Simulates q m s hash awaited) (now : Timestamp) :
    ∃ s' hash', q.pop now s = (m.pop.1, s') ∧
      Simulates q m.pop.2 s' hash' fun id =>
        awaited id ∨ ∃ task, m.pop.1 = .ok task ∧ task.id = id := by
  have hview := h.view
  rw [pop_eq]
  cases horder : m.order with
  | nil =>
    rw [horder] at hview
    rw [hview.take_nil, MemoryQueue.pop_nil horder]
    refine ⟨s, hash, rfl, h.mono ?_⟩
    rintro id (hid | ⟨task, htask, -⟩)
    · exact hid
    · exact absurd htask (by simp)
  | cons o rest =>
    have ho : o ∈ m.order := horder ▸ List.mem_cons_self
    obtain ⟨e, hget⟩ := h.memory.bodies o ho
    obtain ⟨hid, hpos, hle⟩ := h.memory.ids o ho
    rw [idOf_eq] at hid
    obtain ⟨hpending, hbody⟩ := (h.agrees _).queued hget
    have hnumber : memberNumber? (memberOf o).member = some o.1.seq := by
      have hfew := h.few
      exact memberNumber?_memberText (by omega)
    rw [horder, List.map_cons] at hview
    obtain ⟨s', htake, hview'⟩ := hview.take_cons hnumber
    rw [← hid, hpending.taken_eq hbody] at htake
    rw [← hid] at hview'
    have hmemory := h.memory.pop
    rw [MemoryQueue.pop_cons horder hget] at hmemory ⊢
    rw [htake]
    refine ⟨s', _, rfl, h.of_task hmemory h.few hview' ?_ ?_ ?_ ?_ ?_⟩
    · constructor
      · intro key e' hget'
        dsimp only at hget'
        rw [FiniteMap.get?_erase_self] at hget'
        exact absurd hget' (by simp)
      · exact fun _ => ⟨e, hpending.pop⟩
      · dsimp only
        rw [h.results_of_pending hpending rfl]
        exact hpending.pop.reads rfl _
    · exact fun _ hne => FiniteMap.get?_erase_of_ne _ hne
    · exact fun _ _ => rfl
    · rintro id hne (hid' | ⟨task, htask, rfl⟩)
      · exact hid'
      · obtain rfl := Except.ok.inj htask
        exact absurd rfl hne
    · exact fun k hk => ⟨hk, h.ne_of_fresh hpending hk⟩

/-- A cancelation takes off the same task on both sides, or none, and keeps `Simulates`. -/
theorem Simulates.cancel (h : Simulates q m s hash awaited) (v : Nat) (memoryNow : Timestamp)
    {now : Timestamp} (httl : q.ttlSecs ≤ Store.maxTtl now.millis)
    (hyear : 0 ≤ now.date.year ∧ now.date.year ≤ 9999) :
    ∃ s' hash', q.cancel (idText v) now s = ((m.cancel (idText v) memoryNow).1, s') ∧
      Simulates q (m.cancel (idText v) memoryNow).2 s' hash' awaited := by
  have hfew := h.few
  cases hget : m.queued.get? (idText v) with
  | none =>
    rw [MemoryQueue.cancel_none hget]
    refine ⟨s, hash, h.view.cancel_notFound ?_ now, h⟩
    intro k hk x hx hxk
    obtain ⟨o, ho, rfl⟩ := List.mem_map.1 hx
    obtain ⟨hid, hpos, hle⟩ := h.memory.ids o ho
    obtain ⟨e, hbody⟩ := h.memory.bodies o ho
    have hseq : o.1.seq = k := memberText_injective hxk
    have hv : v = k := eq_of_scriptRead?_idText hk (by omega) (by omega)
    rw [hid, hseq, ← hv, idOf_eq, hget] at hbody
    exact absurd hbody (by simp)
  | some b =>
    obtain ⟨key, e⟩ := b
    have ho : (key, idText v) ∈ m.order := h.memory.placed hget
    obtain ⟨hid, hpos, hle⟩ := h.memory.id_eq hget
    have hv : v = key.seq := idText_injective hid
    obtain ⟨hpending, hbody⟩ := (h.agrees _).queued hget
    have hread : scriptRead? (idText v).toList = some key.seq := by
      rw [scriptRead?_idText (by omega), hv]
    obtain ⟨answer, s', hcancel, hkept, hview⟩ :=
      h.view.cancel_found hread ⟨memberOf (key, idText v), List.mem_map_of_mem ho, rfl⟩ now
    rw [hkept.eq_ok httl] at hcancel
    rw [filter_map_memberOf, h.memory.filter_seq ho] at hview
    have hmemory := h.memory.cancel (idText v) memoryNow
    rw [MemoryQueue.cancel_some hget] at hmemory ⊢
    refine ⟨s', _, hcancel, h.of_task hmemory h.few hview ?_ ?_ ?_ ?_ ?_⟩
    · constructor
      · intro key' e' hget'
        dsimp only at hget'
        rw [FiniteMap.get?_erase_self] at hget'
        exact absurd hget' (by simp)
      · exact fun hid' => absurd rfl (h.ne_of_awaited hget hid')
      · dsimp only
        rw [FiniteMap.get?_insert_self]
        exact hpending.reads_canceled hbody _ memoryNow hyear
    · exact fun _ hne => FiniteMap.get?_erase_of_ne _ hne
    · exact fun _ hne => FiniteMap.get?_insert_of_ne _ _ hne
    · exact fun _ _ hid' => hid'
    · exact fun k hk => ⟨hk, h.ne_of_fresh hpending hk⟩

/-- A report on a task that waits for it is stored on both sides and keeps `Simulates`. -/
theorem Simulates.report (h : Simulates q m s hash awaited) {r : TaskReport}
    (hawaited : awaited r.id)
    (hresult : ∀ v, r.outcome = .ok v → Json.parse? v.compact = some v) (memoryNow : Timestamp)
    {now : Timestamp} (httl : q.ttlSecs ≤ Store.maxTtl now.millis)
    (hyear : 0 ≤ now.date.year ∧ now.date.year ≤ 9999) :
    ∃ s' hash', q.report r now s = (.ok (), s') ∧
      Simulates q (m.report r memoryNow) s' hash' fun id => awaited id ∧ id ≠ r.id := by
  obtain ⟨e, hpending⟩ := (h.agrees _).waiting hawaited
  obtain ⟨answer, s', hreport, hkept, hview⟩ := h.view.report r now
  rw [hkept.eq_ok httl] at hreport
  refine ⟨s', _, hreport, h.of_task (h.memory.report r memoryNow) h.few hview ?_ ?_ ?_ ?_ ?_⟩
  · constructor
    · intro key e' hget
      exact absurd rfl (h.ne_of_awaited hget hawaited)
    · exact fun hid => absurd rfl hid.2
    · have hrecord : (m.report r memoryNow).results.get? r.id = some (r.toRecord memoryNow) :=
        FiniteMap.get?_insert_self _ _ _
      rw [hrecord]
      exact hpending.reads_reported r hresult memoryNow hyear
  · exact fun _ _ => rfl
  · exact fun _ hne => FiniteMap.get?_insert_of_ne _ _ hne
  · exact fun _ _ hid => hid.1
  · exact fun k hk => ⟨hk, h.ne_of_fresh hpending hk⟩

/-- On the sides of `Simulates` the same record is found, but for the time at which the task
finished. -/
theorem Simulates.get (h : Simulates q m s hash awaited) (id : String) (now : Timestamp) :
    ∃ finishedAt, q.get id now s =
      .ok ((m.get id).map fun r => { r with finishedAt := finishedAt }) := by
  obtain ⟨texts, finishedAt, htexts, hrecord⟩ := (h.agrees id).record now
  refine ⟨finishedAt, ?_⟩
  unfold RedisQueue.get
  rw [h.view.hashes]
  dsimp only
  rw [htexts]
  exact hrecord

/-- The queues on the sides of `Simulates` have the same length. -/
theorem Simulates.len (h : Simulates q m s hash awaited) : q.len s = .ok m.len := by
  rw [h.view.len, List.length_map]
  rfl

end TaskScheduler.RedisQueue
