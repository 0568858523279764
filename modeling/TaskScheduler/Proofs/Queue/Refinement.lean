import Mathlib.Data.List.Induction
import TaskScheduler.Proofs.Queue.Simulation

/-!
# The queue in Redis refines the queue in memory

From empty queues, the same calls get the same answers on both sides, but for the times at which
tasks finished.  The clocks of the two sides need not agree.
-/

namespace TaskScheduler

open QueueCall (run run_concat pushes reportedIds)
open QueueAnswer (poppedIds untimed)

/-! ### The calls -/

/-- The priority of a push has at most 53 binary digits, the id of a cancelation is written as the
queues write ids, and what is stored as JSON is read back from its compact text. -/
def QueueCall.IsPlain : QueueCall → Prop
  | push e priority =>
    (-2 ^ 53 ≤ priority.toInt ∧ priority.toInt ≤ 2 ^ 53) ∧ Envelope.decode? e.encode = some e
  | cancel id _ => ∃ v, id = RedisQueue.idText v
  | report r _ => ∀ v, r.outcome = .ok v → Json.parse? v.compact = some v
  | _ => True

/-- The answers of an empty `MemoryQueue`, and the queue afterwards. -/
def memoryRun (calls : List (QueueCall × Timestamp)) : List QueueAnswer × MemoryQueue :=
  run MemoryQueue.serve {} (calls.map Prod.fst)

/-- The answers of an empty `RedisQueue` whose clock shows the times beside the calls, and the store
afterwards. -/
def redisRun (q : RedisQueue) (calls : List (QueueCall × Timestamp)) :
    List QueueAnswer × Redis.Store :=
  run q.serve .empty (calls.map fun c => c.1.retime c.2)

/-- The calls for which the two queues can be compared. -/
structure Comparable (q : RedisQueue) (calls : List (QueueCall × Timestamp)) : Prop where
  /-- Calls are plain. -/
  plain : ∀ c ∈ calls, c.1.IsPlain
  /-- Numbers of pushes have at most 53 binary digits. -/
  few : pushes (calls.map Prod.fst) < 2 ^ 53
  /-- A report is on a task that was handed out and not reported before. -/
  reports : ∀ before r now t after, calls = before ++ (.report r now, t) :: after →
    r.id ∈ poppedIds (memoryRun before).1 ∧ r.id ∉ reportedIds (before.map Prod.fst)
  /-- The clock shows years of four digits. -/
  clock : ∀ c ∈ calls, 0 ≤ c.2.date.year ∧ c.2.date.year ≤ 9999
  /-- The store accepts the time to live of records at any of the times. -/
  ttl : ∀ c ∈ calls, q.ttlSecs ≤ Redis.Store.maxTtl c.2.millis

variable {q : RedisQueue} {calls : List (QueueCall × Timestamp)}

/-- Without the last one, `Comparable` calls are still comparable. -/
theorem Comparable.of_concat {c : QueueCall × Timestamp} (h : Comparable q (calls ++ [c])) :
    Comparable q calls where
  plain c' hc' := h.plain c' (List.mem_append_left _ hc')
  few := by
    have hfew := h.few
    unfold pushes at hfew ⊢
    rw [List.map_append, List.countP_append] at hfew
    omega
  reports before r now t after heq := by
    refine h.reports before r now t (after ++ [c]) ?_
    rw [heq, List.append_assoc, List.cons_append]
  clock c' hc' := h.clock c' (List.mem_append_left _ hc')
  ttl c' hc' := h.ttl c' (List.mem_append_left _ hc')

/-! ### One call -/

/-- Only a push raises the counter of a `MemoryQueue`, by one. -/
theorem MemoryQueue.seq_serve (m : MemoryQueue) (c : QueueCall) :
    (m.serve c).2.seq = m.seq + pushes [c] := by
  cases c with
  | pop now =>
    change m.pop.2.seq = m.seq
    unfold MemoryQueue.pop
    split
    · rfl
    · split <;> rfl
  | cancel id now =>
    change (m.cancel id now).2.seq = m.seq
    unfold MemoryQueue.cancel
    split <;> rfl
  | _ => rfl

namespace RedisQueue

variable {m : MemoryQueue} {s : Redis.Store} {hash : String → FiniteMap Bytes Bytes}
  {awaited : String → Prop}

/-- One plain call gets the same answer on both sides, but for the time of a record, and keeps
`Simulates`. -/
theorem Simulates.serve (h : Simulates q m s hash awaited) {c : QueueCall} (hplain : c.IsPlain)
    (hfew : m.seq + pushes [c] < 2 ^ 53)
    (hreport : ∀ r now, c = .report r now → awaited r.id) {t : Timestamp}
    (httl : q.ttlSecs ≤ Redis.Store.maxTtl t.millis)
    (hyear : 0 ≤ t.date.year ∧ t.date.year ≤ 9999) :
    (q.serve s (c.retime t)).1.untimed = (m.serve c).1.untimed ∧
    ∃ hash', Simulates q (m.serve c).2 (q.serve s (c.retime t)).2 hash' fun id =>
      (awaited id ∨ id ∈ poppedIds [(m.serve c).1]) ∧ id ∉ reportedIds [c] := by
  cases c with
  | push e priority =>
    obtain ⟨hpriority, hbody⟩ := hplain
    obtain ⟨s', hash', hpush, h'⟩ := h.push hfew hpriority hbody
    have hredis : q.serve s ((QueueCall.push e priority).retime t) =
        (.pushed (.ok (m.push e priority).1), s') := by
      simp only [QueueCall.retime, RedisQueue.serve, hpush]
    have hmemory : m.serve (.push e priority) =
        (.pushed (.ok (m.push e priority).1), (m.push e priority).2) := rfl
    rw [hredis, hmemory]
    refine ⟨rfl, hash', h'.mono fun id hid => ?_⟩
    simpa [poppedIds, reportedIds] using hid
  | pop now =>
    obtain ⟨s', hash', hpop, h'⟩ := h.pop t
    have hredis : q.serve s ((QueueCall.pop now).retime t) = (.popped m.pop.1, s') := by
      simp only [QueueCall.retime, RedisQueue.serve, hpop]
    have hmemory : m.serve (.pop now) = (.popped m.pop.1, m.pop.2) := rfl
    rw [hredis, hmemory]
    refine ⟨rfl, hash', h'.mono fun id hid => ?_⟩
    cases hanswer : m.pop.1 with
    | ok task => simpa [poppedIds, reportedIds, hanswer, eq_comm] using hid
    | error err => simpa [poppedIds, reportedIds, hanswer] using hid
  | cancel id now =>
    obtain ⟨v, rfl⟩ := hplain
    obtain ⟨s', hash', hcancel, h'⟩ := h.cancel v now httl hyear
    have hredis : q.serve s ((QueueCall.cancel (idText v) now).retime t) =
        (.done (m.cancel (idText v) now).1, s') := by
      simp only [QueueCall.retime, RedisQueue.serve, hcancel]
    have hmemory : m.serve (.cancel (idText v) now) =
        (.done (m.cancel (idText v) now).1, (m.cancel (idText v) now).2) := rfl
    rw [hredis, hmemory]
    refine ⟨rfl, hash', h'.mono fun id hid => ?_⟩
    simpa [poppedIds, reportedIds] using hid
  | report r now =>
    obtain ⟨s', hash', hreported, h'⟩ := h.report (hreport r now rfl) hplain now httl hyear
    have hredis : q.serve s ((QueueCall.report r now).retime t) = (.done (.ok ()), s') := by
      simp only [QueueCall.retime, RedisQueue.serve, hreported]
    have hmemory : m.serve (.report r now) = (.done (.ok ()), m.report r now) := rfl
    rw [hredis, hmemory]
    refine ⟨rfl, hash', h'.mono fun id hid => ?_⟩
    simpa [poppedIds, reportedIds] using hid
  | get id now =>
    obtain ⟨finishedAt, hget⟩ := h.get id t
    refine ⟨?_, hash, h.mono fun id hid => ?_⟩
    · simp only [QueueCall.retime, RedisQueue.serve, MemoryQueue.serve, hget, untimed]
      cases m.get id <;> rfl
    · simpa [poppedIds, reportedIds, MemoryQueue.serve] using hid
  | len =>
    refine ⟨?_, hash, h.mono fun id hid => ?_⟩
    · simp only [QueueCall.retime, RedisQueue.serve, MemoryQueue.serve, h.len]
    · simpa [poppedIds, reportedIds, MemoryQueue.serve] using hid
  | isEmpty =>
    refine ⟨?_, hash, h.mono fun id hid => ?_⟩
    · simp only [QueueCall.retime, RedisQueue.serve, MemoryQueue.serve, h.len]
      rfl
    · simpa [poppedIds, reportedIds, MemoryQueue.serve] using hid

end RedisQueue

/-! ### Runs -/

/-- After `Comparable` calls the answers agree but for the times of records, and `Simulates`
holds. -/
theorem Comparable.simulates (h : Comparable q calls) :
    (redisRun q calls).1.map untimed = (memoryRun calls).1.map untimed ∧
    (memoryRun calls).2.seq = pushes (calls.map Prod.fst) ∧
    ∃ hash, RedisQueue.Simulates q (memoryRun calls).2 (redisRun q calls).2 hash fun id =>
      id ∈ poppedIds (memoryRun calls).1 ∧ id ∉ reportedIds (calls.map Prod.fst) := by
  induction calls using List.reverseRecOn with
  | nil =>
    refine ⟨rfl, rfl, _, (RedisQueue.Simulates.empty q).mono fun id hid => ?_⟩
    exact absurd hid.1 (by simp [poppedIds, memoryRun, run])
  | append_singleton calls c ih =>
    obtain ⟨hanswers, hseq, hash, hsim⟩ := ih h.of_concat
    have hmemory : memoryRun (calls ++ [c]) =
        ((memoryRun calls).1 ++ [((memoryRun calls).2.serve c.1).1],
          ((memoryRun calls).2.serve c.1).2) := by
      unfold memoryRun
      rw [List.map_append, List.map_singleton, run_concat]
    have hredis : redisRun q (calls ++ [c]) =
        ((redisRun q calls).1 ++ [(q.serve (redisRun q calls).2 (c.1.retime c.2)).1],
          (q.serve (redisRun q calls).2 (c.1.retime c.2)).2) := by
      unfold redisRun
      rw [List.map_append, List.map_singleton, run_concat]
    have hpushes : pushes ((calls ++ [c]).map Prod.fst) =
        pushes (calls.map Prod.fst) + pushes [c.1] := by
      unfold pushes
      rw [List.map_append, List.countP_append, List.map_singleton]
    have hfew := h.few
    rw [hpushes, ← hseq] at hfew
    have hlast : c ∈ calls ++ [c] := List.mem_append_right _ List.mem_cons_self
    have hreport : ∀ r now, c.1 = .report r now →
        r.id ∈ poppedIds (memoryRun calls).1 ∧ r.id ∉ reportedIds (calls.map Prod.fst) := by
      intro r now hc
      refine h.reports calls r now c.2 [] ?_
      rw [← hc]
    obtain ⟨hanswer, hash', hsim'⟩ :=
      hsim.serve (h.plain c hlast) hfew hreport (h.ttl c hlast) (h.clock c hlast)
    rw [hmemory, hredis, hpushes]
    refine ⟨?_, ?_, hash', hsim'.mono fun id hid => ?_⟩
    · simp only [List.map_append, List.map_singleton, hanswers, hanswer]
    · rw [MemoryQueue.seq_serve, hseq]
    · obtain ⟨hpopped, hreported⟩ := hid
      unfold poppedIds at hpopped ⊢
      unfold reportedIds at hreported ⊢
      rw [List.map_append, List.filterMap_append, List.mem_append, not_or] at hreported
      rw [List.filterMap_append, List.mem_append] at hpopped
      refine ⟨?_, hreported.2⟩
      exact hpopped.imp_left fun hmem => ⟨hmem, hreported.1⟩

/-- `RedisQueue` and `MemoryQueue` give the same answers to `Comparable` calls, but for the times at
which tasks finished. -/
theorem untimed_answers_eq (h : Comparable q calls) :
    (redisRun q calls).1.map untimed = (memoryRun calls).1.map untimed :=
  h.simulates.1

/-- A task is pushed, handed out and reported, and its record is asked for. -/
def oneTaskCalls : List (QueueCall × Timestamp) :=
  [(.push ⟨"echo", .null, none⟩ 0, .epoch), (.pop .epoch, .epoch),
    (.report ⟨"1", "echo", .zero, .ok .null⟩ .epoch, .epoch), (.get "1" .epoch, .epoch)]

/-- `oneTaskCalls` are `Comparable` under the default settings. -/
theorem comparable_oneTaskCalls : Comparable ⟨.default⟩ oneTaskCalls where
  plain := by
    have hbody : Envelope.decode? (Envelope.encode ⟨"echo", .null, none⟩) =
        some ⟨"echo", .null, none⟩ := by decide +kernel
    have hresult : Json.parse? Json.null.compact = some .null := rfl
    have hreport : QueueCall.IsPlain (.report ⟨"1", "echo", .zero, .ok .null⟩ .epoch) := by
      rintro v ⟨⟩
      exact hresult
    unfold oneTaskCalls
    simp only [List.forall_mem_cons, List.not_mem_nil, false_imp_iff, implies_true, and_true]
    exact ⟨⟨by decide, hbody⟩, trivial, hreport, trivial⟩
  few := by decide
  reports := by
    -- the report is the third call
    have hthird : "1" ∈ poppedIds (memoryRun (oneTaskCalls.take 2)).1 ∧
        "1" ∉ reportedIds ((oneTaskCalls.take 2).map Prod.fst) := by decide
    intro before r now t after heq
    match before, heq with
    | [], heq => cases (List.cons.inj heq).1
    | [_], heq => cases (List.cons.inj (List.cons.inj heq).2).1
    | [c₁, c₂], heq =>
      cases heq
      exact hthird
    | [_, _, _], heq => cases heq
    | _ :: _ :: _ :: _ :: before, heq =>
      have hlength := congrArg List.length heq
      simp [oneTaskCalls] at hlength
  clock := by
    unfold oneTaskCalls
    simp only [List.forall_mem_cons, List.not_mem_nil, false_imp_iff, implies_true, and_true]
    decide
  ttl := by
    unfold oneTaskCalls
    simp only [List.forall_mem_cons, List.not_mem_nil, false_imp_iff, implies_true, and_true]
    decide

/-- To `oneTaskCalls` both queues give the same answers but for the times. -/
theorem untimed_answers_eq_oneTaskCalls : Comparable ⟨.default⟩ oneTaskCalls ∧
    (redisRun ⟨.default⟩ oneTaskCalls).1.map untimed = (memoryRun oneTaskCalls).1.map untimed :=
  ⟨comparable_oneTaskCalls, untimed_answers_eq comparable_oneTaskCalls⟩

end TaskScheduler
