import TaskScheduler.Proofs.Queue.Payload
import TaskScheduler.Proofs.Scheduler.HandOver
import TaskScheduler.Proofs.Scheduler.StageEntry

/-!
# Timeouts on their way to a run

A producer asks for a timeout, the envelope keeps it in whole milliseconds of a 64-bit word, and the
worker of the task makes the deadline of the run out of what comes back.  Empty timeouts are left
out twice: before the timeout is cut to milliseconds, and after it.  So a timeout below a
millisecond passes the first and not the second, and one whose milliseconds do not fit the word
comes back as what is left of them.

An envelope goes through both queues as it is: no call writes in its place as long as the id is not
given again, and the reader of a body finds the timeout whatever the payload is.
-/

namespace TaskScheduler

/-! ### In whole milliseconds -/

/-- What comes back of a timeout: its milliseconds modulo `2 ^ 64`, and nothing when that is
zero. -/
def Duration.kept (t : Duration) : Option Duration :=
  if t.millis = 0 then none else some (.ofMillis t.millis)

/-- `Envelope.timeout` of a new envelope is what `Duration.kept` leaves of the timeout that was
asked for. -/
theorem Envelope.timeout_new (taskType : String) (data : Json) (requested : Option Duration) :
    (Envelope.new taskType data requested).timeout = requested.bind Duration.kept := by
  cases requested with
  | none => rfl
  | some t =>
    rw [Option.bind_some, Duration.kept]
    unfold Envelope.new Envelope.timeout
    dsimp only
    rw [Option.filter_some]
    cases hzero : t.isZero with
    | true =>
      have hnanos : t.nanos = 0 := of_decide_eq_true hzero
      simp [Duration.millis, hnanos]
    | false =>
      by_cases hmillis : t.millis = 0 <;> simp [hmillis]

/-- `Duration.millis` as a number: the whole milliseconds modulo `2 ^ 64`. -/
theorem Duration.toNat_millis (t : Duration) : t.millis.toNat = t.nanos / 10 ^ 6 % 2 ^ 64 :=
  UInt64.toNat_ofNat'

/-- `Duration.kept` leaves nothing of a timeout exactly if its milliseconds vanish modulo `2 ^
64`. -/
theorem Duration.kept_eq_none_iff (t : Duration) :
    t.kept = none ↔ t.nanos / 10 ^ 6 % 2 ^ 64 = 0 := by
  rw [← t.toNat_millis, kept, ite_eq_left_iff, ← UInt64.toNat_inj]
  simp

/-- What `Duration.kept` leaves of a timeout is not empty. -/
theorem Duration.isZero_of_kept {t d : Duration} (h : t.kept = some d) : d.isZero = false := by
  unfold kept at h
  split at h
  next => cases h
  next hmillis =>
    have hne : t.millis.toNat ≠ 0 := fun hzero => hmillis (UInt64.toNat_inj.1 hzero)
    rw [← Option.some.inj h, isZero, decide_eq_false_iff_not]
    exact Nat.mul_ne_zero hne (by decide)

/-- `Duration.kept` leaves a timeout, cut by less than a millisecond, exactly if it has at least one
and fewer than `2 ^ 64`. -/
theorem Duration.kept_close_iff (t : Duration) :
    (∃ d, t.kept = some d ∧ d.nanos ≤ t.nanos ∧ t.nanos - d.nanos < 10 ^ 6) ↔
      10 ^ 6 ≤ t.nanos ∧ t.nanos < 2 ^ 64 * 10 ^ 6 := by
  have hmillis := t.toNat_millis
  have hnanos : (ofMillis t.millis).nanos = t.millis.toNat * 10 ^ 6 := rfl
  constructor
  · rintro ⟨d, hd, hle, hclose⟩
    have hsome := t.kept_eq_none_iff
    rw [hd] at hsome
    unfold kept at hd
    split at hd
    next => cases hd
    next =>
      rw [← Option.some.inj hd, hnanos, hmillis] at hclose
      simp only [reduceCtorEq, false_iff] at hsome
      omega
  · rintro ⟨hlow, hhigh⟩
    have hne : t.kept ≠ none := by
      rw [ne_eq, kept_eq_none_iff]
      omega
    unfold kept at hne ⊢
    split
    next hzero => exact absurd (if_pos hzero) hne
    next => exact ⟨_, rfl, by omega, by omega⟩

/-! ### Through the queue in memory -/

namespace MemoryQueue

variable {m : MemoryQueue} {id : String} {e : Envelope}

/-- Every call keeps a queue in memory `WellFormed`. -/
theorem WellFormed.serve (h : m.WellFormed) (c : QueueCall) : (m.serve c).2.WellFormed := by
  cases c with
  | push e priority => exact h.push e priority
  | pop now => exact h.pop
  | cancel id now => exact h.cancel id now
  | report r now => exact h.report r now
  | _ => exact h

/-- Any number of calls keep a queue in memory `WellFormed`. -/
theorem WellFormed.run (h : m.WellFormed) (calls : List QueueCall) :
    (QueueCall.run MemoryQueue.serve m calls).2.WellFormed := by
  induction calls generalizing m with
  | nil => exact h
  | cons c calls ih => exact ih (h.serve c)

/-- An id was given, and if a task is queued under it, its body is this envelope. -/
structure Carries (m : MemoryQueue) (id : String) (e : Envelope) : Prop where
  /-- The queue is in order. -/
  wellFormed : m.WellFormed
  /-- The id was given. -/
  given : ∃ n ≤ m.seq, id = idOf n
  /-- The body of the id. -/
  body : ∀ {key e'}, m.queued.get? id = some (key, e') → e' = e

/-- After a push the queue `Carries` the envelope under the id that was given. -/
theorem WellFormed.carries_push (h : m.WellFormed) (e : Envelope) (priority : Int64) :
    (m.push e priority).2.Carries (m.push e priority).1 e where
  wellFormed := h.push e priority
  given := ⟨m.seq + 1, Nat.le_refl _, rfl⟩
  body hget := by
    have hid : (m.push e priority).1 = idOf (m.seq + 1) := rfl
    rw [get?_push, if_pos hid] at hget
    exact (Prod.mk.inj (Option.some.inj hget)).2.symm

/-- A queue that `Carries` an envelope does so after a body is taken off, this one or another. -/
theorem Carries.of_erase (h : m.Carries id e) {m' : MemoryQueue} (hm' : m'.WellFormed)
    (hseq : m'.seq = m.seq) {id' : String} (hqueued : m'.queued = m.queued.erase id') :
    m'.Carries id e := by
  refine ⟨hm', by rw [hseq]; exact h.given, fun hget => ?_⟩
  rw [hqueued, FiniteMap.get?_erase] at hget
  split at hget
  · cases hget
  · exact h.body hget

/-- A push, which gives another id, leaves what the queue `Carries`. -/
theorem Carries.push (h : m.Carries id e) (e' : Envelope) (priority : Int64) :
    (m.push e' priority).2.Carries id e := by
  obtain ⟨n, hn, hid⟩ := h.given
  refine ⟨h.wellFormed.push e' priority, ⟨n, Nat.le_succ_of_le hn, hid⟩, fun hget => ?_⟩
  have hne : id ≠ idOf (m.seq + 1) := by
    rw [hid]
    exact fun heq => absurd (idOf_injective heq) (by omega)
  rw [get?_push, if_neg hne] at hget
  exact h.body hget

/-- A pop takes a body off, this one or another, and leaves what the queue `Carries`. -/
theorem Carries.pop (h : m.Carries id e) : m.pop.2.Carries id e := by
  have hm' := h.wellFormed.pop
  cases horder : m.order with
  | nil =>
    rw [pop_nil horder]
    exact h
  | cons o rest =>
    obtain ⟨e', hget⟩ := h.wellFormed.bodies o (horder ▸ List.mem_cons_self)
    rw [pop_cons horder hget] at hm' ⊢
    exact h.of_erase hm' rfl rfl

/-- A cancelation takes a body off, this one or another, or finds none, and leaves what the queue
`Carries`. -/
theorem Carries.cancel (h : m.Carries id e) (id' : String) (now : Timestamp) :
    (m.cancel id' now).2.Carries id e := by
  have hm' := h.wellFormed.cancel id' now
  cases hget : m.queued.get? id' with
  | none =>
    rw [cancel_none hget]
    exact h
  | some b =>
    obtain ⟨key, e'⟩ := b
    rw [cancel_some hget] at hm' ⊢
    exact h.of_erase hm' rfl rfl

/-- No call puts another body in the place of one that the queue `Carries`. -/
theorem Carries.serve (h : m.Carries id e) (c : QueueCall) : (m.serve c).2.Carries id e := by
  cases c with
  | push e' priority => exact h.push e' priority
  | pop now => exact h.pop
  | cancel id' now => exact h.cancel id' now
  | report r now => exact ⟨h.wellFormed.report r now, h.given, h.body⟩
  | _ => exact h

/-- However many calls there are, none puts another body in the place of one that the queue
`Carries`. -/
theorem Carries.run (h : m.Carries id e) (calls : List QueueCall) :
    (QueueCall.run MemoryQueue.serve m calls).2.Carries id e := by
  induction calls generalizing m with
  | nil => exact h
  | cons c calls ih => exact ih (h.serve c)

/-- A pop hands out the envelope that the queue `Carries` for the id. -/
theorem Carries.pop_fst (h : m.Carries id e) {p : PoppedTask} (hpop : m.pop.1 = .ok p)
    (hid : p.id = id) : p = e.popped id := by
  cases horder : m.order with
  | nil =>
    rw [pop_nil horder] at hpop
    cases hpop
  | cons o rest =>
    obtain ⟨e', hget⟩ := h.wellFormed.bodies o (horder ▸ List.mem_cons_self)
    rw [pop_cons horder hget] at hpop
    obtain rfl := Except.ok.inj hpop
    obtain rfl : o.2 = id := hid
    rw [h.body hget]

end MemoryQueue

/-! ### Through the queue in Redis -/

namespace RedisQueue

open Redis

variable {q client : RedisQueue} {id : String} {now : Timestamp}

/-- Whatever the payload is, a body that `taken` can read has the timeout of its envelope. -/
theorem timeout_of_taken {e : Envelope} {p : PoppedTask}
    (h : taken id (some (Bytes.ofString e.encode)) = .ok p) : p.timeout = e.timeout := by
  unfold taken at h
  dsimp only at h
  rw [Bytes.toString?_ofString] at h
  dsimp only at h
  rw [e.decode?_encode_eq] at h
  cases hdata : e.data.form.value? Json.memberDepth with
  | none =>
    rw [hdata] at h
    cases h
  | some data =>
    rw [hdata] at h
    obtain rfl := Except.ok.inj h
    rfl

/-- After a push the store holds the queue with the body of the task. -/
theorem HoldsQueueWith.bodyOf_push {P : List Scored → (String → FiniteMap Bytes Bytes) → Prop}
    {s s' : Store} (h : HoldsQueueWith P q s) (hlast : IsLasting P) {e : Envelope}
    {priority : Int64} (hpush : q.push e priority s = (.ok id, s')) :
    q.bodyOf s' id = .ok (some (Bytes.ofString e.encode)) ∧ HoldsQueueWith P q s' := by
  constructor
  · obtain ⟨n, members, hash, hkeeps, -⟩ := h
    rcases hkeeps.bodyOf_push e priority with ⟨err, herror⟩ | ⟨id', s₁, hok, hbody, -⟩
    · cases hpush.symm.trans herror
    · cases hpush.symm.trans hok
      exact hbody
  · have hserve := h.serve hlast (.push e priority)
    simpa only [RedisQueue.serve, hpush] using hserve

/-- Clients of one prefix push a task and pop it later, and the id is not given again in between.
Then the popped task has the timeout of its envelope. -/
theorem timeout_of_pop {before between : List Event} {e : Envelope} {priority : Int64} {s₁ : Store}
    {p : PoppedTask}
    (hclients : ∀ e ∈ before ++ between, ∀ client, e.client? = some client →
      client.config.keyPrefix = q.config.keyPrefix)
    (hclient : client.config.keyPrefix = q.config.keyPrefix)
    (hpush : q.push e priority (history .empty before).2 = (.ok id, s₁))
    (hfresh : id ∉ pushedIds (history s₁ between).1)
    (hpop : (client.pop now (history s₁ between).2).1 = .ok p) (hid : p.id = id) :
    p.timeout = e.timeout := by
  obtain ⟨hbefore, hafter⟩ := List.forall_mem_append.1 hclients
  obtain ⟨hbody, hpushed⟩ :=
    (holdsQueueWith_isSound hbefore).bodyOf_push isLasting_isSound hpush
  have hlast := hpushed.bodyOf_history isLasting_isSound hafter hfresh
  have hreached := (hpushed.history isLasting_isSound hafter).of_keyPrefix hclient
  have hconsumed : id ∈ Served.consumed
      ⟨client, .pop now, .popped (client.pop now (history s₁ between).2).1⟩ := by
    rw [hpop]
    exact hid ▸ List.mem_singleton_self _
  obtain ⟨data, hdata, htaken⟩ := hreached.pop_fst_eq hconsumed
  rw [bodyOf_of_keyPrefix hclient, hlast, hbody] at hdata
  split at hdata
  · obtain rfl := Except.ok.inj hdata
    cases hpop.symm.trans htaken
  · obtain rfl := Except.ok.inj hdata
    exact timeout_of_taken (htaken.symm.trans hpop)

end RedisQueue

/-- An operation of `RedisConnection.carry` that succeeded is one of the queue on the store. -/
theorem RedisConnection.of_carry_ok {α : Type} {c c' : RedisConnection} {a : α}
    {f : RedisQueue → Redis.Store → Except QueueError α × Redis.Store}
    (h : c.carry f = (.ok a, c')) : f c.queue c.store = (.ok a, c'.store) := by
  unfold carry at h
  split at h
  · cases h
  · generalize f c.queue c.store = result at h ⊢
    obtain ⟨answer, store⟩ := result
    cases h
    rfl

/-! ### From a producer to a worker -/

namespace Scheduler

variable {β η : Type} [TaskQueue β]

/-- `push` succeeds exactly if the type is known and the queue takes the envelope. -/
theorem push_eq_ok_iff {s s' : Scheduler β η} {taskType id : String} {data : Json}
    {requested : Option Duration} {priority : Option Int64} :
    s.push taskType data requested priority = (.ok id, s') ↔
      s.pipelines.contains taskType = true ∧ ∃ queue,
        TaskQueue.push s.queue (.new taskType data requested)
          (priority.getD s.config.defaultPriority) = (.ok id, queue) ∧
        s' = { s with queue := queue } := by
  unfold push
  dsimp only
  generalize TaskQueue.push s.queue (.new taskType data requested)
    (priority.getD s.config.defaultPriority) = result
  obtain ⟨answer | answer, queue⟩ := result
  · split <;> simp [Except.mapError]
  · split
    next hknown => simp [Except.mapError, hknown, eq_comm]
    next hknown => simp [hknown]

/-- No worker makes a context without a deadline for a task that was popped like this. -/
def RunsByDeadline (p : PoppedTask) : Prop :=
  ∀ (β η : Type) [TaskQueue β] (config : SchedulerConfig) (queue : β) (metrics : Option Metrics)
    (moves : List (Move η)) (r : TaskRef) (t : Task η) (c : Context),
    ((new config queue metrics).afterMoves moves).task? r = some t → t.popped = p →
    (new config queue metrics).RunsUnder moves r c → c.deadline.isSome = true

/-- A task that was popped with a timeout which is not empty `RunsByDeadline`. -/
theorem runsByDeadline_of_timeout {p : PoppedTask} {d : Duration} (hp : p.timeout = some d)
    (hd : d.isZero = false) : RunsByDeadline p := by
  rintro β η _ config queue metrics moves r t c ht hpopped ⟨before, after, t₀, rfl, ht₀, -, hc⟩
  have htidy := tidy_afterMoves (η := η) config queue metrics before
  obtain ⟨t', ht', hfollows⟩ :=
    follows_afterMoves htidy (.event (.stepTask r) :: after) r t₀ ht₀
  rw [← afterMoves_append] at ht'
  obtain rfl : t = t' := Option.some.inj (ht.symm.trans ht')
  have htimeout : t₀.popped.timeout = some d := by
    rw [← hfollows.popped, hpopped, hp]
  rw [← hc, htimeout]
  unfold ContextStore.childOf
  rw [Option.filter_some, hd]
  rfl

end Scheduler

/-- A task that a producer had a scheduler queue with a timeout, as it is popped later.  Before that
and in between anybody may have used the queue. -/
inductive Delivered (η : Type) (requested : Option Duration) (p : PoppedTask) : Prop
  /-- The scheduler has a queue in memory. -/
  | memory {s s' : Scheduler MemoryQueue η} {before between : List QueueCall} {taskType id : String}
      {data : Json} {priority : Option Int64}
      (hqueue : s.queue = (QueueCall.run MemoryQueue.serve {} before).2)
      (hpush : s.push taskType data requested priority = (.ok id, s'))
      (hpop : (QueueCall.run MemoryQueue.serve s'.queue between).2.pop.1 = .ok p) (hid : p.id = id)
  /-- The scheduler has a queue in Redis, and shares it with clients of its prefix.  The id is not
  given again in between. -/
  | redis {s s' : Scheduler RedisConnection η} {before between : List RedisQueue.Event}
      {taskType id : String} {data : Json} {priority : Option Int64} {client : RedisQueue}
      {now : Timestamp}
      (hclients : ∀ e ∈ before ++ between, ∀ client, e.client? = some client →
        client.config.keyPrefix = s.queue.queue.config.keyPrefix)
      (hclient : client.config.keyPrefix = s.queue.queue.config.keyPrefix)
      (hstore : s.queue.store = (RedisQueue.history .empty before).2)
      (hpush : s.push taskType data requested priority = (.ok id, s'))
      (hfresh : id ∉ RedisQueue.pushedIds (RedisQueue.history s'.queue.store between).1)
      (hpop : (client.pop now (RedisQueue.history s'.queue.store between).2).1 = .ok p)
      (hid : p.id = id)

/-- A task that is `Delivered` has what `Duration.kept` leaves of the timeout that its producer
asked for. -/
theorem Delivered.timeout_eq {η : Type} {requested : Option Duration} {p : PoppedTask}
    (h : Delivered η requested p) : p.timeout = requested.bind Duration.kept := by
  cases h with
  | @memory s s' before between taskType id data priority hqueue hpush hpop hid =>
    obtain ⟨-, queue, hpushed, rfl⟩ := Scheduler.push_eq_ok_iff.1 hpush
    have hstart : s.queue.WellFormed := hqueue ▸ MemoryQueue.WellFormed.empty.run before
    have hcarries := hstart.carries_push (.new taskType data requested)
      (priority.getD s.config.defaultPriority)
    obtain ⟨hid', rfl⟩ := Prod.mk.inj hpushed
    obtain rfl := Except.ok.inj hid'
    rw [(hcarries.run between).pop_fst hpop hid, ← Envelope.timeout_new taskType data requested]
    rfl
  | @redis s s' before between taskType id data priority client now hclients hclient hstore hpush
      hfresh hpop hid =>
    obtain ⟨-, connection, hpushed, rfl⟩ := Scheduler.push_eq_ok_iff.1 hpush
    have hcarried := RedisConnection.of_carry_ok (c := s.queue)
      (f := fun q => q.push (.new taskType data requested)
        (priority.getD s.config.defaultPriority)) hpushed
    rw [hstore] at hcarried
    rw [RedisQueue.timeout_of_pop hclients hclient hcarried hfresh hpop hid, Envelope.timeout_new]

/-- A timeout is kept: without one, or with an empty one, the task has none, and of any other less
than a millisecond is lost, and the task runs by a deadline. -/
structure KeepsTimeout (requested : Option Duration) (p : PoppedTask) : Prop where
  /-- Without a timeout there is none. -/
  empty : (∀ t ∈ requested, t.isZero = true) → p.timeout = none
  /-- A timeout is cut by less than a millisecond. -/
  close : ∀ t ∈ requested, t.isZero = false →
    ∃ d, p.timeout = some d ∧ d.nanos ≤ t.nanos ∧ t.nanos - d.nanos < 10 ^ 6
  /-- A task with a timeout runs by a deadline. -/
  deadline : ∀ t ∈ requested, t.isZero = false → Scheduler.RunsByDeadline p

/-- For a task that is `Delivered`, `KeepsTimeout` holds exactly if the timeout is empty, or has at
least one millisecond and fewer than `2 ^ 64`.  It is lost altogether when its milliseconds vanish
modulo `2 ^ 64`. -/
theorem keepsTimeout_iff {η : Type} {requested : Option Duration} {p : PoppedTask}
    (h : Delivered η requested p) :
    (KeepsTimeout requested p ↔ ∀ t ∈ requested, t.isZero = true ∨
      10 ^ 6 ≤ t.nanos ∧ t.nanos < 2 ^ 64 * 10 ^ 6) ∧
    (p.timeout = none ↔ ∀ t ∈ requested, t.nanos / 10 ^ 6 % 2 ^ 64 = 0) := by
  have htimeout := h.timeout_eq
  cases requested with
  | none => exact ⟨⟨by simp, fun _ => ⟨fun _ => htimeout, by simp, by simp⟩⟩, by simp [htimeout]⟩
  | some t =>
    rw [Option.bind_some] at htimeout
    have hlost := t.kept_eq_none_iff
    have hclose := t.kept_close_iff
    rw [← htimeout] at hlost hclose
    simp only [Option.mem_some_iff, forall_eq']
    refine ⟨⟨fun hkeeps => ?_, fun hfits => ⟨fun hempty => ?_, ?_, ?_⟩⟩, hlost⟩
    · cases hzero : t.isZero with
      | true => exact .inl rfl
      | false => exact .inr (hclose.1 (hkeeps.close t rfl hzero))
    · have hnanos : t.nanos = 0 := of_decide_eq_true (hempty t rfl)
      exact hlost.2 (by rw [hnanos])
    · rintro _ ⟨⟩ hzero
      exact hclose.2 (hfits.resolve_left (by simp [hzero]))
    · rintro _ ⟨⟩ hzero
      obtain ⟨d, hd, -⟩ := hclose.2 (hfits.resolve_left (by simp [hzero]))
      have hsome := Duration.isZero_of_kept (htimeout.symm.trans hd)
      exact Scheduler.runsByDeadline_of_timeout hd hsome

/-! ### A timeout that is kept and one that is lost -/

/-- A timeout of one and a half milliseconds. -/
def longTimeout : Duration := ⟨1500000, by decide⟩

/-- A timeout of half a millisecond. -/
def shortTimeout : Duration := ⟨500000, by decide⟩

/-- A scheduler that knows the tasks of one type. -/
def oneType {β : Type} (queue : β) : Scheduler β Unit :=
  (Scheduler.new .default queue none).register "job" ⟨"outer", ()⟩

/-- A scheduler that knows the tasks of the type pushes one if its queue takes it. -/
theorem oneType_push {β : Type} [TaskQueue β] {queue queue' : β} {requested : Option Duration}
    {id : String} (h : TaskQueue.push queue (.new "job" .null requested) 0 = (.ok id, queue')) :
    (oneType queue).push "job" .null requested none = (.ok id, oneType queue') :=
  Scheduler.push_eq_ok_iff.2 ⟨rfl, queue', h, rfl⟩

/-- The first task that is pushed to a new queue in memory is `Delivered` by the pop that
follows. -/
theorem delivered_memory (requested : Option Duration) :
    Delivered Unit requested ((Envelope.new "job" .null requested).popped "1") := by
  have hpush : TaskQueue.push ({} : MemoryQueue) (.new "job" .null requested) 0 =
      (.ok "1", (MemoryQueue.push {} (.new "job" .null requested) 0).2) := rfl
  have hqueue : ({} : MemoryQueue) = (QueueCall.run MemoryQueue.serve {} []).2 := rfl
  have hpop : (QueueCall.run MemoryQueue.serve
      (MemoryQueue.push {} (.new "job" .null requested) 0).2
      [.cancel "2" .epoch, .len]).2.pop.1 = .ok ((Envelope.new "job" .null requested).popped "1") :=
    rfl
  exact .memory hqueue (oneType_push hpush) hpop rfl

/-- The first task that is pushed to an empty store is `Delivered` by the pop that follows. -/
theorem delivered_redis (requested : Option Duration) :
    Delivered Unit requested ((Envelope.new "job" .null requested).popped "1") := by
  let client := RedisQueue.defaultClient
  let connection : RedisConnection := { queue := client, store := .empty }
  obtain ⟨store, hpush, hpop⟩ := RedisQueue.pop_firstPush client (.new "job" .null requested) 0
  have hread := (RedisQueue.taken_encode "1" (.new "job" .null requested) trivial trivial).1.2
    (Nat.zero_le _)
  have hcarry : TaskQueue.push connection (.new "job" .null requested) 0 =
      (.ok "1", { connection with store := store }) := by
    rw [RedisConnection.push_eq rfl]
    exact congrArg (fun x => (x.1, { connection with store := x.2 })) hpush
  have hclients : ∀ e ∈ ([] ++ [] : List RedisQueue.Event), ∀ client, e.client? = some client →
      client.config.keyPrefix = connection.queue.config.keyPrefix := List.forall_mem_nil _
  have hstore : connection.store = (RedisQueue.history .empty []).2 := rfl
  have hfresh : "1" ∉ RedisQueue.pushedIds (RedisQueue.history store []).1 := List.not_mem_nil
  exact .redis hclients rfl hstore (oneType_push hcarry) hfresh ((hpop .epoch).2.trans hread) rfl

/-- `keepsTimeout_iff` for `longTimeout`, of more than a millisecond: the task is popped with one
millisecond, and the timeout is kept. -/
theorem keepsTimeout_iff_longTimeout : ∃ p, Delivered Unit (some longTimeout) p ∧
    p.timeout = some (.ofMillis 1) ∧ KeepsTimeout (some longTimeout) p := by
  have hredis := delivered_redis (some longTimeout)
  refine ⟨_, hredis, by decide, (keepsTimeout_iff hredis).1.2 ?_⟩
  rintro _ ⟨⟩
  exact .inr (by decide)

/-- A task with a timeout below a millisecond, as it is popped. -/
def shortTask : PoppedTask := (Envelope.new "job" .null (some shortTimeout)).popped "1"

/-- The worker of `shortTask` makes a context without a deadline. -/
theorem not_runsByDeadline_shortTask : ¬ Scheduler.RunsByDeadline shortTask := by
  intro h
  let queue := (MemoryQueue.push {} (.new "job" .null (some shortTimeout)) 0).2
  let s₀ : Scheduler MemoryQueue Unit := .new .default queue none
  let moves : List (Move Unit) := ((Scheduler.armedHistory .epoch).take 11).map .event
  have hfound : ((s₀.afterMoves moves).task? 0).any (fun t =>
      decide (t.popped = shortTask) && t.phase.context? == some ⟨1, none⟩) = true := by decide
  obtain ⟨t, ht, hfound⟩ := (Option.any_eq_true _ _).1 hfound
  obtain ⟨hpopped, hcontext⟩ := Bool.and_eq_true_iff.1 hfound
  have hworks := Scheduler.worksUnder_afterMoves .default queue none moves ht
  obtain ⟨hruns, -⟩ := hworks.context _ (beq_iff_eq.1 hcontext)
  cases h _ _ _ _ _ _ _ _ _ ht (of_decide_eq_true hpopped) hruns

/-- A timeout below a millisecond, such as `shortTimeout`, is lost, and the task runs without a
deadline. -/
theorem exists_not_keepsTimeout : ∃ (t : Duration) (p : PoppedTask), t.isZero = false ∧
    Delivered Unit (some t) p ∧ p.timeout = none ∧ ¬ Scheduler.RunsByDeadline p ∧
    ¬ KeepsTimeout (some t) p := by
  refine ⟨shortTimeout, shortTask, rfl, delivered_memory _, by decide,
    not_runsByDeadline_shortTask, fun h => ?_⟩
  exact not_runsByDeadline_shortTask (h.deadline _ rfl rfl)

end TaskScheduler
