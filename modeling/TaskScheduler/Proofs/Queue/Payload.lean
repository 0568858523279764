import TaskScheduler.Proofs.Queue.LastReport
import TaskScheduler.Proofs.Queue.Stages
import TaskScheduler.Proofs.Task.Account
import TaskScheduler.Proofs.Task.Envelope

/-!
# Payloads on their way through the store

A push writes the body of a task into the hash of the task, and no other operation writes in its
place.  So a pop reads the body that was pushed, unless the id was given a second time or the time
to live of the hash has ended in between.  It hands out the envelope of the body, with one
exception: the body has one level of nesting more than the payload, and the reader counts it.
-/

namespace TaskScheduler.RedisQueue

open Redis

variable {q client : RedisQueue} {s s' : Store} {n m : Nat} {members members' : List Scored}
  {hash : String → FiniteMap Bytes Bytes} {id : String} {now : Timestamp}

/-! ### Bodies -/

/-- What stands in the place of the body of a task. -/
def bodyOf (q : RedisQueue) (s : Store) (id : String) : Except StoreError (Option Bytes) :=
  s.hget (q.taskKey id) (Bytes.ofString "data")

/-- `bodyOf` looks at the key of the task only. -/
theorem bodyOf_congr (h : s'.get? (q.taskKey id) = s.get? (q.taskKey id)) :
    q.bodyOf s' id = q.bodyOf s id := by
  unfold bodyOf Store.hget
  rw [Store.hash?_congr h]

/-- Clients with one prefix find the same `bodyOf` a task. -/
theorem bodyOf_of_keyPrefix (hclient : client.config.keyPrefix = q.config.keyPrefix) (s : Store)
    (id : String) : client.bodyOf s id = q.bodyOf s id := by
  unfold bodyOf
  rw [taskKey_of_keyPrefix hclient]

/-- The `bodyOf` a task is found in the hash that the store `Shows`. -/
theorem Shows.bodyOf_eq (h : Shows q s n members hash) (id : String) :
    q.bodyOf s id = .ok ((hash id).get? (Bytes.ofString "data")) := by
  unfold bodyOf Store.hget
  rw [h.hashes]

/-- Writing fields without a body into the hash of a task leaves every `bodyOf`. -/
theorem Shows.bodyOf_write (h : Shows q s n members hash) {task : String}
    {fields : List (Bytes × Bytes)}
    (h' : Shows q s' m members' (Function.update hash task ((hash task).insertMany fields)))
    (hfields : Bytes.ofString "data" ∉ fields.map Prod.fst) (id : String) :
    q.bodyOf s' id = q.bodyOf s id := by
  rw [h'.bodyOf_eq, h.bodyOf_eq]
  rcases eq_or_ne id task with rfl | hne
  · rw [Function.update_self, FiniteMap.get?_insertMany_of_not_mem hfields]
  · rw [Function.update_of_ne hne]

/-! ### What the operations do to bodies -/

/-- A field with another name than `data` is not that of the body. -/
theorem ofString_data_ne {name : String} (h : name ≠ "data") :
    Bytes.ofString "data" ≠ Bytes.ofString name :=
  fun heq => h (Bytes.ofString_injective heq).symm

/-- A report leaves every `bodyOf`. -/
theorem Shows.bodyOf_report (h : Shows q s n members hash) (r : TaskReport) (now : Timestamp)
    (id : String) : q.bodyOf (q.report r now s).2 id = q.bodyOf s id := by
  obtain ⟨answer, s', hreport, -, h'⟩ := h.report r now
  rw [hreport]
  refine h.bodyOf_write h' (fun hwritten => ?_) id
  obtain ⟨name, hname, heq⟩ := fst_mem_reportedFields hwritten
  exact ofString_data_ne (by rintro rfl; revert hname; decide) heq

/-- `take` leaves every `bodyOf`. -/
theorem Keeps.bodyOf_take (h : Keeps q s n members hash) (id : String) :
    q.bodyOf (q.take s).2 id = q.bodyOf s id := by
  cases members with
  | nil => rw [h.view.take_nil]
  | cons x rest =>
    obtain ⟨k, hk⟩ := h.written x List.mem_cons_self
    obtain ⟨j, hj⟩ := exists_memberNumber? k
    obtain ⟨s', htake, h'⟩ := h.view.take_cons (hk ▸ hj)
    rw [htake]
    exact h.view.bodyOf_write h' (by simpa [field] using ofString_data_ne (by decide)) id

/-- A pop leaves every `bodyOf`. -/
theorem Keeps.bodyOf_pop (h : Keeps q s n members hash) (now : Timestamp) (id : String) :
    q.bodyOf (q.pop now s).2 id = q.bodyOf s id := by
  have htaken := h.bodyOf_take id
  obtain ⟨_, _, _, hkeeps, -⟩ :=
    HoldsQueueWith.take ⟨n, members, hash, h, trivial⟩ isLasting_true
  rw [pop_eq]
  split
  next task reason s₁ htake =>
    rw [htake] at htaken hkeeps
    exact (hkeeps.view.bodyOf_report _ now id).trans htaken
  next => exact htaken

/-- A cancelation leaves every `bodyOf`. -/
theorem Shows.bodyOf_cancel (h : Shows q s n members hash) (task : String) (now : Timestamp)
    (id : String) : q.bodyOf (q.cancel task now s).2 id = q.bodyOf s id := by
  rcases h.cancel_cases task now with hnone | ⟨answer, s', members', hcancel, h'⟩
  · rw [hnone]
  · rw [hcancel]
    refine h.bodyOf_write h' ?_ id
    simp [canceledFields, field, ofString_data_ne]

/-- The `pushedFields` of a push put the text of its envelope into the hash. -/
theorem get?_pushedFields (fields : FiniteMap Bytes Bytes) (id : String) (e : Envelope) :
    (fields.insertMany (pushedFields id e)).get? (Bytes.ofString "data") =
      some (Bytes.ofString e.encode) := by
  have hstate : Bytes.ofString "data" ≠ Bytes.ofString "state" := ofString_data_ne (by decide)
  exact (FiniteMap.get?_insert_of_ne _ _ hstate).trans (FiniteMap.get?_insert_self _ _ _)

/-- A push writes the `bodyOf` its task and leaves all others, or it fails and changes nothing. -/
theorem Keeps.bodyOf_push (h : Keeps q s n members hash) (e : Envelope) (priority : Int64) :
    (∃ err, q.push e priority s = (.error err, s)) ∨
      ∃ id s', q.push e priority s = (.ok id, s') ∧
        q.bodyOf s' id = .ok (some (Bytes.ofString e.encode)) ∧
        ∀ task, task ≠ id → q.bodyOf s' task = q.bodyOf s task := by
  rcases Nat.lt_or_ge (n + 1) (2 ^ 63) with hn | hn
  · obtain ⟨s', hpush, h'⟩ := h.view.push_number hn rfl e priority
    refine .inr ⟨_, s', hpush, ?_, fun task htask => ?_⟩
    · rw [h'.bodyOf_eq, Function.update_self, get?_pushedFields]
    · rw [h'.bodyOf_eq, h.view.bodyOf_eq, Function.update_of_ne htask]
  · obtain rfl : n = 2 ^ 63 - 1 := by
      have := h.counted
      omega
    refine .inl ⟨.storeFailed StoreError.overflow.message, ?_⟩
    unfold RedisQueue.push
    rw [h.view.counter.incr_overflow]

/-! ### Histories -/

variable {P : List Scored → (String → FiniteMap Bytes Bytes) → Prop}

/-- The time to live of a key ends in an event. -/
def Event.lapses (key : Bytes) (s : Store) : Event → Bool
  | .lapse key' => key' = key && (Store.ttl s key).isSome
  | _ => false

/-- The time to live of a key ends in a history. -/
def lapsed (key : Bytes) : Store → List Event → Bool
  | _, [] => false
  | s, e :: events => e.lapses key s || lapsed key (e.step s).2 events

/-- When a key lapses, the `bodyOf` the task with this key goes, and no other. -/
theorem bodyOf_lapse (s : Store) (key : Bytes) (id : String) :
    q.bodyOf (s.lapse key) id =
      if (Event.lapse key).lapses (q.taskKey id) s then .ok none else q.bodyOf s id := by
  unfold Event.lapses
  rcases eq_or_ne key (q.taskKey id) with rfl | hne
  · cases httl : Store.ttl s (q.taskKey id) with
    | none => simp [Store.lapse_eq_self httl]
    | some secs =>
      have hgone := Store.get?_lapse_self (httl ▸ rfl : (Store.ttl s (q.taskKey id)).isSome)
      unfold bodyOf Store.hget Store.hash?
      rw [hgone]
      simp
  · rw [if_neg (by simp [hne])]
    exact bodyOf_congr (Store.get?_lapse_of_ne hne.symm)

/-- A call that does not give an id leaves the `bodyOf` it. -/
theorem Keeps.bodyOf_serve (h : Keeps q s n members hash) (c : QueueCall)
    (hid : ∀ answer, (q.serve s c).1 = .pushed (.ok answer) → id ≠ answer) :
    q.bodyOf (q.serve s c).2 id = q.bodyOf s id := by
  cases c with
  | push e priority =>
    change q.bodyOf (q.push e priority s).2 id = q.bodyOf s id
    rcases h.bodyOf_push e priority with ⟨err, hpush⟩ | ⟨task, s', hpush, -, hother⟩
    · rw [hpush]
    · have hanswer : (q.serve s (.push e priority)).1 = .pushed (.ok task) := by
        simp only [RedisQueue.serve, hpush]
      rw [hpush]
      exact hother id (hid task hanswer)
  | pop now => exact h.bodyOf_pop now id
  | cancel task now => exact h.view.bodyOf_cancel task now id
  | report r now => exact h.view.bodyOf_report r now id
  | _ => rfl

/-- An event that does not give an id leaves the `bodyOf` it, unless its key lapses. -/
theorem HoldsQueueWith.bodyOf_step (h : HoldsQueueWith P q s) (e : Event)
    (hclient : ∀ client, e.client? = some client → client.config.keyPrefix = q.config.keyPrefix)
    (hid : id ∉ pushedIds (e.step s).1) :
    q.bodyOf (e.step s).2 id = if e.lapses (q.taskKey id) s then .ok none else q.bodyOf s id := by
  cases e with
  | lapse key => exact bodyOf_lapse s key id
  | take client now =>
    have hprefix := hclient client rfl
    obtain ⟨_, _, _, hkeeps, -⟩ := h.of_keyPrefix hprefix
    have htake := hkeeps.bodyOf_take id
    rw [bodyOf_of_keyPrefix hprefix, bodyOf_of_keyPrefix hprefix] at htake
    exact htake
  | call client c =>
    have hprefix := hclient client rfl
    obtain ⟨_, _, _, hkeeps, -⟩ := h.of_keyPrefix hprefix
    have hserve : client.bodyOf (client.serve s c).2 id = client.bodyOf s id := by
      refine hkeeps.bodyOf_serve c fun answer hanswer heq => hid ?_
      unfold Event.step pushedIds
      simp [Served.pushed, hanswer, heq]
    rw [bodyOf_of_keyPrefix hprefix, bodyOf_of_keyPrefix hprefix] at hserve
    exact hserve

/-- A history that does not give an id leaves the `bodyOf` it, unless its key has `lapsed`. -/
theorem HoldsQueueWith.bodyOf_history (h : HoldsQueueWith P q s) (hlast : IsLasting P)
    {events : List Event}
    (hclients : ∀ e ∈ events, ∀ client, e.client? = some client →
      client.config.keyPrefix = q.config.keyPrefix)
    (hid : id ∉ pushedIds (RedisQueue.history s events).1) :
    q.bodyOf (RedisQueue.history s events).2 id =
      if lapsed (q.taskKey id) s events then .ok none else q.bodyOf s id := by
  induction events generalizing s with
  | nil => rfl
  | cons e events ih =>
    obtain ⟨hclient, hclients⟩ := List.forall_mem_cons.1 hclients
    have hids : pushedIds (RedisQueue.history s (e :: events)).1 =
        pushedIds (e.step s).1 ++ pushedIds (RedisQueue.history (e.step s).2 events).1 :=
      List.flatMap_append
    rw [hids, List.mem_append, not_or] at hid
    have hfirst := h.bodyOf_step e hclient hid.1
    have hrest := ih (h.step hlast e hclient) hclients hid.2
    have hlapsed : lapsed (q.taskKey id) s (e :: events) =
        (e.lapses (q.taskKey id) s || lapsed (q.taskKey id) (e.step s).2 events) := rfl
    change q.bodyOf (RedisQueue.history (e.step s).2 events).2 id = _
    rw [hrest, hfirst, hlapsed]
    cases e.lapses (q.taskKey id) s <;> simp

/-! ### The pop of a task -/

/-- A pop answers what `taken` makes of the body of the first task. -/
theorem Shows.pop_cons {x : Scored} {rest : List Scored} {k : Nat}
    (h : Shows q s n (x :: rest) hash) (htext : IsText (hash (idText k)))
    (hx : memberNumber? x.member = some k) (now : Timestamp) :
    (q.pop now s).1 = taken (idText k) ((hash (idText k)).get? (Bytes.ofString "data")) ∧
      Served.consumed ⟨q, .pop now, .popped (q.pop now s).1⟩ = [idText k] := by
  obtain ⟨s', htake, -⟩ := h.take_cons hx
  rw [pop_fst, htake]
  exact ⟨rfl, consumed_taken htext _ _⟩

/-- A pop that takes a task off the queue answers what `taken` makes of its body. -/
theorem HoldsQueueWith.pop_fst_eq (h : HoldsQueueWith IsSound q s)
    (hpop : id ∈ Served.consumed ⟨q, .pop now, .popped (q.pop now s).1⟩) :
    ∃ data, q.bodyOf s id = .ok data ∧ (q.pop now s).1 = taken id data := by
  obtain ⟨n, members, hash, ⟨hview, -, hwritten⟩, -, htext⟩ := h
  cases members with
  | nil =>
    rw [pop_fst, hview.take_nil] at hpop
    cases hpop
  | cons x rest =>
    obtain ⟨k, hk⟩ := hwritten x List.mem_cons_self
    obtain ⟨j, hj⟩ := exists_memberNumber? k
    obtain ⟨htaken, hconsumed⟩ := hview.pop_cons (htext _) (hk ▸ hj) now
    rw [hconsumed] at hpop
    obtain rfl := List.mem_singleton.1 hpop
    exact ⟨_, hview.bodyOf_eq _, htaken⟩

/-- `taken` hands out a task as its envelope says exactly when the payload is nested at most
`memberDepth` levels, and gives it up otherwise. -/
theorem taken_encode (id : String) (e : Envelope) (hf : e.data.FloatFree) (hc : e.data.Canonical) :
    (taken id (some (Bytes.ofString e.encode)) = .ok (e.popped id) ↔
      e.data.depth ≤ Json.memberDepth) ∧
    (taken id (some (Bytes.ofString e.encode)) = .ok (e.popped id) ∨
      ∃ reason, taken id (some (Bytes.ofString e.encode)) = .error (.corrupt id reason)) := by
  unfold taken
  dsimp only
  rw [Bytes.toString?_ofString]
  dsimp only
  rw [e.decode?_encode hf hc]
  by_cases hdepth : e.data.depth ≤ Json.memberDepth
  · simp [hdepth]
  · simp [hdepth]

/-- Clients of one prefix push a task and take it off the queue later, and the id is not given
again in between.  Then the pop hands out the task with the id, the type, the payload and the
timeout (`Envelope.IsHandedOutAs`) that were pushed exactly when the payload is nested one level
less deeply than a text may be and the time to live of the hash has not ended.  Otherwise the task
is given up. -/
theorem pop_pushed_iff {before between : List Event} {e : Envelope} {priority : Int64}
    {s₁ s₂ : Store}
    (hclients : ∀ e ∈ before ++ between, ∀ client, e.client? = some client →
      client.config.keyPrefix = q.config.keyPrefix)
    (hclient : client.config.keyPrefix = q.config.keyPrefix)
    (hf : e.data.FloatFree) (hc : e.data.Canonical)
    (hpush : q.push e priority (history .empty before).2 = (.ok id, s₁))
    (hbetween : (history s₁ between).2 = s₂) (hid : id ∉ pushedIds (history s₁ between).1)
    (hpop : id ∈ Served.consumed ⟨client, .pop now, .popped (client.pop now s₂).1⟩) :
    ((∃ task, (client.pop now s₂).1 = .ok task ∧ e.IsHandedOutAs id task) ↔
      e.data.depth ≤ Json.memberDepth ∧ lapsed (q.taskKey id) s₁ between = false) ∧
    ((∃ task, (client.pop now s₂).1 = .ok task ∧ e.IsHandedOutAs id task) ∨
      ∃ reason, (client.pop now s₂).1 = .error (.corrupt id reason)) := by
  obtain ⟨hbefore, hafter⟩ := List.forall_mem_append.1 hclients
  have hstart := holdsQueueWith_isSound hbefore
  have hbody : q.bodyOf s₁ id = .ok (some (Bytes.ofString e.encode)) := by
    obtain ⟨n, members, hash, hkeeps, -⟩ := hstart
    rcases hkeeps.bodyOf_push e priority with ⟨err, herror⟩ | ⟨task, s', hok, hbody, -⟩
    · cases hpush.symm.trans herror
    · cases hpush.symm.trans hok
      exact hbody
  have hpushed : HoldsQueueWith IsSound q s₁ := by
    have hserve := hstart.serve isLasting_isSound (.push e priority)
    simpa only [RedisQueue.serve, hpush] using hserve
  have hlast := hpushed.bodyOf_history isLasting_isSound hafter hid
  have hreached := (hpushed.history isLasting_isSound hafter).of_keyPrefix hclient
  rw [hbetween] at hlast hreached
  obtain ⟨data, hdata, htaken⟩ := hreached.pop_fst_eq hpop
  rw [bodyOf_of_keyPrefix hclient, hlast, hbody] at hdata
  rw [← Envelope.eq_popped_iff, htaken]
  cases hlapsed : lapsed (q.taskKey id) s₁ between with
  | true =>
    rw [hlapsed, if_pos rfl] at hdata
    obtain rfl := Except.ok.inj hdata
    exact ⟨by simp [taken], .inr ⟨_, rfl⟩⟩
  | false =>
    rw [hlapsed, if_neg Bool.false_ne_true] at hdata
    obtain rfl := Except.ok.inj hdata
    rw [and_iff_left rfl]
    exact taken_encode id e hf hc

/-! ### A payload that comes back and one that does not -/

/-- The first task that is pushed has the id 1, and a pop takes it and answers what `taken` makes of
its envelope. -/
theorem pop_firstPush (q : RedisQueue) (e : Envelope) (priority : Int64) :
    ∃ s, q.push e priority .empty = (.ok "1", s) ∧ ∀ now,
      "1" ∈ Served.consumed ⟨q, .pop now, .popped (q.pop now s).1⟩ ∧
      (q.pop now s).1 = taken "1" (some (Bytes.ofString e.encode)) := by
  obtain ⟨s, hpush, h⟩ := (Shows.empty q).push (by decide) e priority
  refine ⟨s, hpush, fun now => ?_⟩
  have hnumber : memberNumber? (memberText 1) = some 1 := memberNumber?_memberText (by decide)
  have htext : IsText (FiniteMap.empty.insertMany (pushedFields "1" e)) :=
    isText_empty.insertMany (areTexts_pushedFields "1" e)
  have hself : Function.update (fun _ => FiniteMap.empty) "1"
      (FiniteMap.empty.insertMany (pushedFields "1" e)) (idText 1) =
        FiniteMap.empty.insertMany (pushedFields "1" e) := Function.update_self ..
  obtain ⟨htaken, hconsumed⟩ := h.pop_cons (k := 1) (hself ▸ htext) hnumber now
  rw [hconsumed, htaken]
  refine ⟨List.mem_singleton_self _, ?_⟩
  exact congrArg (taken "1") ((congrArg (FiniteMap.get? · _) hself).trans (get?_pushedFields _ _ e))

/-- A task with a timeout and a payload of two levels. -/
def letterTask : Envelope :=
  ⟨"mail", .obj [("lines", .arr [.str "one", .int ⟨2, by decide, by decide⟩])], some 1500⟩

/-- `letterTask` is popped with the payload and the timeout with which it was pushed. -/
theorem pop_pushed_iff_letterTask : ∃ s, letterTask.data.FloatFree ∧ letterTask.data.Canonical ∧
    defaultClient.push letterTask 0 .empty = (.ok "1", s) ∧
    "1" ∈ Served.consumed
      ⟨defaultClient, .pop .epoch, .popped (defaultClient.pop .epoch s).1⟩ ∧
    ∃ task, (defaultClient.pop .epoch s).1 = .ok task ∧ letterTask.IsHandedOutAs "1" task := by
  have hf : letterTask.data.FloatFree := ⟨⟨trivial, trivial, trivial⟩, trivial⟩
  have hc : letterTask.data.Canonical :=
    ⟨⟨List.forall_mem_nil _, trivial⟩, ⟨trivial, trivial, trivial⟩, trivial⟩
  obtain ⟨s, hpush, hpop⟩ := pop_firstPush defaultClient letterTask 0
  obtain ⟨hconsumed, -⟩ := hpop .epoch
  have hclients : ∀ e ∈ ([] ++ [] : List Event), ∀ client, e.client? = some client →
      client.config.keyPrefix = defaultClient.config.keyPrefix := List.forall_mem_nil _
  have hid : "1" ∉ pushedIds (history s []).1 := List.not_mem_nil
  refine ⟨s, hf, hc, hpush, hconsumed, ?_⟩
  exact (pop_pushed_iff hclients rfl hf hc hpush rfl hid hconsumed).1.2 ⟨by decide, rfl⟩

/-- `null` in as many arrays. -/
def nested : Nat → Json
  | 0 => .null
  | n + 1 => .arr [nested n]

/-- `nested n` has the depth `n`, no floating-point number and no object. -/
theorem nested_facts (n : Nat) :
    (nested n).depth = n ∧ (nested n).FloatFree ∧ (nested n).Canonical := by
  induction n with
  | zero => exact ⟨rfl, trivial, trivial⟩
  | succ n ih =>
    obtain ⟨hdepth, hf, hc⟩ := ih
    refine ⟨?_, ⟨hf, trivial⟩, ⟨hc, trivial⟩⟩
    change max (nested n).depth 0 + 1 = n + 1
    rw [hdepth, Nat.max_zero]

/-- A payload that can be read as a text by itself is pushed, and the pop that takes it does not
hand it out. -/
theorem exists_pop_pushed_ne : ∃ (q : RedisQueue) (e : Envelope) (id : String) (s : Store),
    q.config.validate = .ok () ∧ e.data.FloatFree ∧ e.data.Canonical ∧
    Json.parse? e.data.compact = some e.data ∧ q.push e 0 .empty = (.ok id, s) ∧
    ∀ now, id ∈ Served.consumed ⟨q, .pop now, .popped (q.pop now s).1⟩ ∧
      ¬ ∃ task, (q.pop now s).1 = .ok task ∧ e.IsHandedOutAs id task := by
  obtain ⟨hdepth, hf, hc⟩ := nested_facts Json.maxDepth
  obtain ⟨s, hpush, hpop⟩ := pop_firstPush defaultClient ⟨"echo", nested Json.maxDepth, none⟩ 0
  refine ⟨defaultClient, _, "1", s, rfl, hf, hc, ?_, hpush, fun now => ⟨(hpop now).1, ?_⟩⟩
  · rw [Json.parse?_compact _ hf hc, if_pos (Nat.le_of_eq hdepth)]
  · rw [← Envelope.eq_popped_iff, (hpop now).2, (taken_encode "1" _ hf hc).1, hdepth]
    decide

end TaskScheduler.RedisQueue
