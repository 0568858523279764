import Mathlib.Data.List.Induction
import TaskScheduler.Proofs.Queue.Stages

/-!
# The life of a task in the store

Clients cancel ids that a push gave and report ids that a `pop` handed out, and their times to live
are accepted.  Then the store is tidy at every point, at stages that can be read off it: the sorted
set has the queued tasks, exactly the tasks that ended have a time to live, and no task that ended
is queued or handed out again.
-/

namespace TaskScheduler.RedisQueue

open Redis

variable {q : RedisQueue} {s : Store} {n : Nat} {members : List Scored}
  {hash : String → FiniteMap Bytes Bytes} {stage : String → Stage}

/-! ### Histories -/

/-- The last event of a `history` happens to the store that the others leave. -/
theorem history_concat (s : Store) (events : List Event) (e : Event) :
    history s (events ++ [e]) =
      ((history s events).1 ++ (e.step (history s events).2).1,
        (e.step (history s events).2).2) := by
  induction events generalizing s with
  | nil => simp [history]
  | cons e₀ events ih =>
    rw [List.cons_append]
    unfold history
    dsimp only
    rw [ih]
    simp

/-- The last event of a history adds its pushes to the `totalPushes`. -/
theorem totalPushes_concat (events : List Event) (e : Event) :
    totalPushes (events ++ [e]) = totalPushes events + e.pushes := by
  induction events with
  | nil => simp [totalPushes]
  | cons e₀ events ih =>
    rw [List.cons_append]
    unfold totalPushes
    rw [ih, Nat.add_assoc]

/-- An event may follow a history: its client has the prefix of the queue and a time to live that is
accepted, cancels an id that a push gave, and reports an id that a `pop` handed out. -/
structure Event.MayFollow (q : RedisQueue) (events : List Event) (e : Event) : Prop where
  /-- Scripts can tell the numbers of the pushes apart. -/
  few : totalPushes (events ++ [e]) < 2 ^ 53
  /-- All clients share a prefix. -/
  client : ∀ client, e.client? = some client → client.config.keyPrefix = q.config.keyPrefix
  /-- A time to live that is set is accepted. -/
  ttl : ∀ client c, e = .call client c → ¬ client.TtlRefused c
  /-- Only ids that a push gave are canceled. -/
  cancel : ∀ client id now, e = .call client (.cancel id now) →
    id ∈ pushedIds (history .empty events).1
  /-- Only ids that a `pop` handed out are reported. -/
  report : ∀ client r now, e = .call client (.report r now) →
    r.id ∈ consumedIds (history .empty events).1

/-- The histories in which every event may follow those before it. -/
inductive Orderly (q : RedisQueue) : List Event → Prop where
  /-- Nothing has happened. -/
  | nil : Orderly q []
  /-- Another event happens. -/
  | concat {events : List Event} {e : Event} (h : Orderly q events) (he : e.MayFollow q events) :
    Orderly q (events ++ [e])

variable {events : List Event} {e : Event}

/-- What precedes the last event of an `Orderly` history is orderly, and this event may follow
it. -/
theorem Orderly.of_concat (h : Orderly q (events ++ [e])) :
    Orderly q events ∧ e.MayFollow q events := by
  generalize hall : events ++ [e] = all at h
  cases h with
  | nil => exact absurd hall (by simp)
  | concat h he =>
    obtain ⟨rfl, heq⟩ := List.append_inj' hall rfl
    obtain rfl := List.singleton_inj.1 heq
    exact ⟨h, he⟩

/-- If an event may follow a history, its `firstHalf` may follow it instead. -/
theorem Event.MayFollow.firstHalf (he : e.MayFollow q events) : e.firstHalf.MayFollow q events := by
  cases e with
  | call client c =>
    cases c with
    | pop now =>
      refine ⟨?_, he.client, ?_, ?_, ?_⟩
      · have hfew := he.few
        rwa [totalPushes_concat] at hfew ⊢
      · exact fun client' c' heq => absurd heq (by simp [Event.firstHalf])
      · exact fun client' id' now' heq => absurd heq (by simp [Event.firstHalf])
      · exact fun client' r' now' heq => absurd heq (by simp [Event.firstHalf])
    | _ => exact he
  | take client now => exact he
  | lapse key => exact he

/-- The `firstHalf` of an event pushes as many tasks as the event. -/
theorem Event.pushes_firstHalf (e : Event) : e.firstHalf.pushes = e.pushes := by
  cases e with
  | call client c => cases c <;> rfl
  | take client now => rfl
  | lapse key => rfl

/-- In an `Orderly` history there are less than `2 ^ 53` pushes. -/
theorem Orderly.few (h : Orderly q events) : totalPushes events < 2 ^ 53 := by
  cases h with
  | nil => decide
  | concat h he => exact he.few

/-- The clients of an `Orderly` history share a prefix. -/
theorem Orderly.keyPrefix (h : Orderly q events) : ∀ e ∈ events, ∀ client, e.client? = some client →
    client.config.keyPrefix = q.config.keyPrefix := by
  induction h with
  | nil => exact List.forall_mem_nil _
  | concat h he ih =>
    refine List.forall_mem_append.2 ⟨ih, List.forall_mem_singleton.2 fun client hclient => ?_⟩
    exact he.client client hclient

/-- The `pushedIds` of an `Orderly` history are the texts of the numbers up to the number of its
pushes. -/
theorem Orderly.mem_pushedIds_iff (h : Orderly q events) {id : String} :
    id ∈ pushedIds (history .empty events).1 ↔
      ∃ k, 1 ≤ k ∧ k ≤ totalPushes events ∧ id = idText k := by
  have hfew := h.few
  have hpushed := ((Layout.empty q).balanced_history events h.keyPrefix (by omega)).pushed
  rw [hpushed]
  simp only [List.mem_map, List.mem_range'_1]
  constructor
  · rintro ⟨k, ⟨hpos, hk⟩, rfl⟩
    exact ⟨k, by omega, by omega, rfl⟩
  · rintro ⟨k, hpos, hk, rfl⟩
    exact ⟨k, ⟨by omega, by omega⟩, rfl⟩

/-! ### Stages that are read off the store -/

/-- The text of a field in the hash of a task. -/
def fieldOf (q : RedisQueue) (s : Store) (id name : String) : Option String :=
  match s.hash? (q.taskKey id) with
  | .ok fields => textAt fields name
  | .error _ => none

/-- The stage of a task, by its hash and by whether its id was given and handed out. -/
def stageOf (q : RedisQueue) (s : Store) (given out : List String) (id : String) : Stage :=
  match fieldOf q s id "state", fieldOf q s id "data" with
  | none, _ => if id ∈ given then .expired (decide (id ∈ out)) else .unissued
  | some state, data =>
    match ReportStatus.ofName? state, data with
    | some status, _ => .finished (decide (id ∈ out)) status
    | none, some body =>
      if state = "queued" then .queued body
      else if state = "popped" then .popped body
      else .unknown
    | none, none => .unknown

/-- The stage of a task after a history. -/
def stageAfter (q : RedisQueue) (events : List Event) (id : String) : Stage :=
  stageOf q (history .empty events).2 (pushedIds (history .empty events).1)
    (consumedIds (history .empty events).1) id

/-- `fieldOf` is the text in the hash that the store `Shows` for the task. -/
theorem Shows.fieldOf_eq (h : Shows q s n members hash) (id name : String) :
    fieldOf q s id name = textAt (hash id) name := by
  unfold fieldOf
  rw [h.hashes]

/-- In a `Tidy` store `stageOf` reads the stages of the tasks off their hashes, given which ids were
given and handed out. -/
theorem Tidy.stageOf_eq (h : Tidy q s n members hash stage) {given out : List String} {id : String}
    (hgiven : id ∈ given ↔ stage id ≠ .unissued) (hout : (stage id).isOut = true ↔ id ∈ out) :
    stageOf q s given out id = stage id := by
  have hfits := h.fits id
  have hflag : decide (id ∈ out) = (stage id).isOut := by
    rw [Bool.eq_iff_iff, decide_eq_true_iff, hout]
  unfold stageOf
  rw [h.view.fieldOf_eq, h.view.fieldOf_eq, hflag]
  cases hstage : stage id with
  | unissued =>
    rw [hstage] at hfits hgiven
    rw [hfits.1]
    simpa [textAt_empty] using hgiven
  | queued body =>
    rw [hstage] at hfits
    rw [hfits.1, hfits.2.1]
    rfl
  | popped body =>
    rw [hstage] at hfits
    rw [hfits.1, hfits.2.1]
    rfl
  | finished handedOut status =>
    rw [hstage] at hfits
    rw [hfits.1]
    simp [ReportStatus.ofName?_name, Stage.isOut]
  | expired handedOut =>
    rw [hstage] at hfits hgiven
    rw [hfits.1]
    simpa [textAt_empty, Stage.isOut] using hgiven
  | unknown =>
    rw [hstage] at hfits
    exact absurd hfits not_false

/-- After a history the tasks stand at stages, and those that are out were handed out. -/
structure Reaches (q : RedisQueue) (events : List Event) (stage : String → Stage) : Prop where
  /-- The tasks stand at the stages. -/
  stands : Stands q (history .empty events).2 (totalPushes events) stage
  /-- The tasks that are out were handed out. -/
  out : ∀ id, (stage id).isOut = true ↔ id ∈ consumedIds (history .empty events).1

/-- The stages that an `Orderly` history `Reaches` are what `stageAfter` reads off the store. -/
theorem Orderly.stageAfter_eq (h : Orderly q events) (hreaches : Reaches q events stage) :
    stageAfter q events = stage := by
  obtain ⟨⟨members, hash, htidy⟩, hout⟩ := hreaches
  funext id
  exact htidy.stageOf_eq (h.mem_pushedIds_iff.trans (htidy.issued id).symm) (hout id)

/-- An event that `MayFollow` a history is allowed at the stages that the history reaches. -/
theorem Orderly.isAllowed (h : Orderly q events) (he : e.MayFollow q events)
    (hreaches : Reaches q events stage) : e.IsAllowed q stage := by
  obtain ⟨⟨members, hash, htidy⟩, hout⟩ := hreaches
  refine ⟨he.client, he.ttl, fun client id now heq => ?_, fun client r now heq => ?_⟩
  · exact (htidy.issued id).2 (h.mem_pushedIds_iff.1 (he.cancel client id now heq))
  · exact (hout r.id).2 (he.report client r now heq)

/-- The `firstHalf` of an event hands out the same tasks as the event. -/
theorem Event.consumedIds_firstHalf (s : Store) (e : Event) :
    consumedIds (e.firstHalf.step s).1 = consumedIds (e.step s).1 := by
  cases e with
  | call client c =>
    cases c with
    | pop now =>
      have hanswer : Served.consumed ⟨client, .pop now, .popped (client.take s).1⟩ =
          Served.consumed ⟨client, .pop now, .popped (client.pop now s).1⟩ := by rw [pop_fst]
      exact congrArg (· ++ []) hanswer
    | _ => rfl
  | take client now => rfl
  | lapse key => rfl

/-- An event that `MayFollow` a history moves every task by one stage at most, or by one in each
half. -/
theorem Orderly.advances (h : Orderly q events) (he : e.MayFollow q events)
    (hreaches : Reaches q events stage) :
    ∃ stage₁ stage₂, Reaches q (events ++ [e.firstHalf]) stage₁ ∧
      Reaches q (events ++ [e]) stage₂ ∧
      ∀ id, (stage id).Moves (stage₁ id) ∧ (stage₁ id).Moves (stage₂ id) := by
  have hallowed := h.isAllowed he hreaches
  have hfew := he.few
  obtain ⟨⟨members, hash, htidy⟩, hout⟩ := hreaches
  rw [totalPushes_concat] at hfew
  obtain ⟨stage₁, stage₂, h₁, h₂, hshifts₁, hshifts₂⟩ := htidy.step hallowed (by omega)
  have hpushes : totalPushes (events ++ [e.firstHalf]) = totalPushes events + e.pushes := by
    rw [totalPushes_concat, e.pushes_firstHalf]
  have hlog : ∀ e' : Event, ∀ id, id ∈ consumedIds (history .empty (events ++ [e'])).1 ↔
      id ∈ consumedIds (history .empty events).1 ∨
        id ∈ consumedIds (e'.step (history .empty events).2).1 := by
    intro e' id
    rw [history_concat]
    unfold consumedIds
    rw [List.flatMap_append, List.mem_append]
  have hout₁ : ∀ id, (stage₁ id).isOut = true ↔
      id ∈ consumedIds (history .empty (events ++ [e])).1 := by
    intro id
    rw [(hshifts₁ id).2, hout, hlog]
  refine ⟨stage₁, stage₂, ⟨?_, fun id => ?_⟩, ⟨?_, fun id => ?_⟩,
    fun id => ⟨(hshifts₁ id).1, (hshifts₂ id).1⟩⟩
  · rw [hpushes, history_concat]
    exact h₁
  · rw [hout₁, hlog, hlog, Event.consumedIds_firstHalf]
  · rw [totalPushes_concat, history_concat]
    exact h₂
  · rw [(hshifts₂ id).2, hout₁, or_iff_left List.not_mem_nil]

/-- Every `Orderly` history `Reaches` the stages that `stageAfter` reads off the store. -/
theorem Orderly.reaches (h : Orderly q events) : Reaches q events (stageAfter q events) := by
  have hexists : ∃ stage, Reaches q events stage := by
    induction h with
    | nil =>
      refine ⟨_, stands_empty q, fun id => ?_⟩
      exact iff_of_false Bool.false_ne_true List.not_mem_nil
    | concat h he ih =>
      obtain ⟨stage, hreaches⟩ := ih
      obtain ⟨stage₁, stage₂, -, hreaches₂, -⟩ := h.advances he hreaches
      exact ⟨stage₂, hreaches₂⟩
  obtain ⟨stage, hreaches⟩ := hexists
  rw [h.stageAfter_eq hreaches]
  exact hreaches

/-- Every event of an `Orderly` history `Moves` every task by one stage at most, or by one in each
half. -/
theorem Orderly.moves (h : Orderly q (events ++ [e])) (id : String) :
    (stageAfter q events id).Moves (stageAfter q (events ++ [e.firstHalf]) id) ∧
    (stageAfter q (events ++ [e.firstHalf]) id).Moves (stageAfter q (events ++ [e]) id) := by
  obtain ⟨hbefore, he⟩ := h.of_concat
  obtain ⟨stage₁, stage₂, h₁, h₂, hmoves⟩ := hbefore.advances he hbefore.reaches
  rw [(hbefore.concat he.firstHalf).stageAfter_eq h₁, h.stageAfter_eq h₂]
  exact hmoves id

/-- In an `Orderly` history a task that ended does not begin again, whatever follows. -/
theorem Orderly.isEnded {later : List Event} (h : Orderly q (events ++ later)) {id : String}
    (hended : (stageAfter q events id).IsEnded) : (stageAfter q (events ++ later) id).IsEnded := by
  induction later using List.reverseRecOn with
  | nil => rwa [List.append_nil]
  | append_singleton later e ih =>
    rw [← List.append_assoc] at h ⊢
    obtain ⟨hfirst, hsecond⟩ := h.moves id
    exact ((ih h.of_concat.1).of_moves hfirst).of_moves hsecond

/-! ### What holds of the store -/

/-- If the time at which a task finished is written, `recordOf` does not read the clock. -/
theorem recordOf_eq {texts : List (String × String)} {id finished : String}
    (hfinished : FiniteMap.find "finished_at" texts = some finished) (now now' : Timestamp) :
    recordOf id texts now = recordOf id texts now' := by
  have htime : finishedOf id texts now = finishedOf id texts now' := by
    unfold finishedOf
    rw [hfinished]
  unfold recordOf
  rw [htime]

/-- How the sorted set, the states of the tasks and their times to live hang together. -/
structure Coherent (q : RedisQueue) (s : Store) : Prop where
  /-- The members of the sorted set are the padded numbers of the ids of queued tasks. -/
  queued : ∃ members, s.zset? q.queueKey = .ok members ∧
    (∀ x ∈ members, ∃ k, x.member = memberText k) ∧
    ∀ id, fieldOf q s id "state" = some "queued" ↔
      ∃ k, id = idText k ∧ ∃ x ∈ members, x.member = memberText k
  /-- Exactly the tasks that ended have a time to live. -/
  lasts : ∀ id, (Store.ttl s (q.taskKey id)).isSome ↔
    ∃ status : ReportStatus, fieldOf q s id "state" = some status.name
  /-- The body of a task that is queued or was handed out is there, and no lapse of a key takes it
  away. -/
  body : ∀ id, fieldOf q s id "state" = some "queued" ∨ fieldOf q s id "state" = some "popped" →
    (fieldOf q s id "data").isSome ∧
    ∀ key, (s.lapse key).get? (q.taskKey id) = s.get? (q.taskKey id)
  /-- A task that ended has the time at which it finished, so that its record does not depend on the
  clock. -/
  finished : ∀ id (status : ReportStatus), fieldOf q s id "state" = some status.name →
    (fieldOf q s id "finished_at").isSome ∧ ∀ now now', q.get id now s = q.get id now' s

/-- A `Tidy` store is `Coherent`. -/
theorem Tidy.coherent (h : Tidy q s n members hash stage) : Coherent q s where
  queued := by
    refine ⟨members, h.view.members, fun x hx => ?_, fun id => ?_⟩
    · obtain ⟨k, -, -, hxk⟩ := h.layout.ids x hx
      exact ⟨k, hxk⟩
    · rw [h.view.fieldOf_eq, (h.fits id).state_eq, Stage.state?_eq_queued_iff]
      constructor
      · rintro ⟨body, hbody⟩
        obtain ⟨k, -, -, rfl⟩ := (h.issued id).1 (by simp [hbody])
        exact ⟨k, rfl, (h.queued k).2 ⟨body, hbody⟩⟩
      · rintro ⟨k, rfl, hmember⟩
        exact (h.queued k).1 hmember
  lasts id := by
    rw [(h.fits id).ttl_isSome_iff, h.view.fieldOf_eq, (h.fits id).state_eq]
    simp only [Stage.state?_eq_name_iff]
    exact exists_comm
  body id hstate := by
    rw [h.view.fieldOf_eq, (h.fits id).state_eq, Stage.state?_eq_queued_iff,
      Stage.state?_eq_popped_iff] at hstate
    have hkept : (fieldOf q s id "data").isSome ∧ Store.ttl s (q.taskKey id) = none := by
      have hfits := h.fits id
      rw [h.view.fieldOf_eq]
      rcases hstate with ⟨body, hbody⟩ | ⟨body, hbody⟩
      · rw [hbody] at hfits
        exact ⟨hfits.2.1 ▸ rfl, hfits.2.2⟩
      · rw [hbody] at hfits
        exact ⟨hfits.2.1 ▸ rfl, hfits.2.2⟩
    refine ⟨hkept.1, fun key => ?_⟩
    rcases eq_or_ne (q.taskKey id) key with rfl | hne
    · rw [Store.lapse_eq_self hkept.2]
    · exact Store.get?_lapse_of_ne hne
  finished id status hstate := by
    rw [h.view.fieldOf_eq, (h.fits id).state_eq, Stage.state?_eq_name_iff] at hstate
    obtain ⟨out, hstage⟩ := hstate
    have hfits := h.fits id
    rw [hstage] at hfits
    obtain ⟨-, hfinished, -⟩ := hfits
    rw [h.view.fieldOf_eq]
    refine ⟨hfinished, fun now now' => ?_⟩
    obtain ⟨time, htime⟩ := Option.isSome_iff_exists.1 hfinished
    obtain ⟨texts, htexts, hfind⟩ := exists_textFields?_eq (h.isText id)
    unfold RedisQueue.get
    rw [h.view.hashes]
    dsimp only
    rw [htexts]
    exact recordOf_eq ((hfind "finished_at").trans htime) now now'

/-- Along every `Orderly` history the store is `Coherent`, every event moves every task by one
stage at most, or a `pop` by one in each half, and a task that ended is never queued or handed out
again. -/
theorem keeps_lifecycle (h : Orderly q events) :
    Coherent q (history .empty events).2 ∧
    (∀ e, Orderly q (events ++ [e]) → ∀ id,
      (stageAfter q events id).Moves (stageAfter q (events ++ [e.firstHalf]) id) ∧
      (stageAfter q (events ++ [e.firstHalf]) id).Moves (stageAfter q (events ++ [e]) id)) ∧
    ∀ later, Orderly q (events ++ later) → ∀ id (status : ReportStatus),
      fieldOf q (history .empty events).2 id "state" = some status.name →
      fieldOf q (history .empty (events ++ later)).2 id "state" = none ∨
      ∃ status' : ReportStatus,
        fieldOf q (history .empty (events ++ later)).2 id "state" = some status'.name := by
  obtain ⟨members, hash, htidy⟩ := h.reaches.stands
  refine ⟨htidy.coherent, fun e he id => he.moves id, fun later hlater id status hstate => ?_⟩
  rw [htidy.view.fieldOf_eq, (htidy.fits id).state_eq, Stage.state?_eq_name_iff] at hstate
  obtain ⟨out, hstage⟩ := hstate
  have hended : (stageAfter q events id).IsEnded := by
    rw [hstage]
    exact trivial
  have hlast := hlater.isEnded hended
  obtain ⟨members', hash', htidy'⟩ := hlater.reaches.stands
  rw [htidy'.view.fieldOf_eq, (htidy'.fits id).state_eq]
  cases hstage' : stageAfter q (events ++ later) id with
  | finished out' status' => exact .inr ⟨status', rfl⟩
  | expired out' => exact .inl rfl
  | _ =>
    rw [hstage'] at hlast
    exact absurd hlast not_false

/-- A task is pushed, handed out and reported. -/
def oneTaskLife : List Event :=
  [.call defaultClient (.push ⟨"echo", .null, none⟩ 0), .call defaultClient (.pop .epoch),
    .call defaultClient (.report ⟨"1", "echo", .zero, .ok .null⟩ .epoch)]

/-- `oneTaskLife` is `Orderly`. -/
theorem orderly_oneTaskLife : Orderly defaultClient oneTaskLife := by
  have hclient : ∀ c client, (Event.call defaultClient c).client? = some client →
      client.config.keyPrefix = defaultClient.config.keyPrefix := by
    intro c client hclient
    obtain rfl := Option.some.inj hclient
    rfl
  refine ((Orderly.nil.concat ⟨by decide, hclient _, ?_, ?_, ?_⟩).concat
    ⟨by decide, hclient _, ?_, ?_, ?_⟩).concat ⟨by decide, hclient _, ?_, ?_, ?_⟩
  · rintro client c ⟨⟩
    exact not_false
  · exact fun client id now heq => absurd heq (by simp)
  · exact fun client r now heq => absurd heq (by simp)
  · rintro client c ⟨⟩
    exact Nat.not_lt.2 (by decide)
  · exact fun client id now heq => absurd heq (by simp)
  · exact fun client r now heq => absurd heq (by simp)
  · rintro client c ⟨⟩
    exact Nat.not_lt.2 (by decide)
  · exact fun client id now heq => absurd heq (by simp)
  · intro client r now heq
    cases heq
    decide +kernel

/-- At the end of `oneTaskLife` the state is `completed`, and the record has a time to live. -/
theorem keeps_lifecycle_oneTaskLife :
    Orderly defaultClient oneTaskLife ∧
    fieldOf defaultClient (history .empty oneTaskLife).2 "1" "state" = some "completed" ∧
    (Store.ttl (history .empty oneTaskLife).2 (defaultClient.taskKey "1")).isSome := by
  have hstate : fieldOf defaultClient (history .empty oneTaskLife).2 "1" "state" =
      some "completed" := by decide +kernel
  exact ⟨orderly_oneTaskLife, hstate,
    ((keeps_lifecycle orderly_oneTaskLife).1.lasts "1").2 ⟨.completed, hstate⟩⟩

end TaskScheduler.RedisQueue
