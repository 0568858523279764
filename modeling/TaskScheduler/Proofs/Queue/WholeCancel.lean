import TaskScheduler.Proofs.Queue.FailedWrites
import TaskScheduler.Proofs.Queue.PopOrder
import TaskScheduler.Proofs.Queue.TimeToLive

/-!
# Canceling one task as a whole

A cancelation finds the member of a task by the number that its id stands for, and the hash of the
task by the letters of the id.  Many texts stand for one number: digits may be in upper case, a
sign, the mark `0x`, zeros and blanks may stand around them, and anything at all may stand behind a
NUL character.  Only one of these texts is the id that a push gave.  With it a cancelation acts on
one task as a whole, if the time to live is accepted and `get` can read what the hash holds already.
With any other one the task is taken off the queue, its own hash stays as it was, and the outcome is
written at a key that belongs to no task.
-/

namespace TaskScheduler.RedisQueue

open Redis

variable {q : RedisQueue} {s s' : Store} {n k : Nat} {members : List Scored}
  {hash : String → FiniteMap Bytes Bytes} {fields : FiniteMap Bytes Bytes} {id : String}
  {now : Timestamp} {e : Envelope}

/-! ### What a record is made of -/

/-- `recordOf` makes a record of what the fields say one by one. -/
theorem recordOf_eq_some_iff {texts : List (String × String)} {record : ResultRecord} :
    recordOf id texts now = .ok (some record) ↔
      (FiniteMap.find "state" texts).bind ReportStatus.ofName? = some record.status ∧
      record.id = id ∧ record.error = FiniteMap.find "error" texts ∧
      typeOf id texts = .ok record.taskType ∧ resultOf texts = .ok record.result ∧
      durationOf id texts = .ok record.durationMs ∧
      finishedOf id texts now = .ok record.finishedAt := by
  obtain ⟨rid, taskType, status, error, result, durationMs, finishedAt⟩ := record
  unfold recordOf
  cases (FiniteMap.find "state" texts).bind ReportStatus.ofName? with
  | none => simp
  | some status' =>
    dsimp only
    cases typeOf id texts with
    | error err => simp [bind, Except.bind]
    | ok t =>
      cases resultOf texts with
      | error err => simp [bind, Except.bind]
      | ok v =>
        cases durationOf id texts with
        | error err => simp [bind, Except.bind]
        | ok d =>
          cases finishedOf id texts now with
          | error err => simp [bind, Except.bind]
          | ok f =>
            simp only [bind, Except.bind, pure, Except.pure, Except.ok.injEq, Option.some.injEq,
              ResultRecord.mk.injEq]
            grind

/-- `resultOf` can read the result, if there is one, exactly when its text is JSON. -/
theorem exists_resultOf_iff (texts : List (String × String)) :
    (∃ v, resultOf texts = .ok v) ↔
      ∀ text, FiniteMap.find "result" texts = some text → (Json.parse? text).isSome := by
  unfold resultOf
  cases FiniteMap.find "result" texts with
  | none => simp
  | some text => cases hv : Json.parse? text <;> simp [hv]

/-- `durationOf` can read the duration, if there is one, exactly when its text is a number. -/
theorem exists_durationOf_iff (id : String) (texts : List (String × String)) :
    (∃ d, durationOf id texts = .ok d) ↔
      ∀ text, FiniteMap.find "duration_ms" texts = some text → (wordLiteral? text).isSome := by
  unfold durationOf
  cases FiniteMap.find "duration_ms" texts with
  | none => simp
  | some text => cases hd : wordLiteral? text <;> simp [hd]

/-- `finishedOf` can read the time of a cancelation exactly when its year has four digits. -/
theorem exists_finishedOf_iff (id : String) {texts : List (String × String)} (later : Timestamp)
    (h : FiniteMap.find "finished_at" texts = some now.toOffsetText) :
    (∃ t, finishedOf id texts later = .ok t) ↔ 0 ≤ now.date.year ∧ now.date.year ≤ 9999 := by
  unfold finishedOf
  rw [h]
  dsimp only
  by_cases hyear : 0 ≤ now.date.year ∧ now.date.year ≤ 9999
  · rw [Timestamp.strict?_toOffsetText hyear]
    exact iff_of_true ⟨_, rfl⟩ hyear
  · rw [Timestamp.strict?_toOffsetText_eq_none hyear]
    exact iff_of_false (by simp) hyear

/-- `typeOf` gives the type that the body says, unless a report has written another one. -/
theorem typeOf_eq_body_iff (id : String) {texts : List (String × String)}
    (h : (FiniteMap.find "data" texts).bind Envelope.decode? = some e) :
    typeOf id texts = .ok e.taskType ↔
      ∀ t, FiniteMap.find "type" texts = some t → t = e.taskType := by
  obtain ⟨body, hbody, hdecode⟩ := Option.bind_eq_some_iff.1 h
  unfold typeOf
  rw [hbody]
  cases FiniteMap.find "type" texts with
  | none => simp [hdecode]
  | some t => simp

/-! ### The record of a canceled task -/

/-- The record says that the task with this id and body was canceled. -/
structure IsCanceledOf (id : String) (e : Envelope) (record : ResultRecord) : Prop where
  /-- It is the record of this task. -/
  id : record.id = id
  /-- It has the type of the task. -/
  taskType : record.taskType = e.taskType
  /-- It says that the task was canceled. -/
  status : record.status = .canceled
  /-- The error says so too. -/
  error : record.error = some "task canceled"

/-- The hash of a task holds its body, nothing that `get` cannot read, and no other type than that
of the body. -/
structure Legible (e : Envelope) (fields : FiniteMap Bytes Bytes) : Prop where
  /-- The body can be read. -/
  body : (textAt fields "data").bind Envelope.decode? = some e
  /-- A type that was written before is that of the body. -/
  type : ∀ t, textAt fields "type" = some t → t = e.taskType
  /-- A result that was written before can be read. -/
  result : ∀ text, textAt fields "result" = some text → (Json.parse? text).isSome
  /-- A duration that was written before can be read. -/
  duration : ∀ text, textAt fields "duration_ms" = some text → (wordLiteral? text).isSome

/-- The hash of a task that has just been pushed is `Legible`, if its envelope is read back. -/
theorem Pending.legible {state : String} (h : Pending fields state e)
    (hbody : Envelope.decode? e.encode = some e) : Legible e fields := by
  have hbare : ∀ name ∈ ["type", "error", "result", "duration_ms", "finished_at"], ∀ text,
      textAt fields name ≠ some text := fun name hname text htext => by
    simp [h.bare name hname] at htext
  constructor
  · rw [h.data, Option.bind_some, hbody]
  · exact fun t ht => absurd ht (hbare "type" (by decide) t)
  · exact fun t ht => absurd ht (hbare "result" (by decide) t)
  · exact fun t ht => absurd ht (hbare "duration_ms" (by decide) t)

/-- After a cancelation `recordOf` makes the record of a canceled task exactly when it was asked for
by its own id, the fields were `Legible`, and the year has four digits. -/
theorem exists_recordOf_canceled_iff {texts : List (String × String)}
    (htexts : ∀ name, FiniteMap.find name texts =
      textAt (fields.insertMany (canceledFields now)) name)
    (hbody : (textAt fields "data").bind Envelope.decode? = some e) {task : String}
    {later : Timestamp} :
    (∃ record, recordOf id texts later = .ok (some record) ∧ IsCanceledOf task e record) ↔
      id = task ∧ Legible e fields ∧ 0 ≤ now.date.year ∧ now.date.year ≤ 9999 := by
  have hlook := textAt_canceledFields fields now
  have hstate : (FiniteMap.find "state" texts).bind ReportStatus.ofName? = some .canceled := by
    rw [htexts, hlook, if_neg (by decide), if_neg (by decide), if_pos rfl]
    rfl
  have herror : FiniteMap.find "error" texts = some TaskError.canceled.message := by
    simp [htexts, hlook]
  have hfinished : FiniteMap.find "finished_at" texts = some now.toOffsetText := by
    simp [htexts, hlook]
  have hdata : FiniteMap.find "data" texts = textAt fields "data" := by simp [htexts, hlook]
  have htype : FiniteMap.find "type" texts = textAt fields "type" := by simp [htexts, hlook]
  have hresult : FiniteMap.find "result" texts = textAt fields "result" := by simp [htexts, hlook]
  have hduration : FiniteMap.find "duration_ms" texts = textAt fields "duration_ms" := by
    simp [htexts, hlook]
  have htypeOf := typeOf_eq_body_iff id (hdata ▸ hbody)
  have hresultOf := exists_resultOf_iff texts
  have hdurationOf := exists_durationOf_iff id texts
  have hfinishedOf := exists_finishedOf_iff id later hfinished
  rw [htype] at htypeOf
  rw [hresult] at hresultOf
  rw [hduration] at hdurationOf
  constructor
  · rintro ⟨record, hrecord, hid, htaskType, -, -⟩
    obtain ⟨-, hself, -, ht, hr, hd, hf⟩ := recordOf_eq_some_iff.1 hrecord
    rw [htaskType] at ht
    exact ⟨hself.symm.trans hid,
      ⟨hbody, htypeOf.1 ht, hresultOf.1 ⟨_, hr⟩, hdurationOf.1 ⟨_, hd⟩⟩, hfinishedOf.1 ⟨_, hf⟩⟩
  · rintro ⟨rfl, hlegible, hyear⟩
    obtain ⟨v, hv⟩ := hresultOf.2 hlegible.result
    obtain ⟨d, hd⟩ := hdurationOf.2 hlegible.duration
    obtain ⟨t, ht⟩ := hfinishedOf.2 hyear
    refine ⟨⟨id, e.taskType, .canceled, some TaskError.canceled.message, v, d, t⟩, ?_,
      rfl, rfl, rfl, rfl⟩
    exact recordOf_eq_some_iff.2
      ⟨hstate, rfl, herror.symm, htypeOf.2 hlegible.type, hv, hd, ht⟩

/-- After a cancelation `get` shows a canceled task exactly when it was canceled by its own id, its
hash was `Legible`, and the year has four digits. -/
theorem Shows.get_canceled_iff
    (h : Shows q s n members
      (Function.update hash id ((hash id).insertMany (canceledFields now))))
    (htext : IsText (hash id)) (hbody : (textAt (hash id) "data").bind Envelope.decode? = some e)
    (task : String) (later : Timestamp) :
    (∃ record, q.get id later s = .ok (some record) ∧ IsCanceledOf task e record) ↔
      id = task ∧ Legible e (hash id) ∧ 0 ≤ now.date.year ∧ now.date.year ≤ 9999 := by
  have hself := h.hashes id
  rw [Function.update_self] at hself
  obtain ⟨texts, htexts, hfind⟩ :=
    exists_textFields?_eq (htext.insertMany (areTexts_canceledFields now))
  have hget : q.get id later s = recordOf id texts later := by
    unfold RedisQueue.get
    rw [hself]
    dsimp only
    rw [htexts]
  rw [hget]
  exact exists_recordOf_canceled_iff hfind hbody

/-! ### Cancelations of one task -/

/-- The member for a number is in the queue. -/
def HasMember (q : RedisQueue) (s : Store) (k : Nat) : Prop :=
  ∃ members, s.zset? q.queueKey = .ok members ∧ ∃ x ∈ members, x.member = memberText k

/-- The hash of a task lets `get` show the task after a cancelation. -/
def IsLegible (q : RedisQueue) (s : Store) (id : String) : Prop :=
  ∃ fields e, s.hash? (q.taskKey id) = .ok fields ∧ Legible e fields

/-- What becomes of a store when a call with the given id cancels the task of the given number and
does nothing else. -/
structure CancelsOne (q : RedisQueue) (id : String) (now : Timestamp) (k : Nat) (s s' : Store) :
    Prop where
  /-- Exactly one member leaves the queue, that of the task. -/
  left : ∃ members members' score, s.zset? q.queueKey = .ok members ∧
    s'.zset? q.queueKey = .ok members' ∧ members.Perm (⟨score, memberText k⟩ :: members')
  /-- The hash of the task tells that it was canceled and when. -/
  recorded : ∃ fields, s'.hash? (q.taskKey (idText k)) = .ok fields ∧
    textAt fields "state" = some "canceled" ∧ textAt fields "error" = some "task canceled" ∧
    textAt fields "finished_at" = some now.toOffsetText
  /-- The hash has a time to live. -/
  expires : Store.ttl s' (q.taskKey (idText k)) = some q.ttlSecs
  /-- No other key changes. -/
  others : ∀ key, key ≠ q.queueKey → key ≠ q.taskKey (idText k) → s'.get? key = s.get? key
  /-- Whenever it is asked with the same id, `get` shows the canceled task with the type that its
  body had. -/
  shown : ∃ fields e, s.hash? (q.taskKey (idText k)) = .ok fields ∧
    (textAt fields "data").bind Envelope.decode? = some e ∧
    ∀ later, ∃ record, q.get id later s' = .ok (some record) ∧ IsCanceledOf (idText k) e record

/-- A cancelation finds nothing and changes nothing, or it cancels one task and does nothing
else. -/
def ActsWhole (q : RedisQueue) (s : Store) (id : String) (now : Timestamp) : Prop :=
  q.cancel id now s = (.error (.notFound id), s) ∨
    ∃ k s', q.cancel id now s = (.ok (), s') ∧ q.CancelsOne id now k s s'

/-- `HasMember` is read off the members that a store `Shows`. -/
theorem Shows.hasMember_iff (h : Shows q s n members hash) :
    q.HasMember s k ↔ ∃ x ∈ members, x.member = memberText k := by
  unfold HasMember
  rw [h.members]
  simp only [Except.ok.injEq, exists_eq_left']

/-- A cancelation changes the `queueKey` and the `taskKey` of its id, and no other. -/
theorem get?_cancel_of_ne {key : Bytes} (hqueue : key ≠ q.queueKey) (htask : key ≠ q.taskKey id) :
    (q.cancel id now s).2.get? key = s.get? key := by
  unfold cancel
  split
  · rfl
  next n hread =>
    split
    · rfl
    next s₁ hzrem => exact Store.get?_zrem_of_ne hzrem hqueue
    next s₁ hzrem =>
      have h₁ := Store.get?_zrem_of_ne hzrem hqueue
      dsimp only
      split
      · exact h₁
      next s₂ hhset =>
        have h₂ := Store.get?_hset_of_ne hhset htask
        split
        · exact h₂.trans h₁
        next s₃ hexpire => exact (Store.get?_expire_of_ne hexpire htask).trans (h₂.trans h₁)

/-- The members of a queue are different, and its hashes are made of texts. -/
def IsSound (members : List Scored) (hash : String → FiniteMap Bytes Bytes) : Prop :=
  (members.map Scored.member).Nodup ∧ ∀ id, IsText (hash id)

/-- No operation breaks `IsSound`. -/
theorem isLasting_isSound : IsLasting IsSound where
  add := by
    rintro members hash ⟨hdistinct, htext⟩ score k
    refine ⟨Store.nodup_insertScored (hdistinct.sublist (List.filter_sublist.map _))
      fun x hx => ?_, htext⟩
    simpa using (List.mem_filter.1 hx).2
  drop h hsub := ⟨h.1.sublist (hsub.map _), h.2⟩
  write h id _ hfields := ⟨h.1, isText_update h.2 ((h.2 id).insertMany hfields)⟩
  lapse := by
    rintro members hash hash' ⟨hdistinct, htext⟩ hcases
    refine ⟨hdistinct, fun id => ?_⟩
    rcases hcases id with hid | hid
    · rw [hid]
      exact htext id
    · rw [hid]
      exact isText_empty

/-- In a queue that `IsSound` the member that left tells its number. -/
theorem IsSound.eq_of_perm (h : IsSound members hash) {score : Int} {j : Nat}
    (hj : ∃ x ∈ members, x.member = memberText j)
    (hperm : members.Perm
      (⟨score, memberText k⟩ :: members.filter fun x => x.member ≠ memberText j)) : k = j := by
  obtain ⟨x, hx, hxj⟩ := hj
  have hself := Store.perm_cons_filter h.1 hx
  rw [hxj] at hself
  have hsingle : [(⟨score, memberText k⟩ : Scored)].Perm [x] :=
    (List.perm_append_right_iff _).1 (hperm.symm.trans hself)
  have hmember := congrArg Scored.member (List.singleton_perm_singleton.1 hsingle)
  exact memberText_injective (hmember.trans hxj)

/-- The id that a push gave `CancelsOne` task, if the time to live is accepted and the hash is
legible. -/
theorem Shows.cancelsOne (h : Shows q s n members hash) (hsound : IsSound members hash)
    (hread : scriptRead? (idText k).toList = some k) (hk : ∃ x ∈ members, x.member = memberText k)
    (hsecs : q.ttlSecs ≤ Store.maxTtl now.millis) (hlegible : Legible e (hash (idText k)))
    (hyear : 0 ≤ now.date.year ∧ now.date.year ≤ 9999) :
    ∃ s', q.cancel (idText k) now s = (.ok (), s') ∧ q.CancelsOne (idText k) now k s s' := by
  obtain ⟨answer, s', hcancel, hkept, h'⟩ := h.cancel_found hread hk now
  obtain rfl := hkept.eq_ok hsecs
  have hstore : (q.cancel (idText k) now s).2 = s' := congrArg Prod.snd hcancel
  have hself := h'.hashes (idText k)
  rw [Function.update_self] at hself
  refine ⟨s', hcancel, ?_⟩
  constructor
  case left =>
    obtain ⟨x, hx, hxk⟩ := hk
    have hperm := Store.perm_cons_filter hsound.1 hx
    obtain ⟨score, member⟩ := x
    obtain rfl : member = memberText k := hxk
    exact ⟨_, _, score, h.members, h'.members, hperm⟩
  case recorded =>
    refine ⟨_, hself, ?_⟩
    simp only [textAt_canceledFields]
    exact ⟨rfl, rfl, rfl⟩
  case expires =>
    have hok : (q.cancel (idText k) now s).1 = .ok () := congrArg Prod.fst hcancel
    rw [← hstore, ttl_cancel hok (taskKey_ne_queueKey _), if_pos rfl]
  case others =>
    intro key hqueue htask
    rw [← hstore]
    exact get?_cancel_of_ne hqueue htask
  case shown =>
    refine ⟨_, e, h.hashes _, hlegible.body, fun later => ?_⟩
    exact (h'.get_canceled_iff (hsound.2 _) hlegible.body _ later).2 ⟨rfl, hlegible, hyear⟩

/-- A record that `get` answers has the id that it was asked for. -/
theorem id_of_get {record : ResultRecord} (h : q.get id now s = .ok (some record)) :
    record.id = id := by
  unfold RedisQueue.get at h
  split at h
  · exact absurd h (by simp)
  split at h
  · exact absurd h (by simp)
  exact (recordOf_eq_some_iff.1 h).2.1

/-- A cancelation that finds its member `ActsWhole` only if its id is the one that a push gave, the
time to live is accepted and the hash is legible. -/
theorem Shows.of_actsWhole (h : Shows q s n members hash) (hsound : IsSound members hash)
    (hread : scriptRead? id.toList = some k) (hk : ∃ x ∈ members, x.member = memberText k)
    (hwhole : q.ActsWhole s id now) :
    id = idText k ∧ q.ttlSecs ≤ Store.maxTtl now.millis ∧ q.IsLegible s id ∧
      0 ≤ now.date.year ∧ now.date.year ≤ 9999 := by
  obtain ⟨answer, s', hcancel, hkept, h'⟩ := h.cancel_found hread hk now
  rcases hwhole with hnone | ⟨j, s'', hone, hcancels⟩
  · exact absurd (congrArg Prod.fst (hcancel.symm.trans hnone)) (hkept.ne_notFound id)
  -- the member that left is the one that the id stands for
  obtain ⟨rfl, rfl⟩ := Prod.mk.inj (hcancel.symm.trans hone)
  obtain ⟨members₁, members₂, score, hbefore, hafter, hperm⟩ := hcancels.left
  obtain rfl : members = members₁ := Except.ok.inj (h.members.symm.trans hbefore)
  obtain rfl := Except.ok.inj (h'.members.symm.trans hafter)
  obtain rfl := hsound.eq_of_perm hk hperm
  obtain ⟨fields, e, hfields, hbody, hshown⟩ := hcancels.shown
  -- a record has the id that was asked for, and this one is the record of the task
  obtain ⟨record, hget, hrecord⟩ := hshown now
  obtain rfl : id = idText j := (id_of_get hget).symm.trans hrecord.id
  obtain rfl := Except.ok.inj ((h.hashes _).symm.trans hfields)
  obtain ⟨-, hlegible, hyear⟩ :=
    (h'.get_canceled_iff (hsound.2 _) hbody (idText j) now).1 ⟨record, hget, hrecord⟩
  exact ⟨rfl, hkept.ttlSecs_le, ⟨_, e, h.hashes _, hlegible⟩, hyear⟩

/-- A cancelation `ActsWhole` exactly when it finds no member, or its id is the one that a push
gave, the time to live is accepted and the hash is legible. -/
theorem Shows.actsWhole_iff (h : Shows q s n members hash) (hsound : IsSound members hash)
    (id : String) (now : Timestamp) :
    q.ActsWhole s id now ↔ ∀ k, scriptRead? id.toList = some k → q.HasMember s k →
      id = idText k ∧ q.ttlSecs ≤ Store.maxTtl now.millis ∧ q.IsLegible s id ∧
        0 ≤ now.date.year ∧ now.date.year ≤ 9999 := by
  simp only [h.hasMember_iff]
  constructor
  · intro hwhole k hread hk
    exact h.of_actsWhole hsound hread hk hwhole
  · intro hall
    by_cases hid : ∃ k, scriptRead? id.toList = some k ∧ ∃ x ∈ members, x.member = memberText k
    · obtain ⟨k, hread, hk⟩ := hid
      obtain ⟨rfl, hsecs, ⟨fields, e, hfields, hlegible⟩, hyear⟩ := hall k hread hk
      obtain rfl := Except.ok.inj ((h.hashes _).symm.trans hfields)
      obtain ⟨s', hcancel, hcancels⟩ := h.cancelsOne hsound hread hk hsecs hlegible hyear
      exact .inr ⟨k, s', hcancel, hcancels⟩
    · exact .inl (h.cancel_notFound (fun k hread x hx hxk => hid ⟨k, hread, x, hx, hxk⟩) now)

/-- Clients of one prefix reach stores that hold a queue that `IsSound`. -/
theorem holdsQueueWith_isSound {events : List Event}
    (hclients : ∀ e ∈ events, ∀ client, e.client? = some client →
      client.config.keyPrefix = q.config.keyPrefix) :
    HoldsQueueWith IsSound q (history .empty events).2 := by
  have hempty : HoldsQueueWith IsSound q .empty :=
    ⟨0, [], _, ⟨.empty q, by decide, by simp⟩, List.nodup_nil, fun _ => isText_empty⟩
  exact hempty.history isLasting_isSound hclients

/-- In every store that clients of one prefix can reach, a cancelation acts on one task as a whole
or finds none exactly when this holds: if its id stands for the number of a queued task, then it is
the id that the push of this number gave, the time to live is accepted, and the hash is legible. -/
theorem cancel_actsWhole_iff {events : List Event}
    (hclients : ∀ e ∈ events, ∀ client, e.client? = some client →
      client.config.keyPrefix = q.config.keyPrefix) (id : String) (now : Timestamp) :
    q.ActsWhole (history .empty events).2 id now ↔
      ∀ k, scriptRead? id.toList = some k → q.HasMember (history .empty events).2 k →
        id = idText k ∧ q.ttlSecs ≤ Store.maxTtl now.millis ∧
          q.IsLegible (history .empty events).2 id ∧
          0 ≤ now.date.year ∧ now.date.year ≤ 9999 := by
  obtain ⟨n, members, hash, hkeeps, hsound⟩ := holdsQueueWith_isSound hclients
  exact hkeeps.view.actsWhole_iff hsound id now

/-! ### One task and two spellings of its id -/

/-- `defaultClient` pushes a task. -/
def onePush : List Event := [.call defaultClient (.push ⟨"echo", .null, none⟩ 0)]

/-- `defaultClient` is the only one that acts in `onePush`. -/
theorem keyPrefix_of_mem_onePush : ∀ e ∈ onePush, ∀ client, e.client? = some client →
    client.config.keyPrefix = defaultClient.config.keyPrefix := by
  intro e he client hclient
  cases List.mem_singleton.1 he
  cases hclient
  rfl

/-- After `onePush` the id that the push gave cancels the task as a whole. -/
theorem cancel_actsWhole_iff_onePush :
    (∀ e ∈ onePush, ∀ client, e.client? = some client →
      client.config.keyPrefix = defaultClient.config.keyPrefix) ∧
    defaultClient.ActsWhole (history .empty onePush).2 "1" .epoch := by
  refine ⟨keyPrefix_of_mem_onePush,
    (cancel_actsWhole_iff keyPrefix_of_mem_onePush "1" .epoch).2 fun k hk _ => ?_⟩
  have hread : scriptRead? "1".toList = some 1 := scriptRead?_idText (n := 1) (by decide)
  obtain rfl := Option.some.inj (hread.symm.trans hk)
  have hbody : Envelope.decode? (Envelope.encode ⟨"echo", .null, none⟩) =
      some ⟨"echo", .null, none⟩ := by decide +kernel
  have hview := shows_firstPush defaultClient ⟨"echo", .null, none⟩ 0
  refine ⟨rfl, by decide, ⟨_, ⟨"echo", .null, none⟩, hview.hashes "1", ?_⟩, by decide⟩
  rw [Function.update_self]
  exact (Pending.of_push _ _).legible hbody

/-- After `onePush` the cancelation of the id with a zero in front succeeds and does not act as a
whole. -/
theorem exists_not_actsWhole : ∃ (q : RedisQueue) (events : List Event) (id : String)
    (now : Timestamp), q.config.validate = .ok () ∧ (∀ e ∈ events, e.client? = some q) ∧
    (q.cancel id now (history .empty events).2).1 = .ok () ∧
    ¬ q.ActsWhole (history .empty events).2 id now := by
  have hread : scriptRead? "01".toList = some 1 := scriptRead?_eq rfl (by decide)
  have hview := shows_firstPush defaultClient ⟨"echo", .null, none⟩ 0
  have hmember := List.mem_singleton_self
    (⟨Binary64.roundInt (0 : Int64).toInt, memberText 1⟩ : Scored)
  refine ⟨defaultClient, onePush, "01", .epoch, rfl, ?_, ?_, fun hwhole => ?_⟩
  · intro e he
    cases List.mem_singleton.1 he
    rfl
  · obtain ⟨answer, s', hcancel, hkept, -⟩ := hview.cancel_found hread ⟨_, hmember, rfl⟩ .epoch
    exact (congrArg Prod.fst hcancel).trans (hkept.eq_ok (by decide))
  · obtain ⟨n, members, hash, hkeeps, hsound⟩ := holdsQueueWith_isSound keyPrefix_of_mem_onePush
    have hid := ((hkeeps.view.actsWhole_iff hsound "01" .epoch).1 hwhole 1 hread
      ⟨_, hview.members, _, hmember, rfl⟩).1
    exact absurd hid (by decide)

end TaskScheduler.RedisQueue
