import TaskScheduler.Proofs.Queue.Recorded
import TaskScheduler.Proofs.Queue.Stages
import TaskScheduler.Proofs.Queue.WholeCancel

/-!
# A store in which times to live end

Times to live end on their own, between the calls of a client.  An `ExpiringConnection` is a
connection to a store in which this happens: before each call some keys lapse, and a schedule says
which.  A key without a time to live does not lapse, so every run of a real store is one of a
suitable schedule, and what is proved for all schedules holds whenever and in whatever order the
times to live end.

Such a queue keeps the same contract as one in which nothing lapses, and it keeps records: a task
that was canceled while it was queued is answered as such until its own key lapses.
-/

namespace TaskScheduler

/-- A connection to a store in which times to live end. -/
structure ExpiringConnection where
  /-- The connection. -/
  connection : RedisConnection
  /-- The keys whose times to live end before each of the next calls, next call first. -/
  schedule : List (List Bytes) := []
  /-- The keys that were removed because their times to live had ended. -/
  lapsed : List Bytes := []

namespace ExpiringConnection

open Redis RedisQueue

/-- The time to live of a key ends, if it has one, and the key is noted in `lapsed`. -/
def lapse (c : ExpiringConnection) (key : Bytes) : ExpiringConnection :=
  { c with
    connection := { c.connection with store := c.connection.store.lapse key }
    lapsed := if (Store.ttl c.connection.store key).isSome then key :: c.lapsed else c.lapsed }

/-- What the schedule has for the next call: its keys lapse, one after the other. -/
def age (c : ExpiringConnection) : ExpiringConnection :=
  (c.schedule.headD []).foldl lapse { c with schedule := c.schedule.tail }

/-- Carry a call to the store, after what happens before it. -/
def carry {α : Type} (c : ExpiringConnection) (f : RedisConnection → α × RedisConnection) :
    α × ExpiringConnection :=
  ((f c.age.connection).1, { c.age with connection := (f c.age.connection).2 })

instance : TaskQueue ExpiringConnection where
  ping c := TaskQueue.ping c.age.connection
  push c e priority := c.carry fun r => TaskQueue.push r e priority
  pop c now := c.carry fun r => TaskQueue.pop r now
  cancel c id now := c.carry fun r => TaskQueue.cancel r id now
  report c report now := c.carry fun r => TaskQueue.report r report now

/-- What one `lapse` keeps is kept by all that happens before a call. -/
theorem age_induction {P : ExpiringConnection → Prop} (hlapse : ∀ c key, P c → P (c.lapse key))
    {c : ExpiringConnection} (h : P { c with schedule := c.schedule.tail }) : P c.age := by
  unfold age
  generalize c.schedule.headD [] = keys
  generalize { c with schedule := c.schedule.tail } = d at h
  induction keys generalizing d with
  | nil => exact h
  | cons key keys ih => exact ih _ (hlapse d key h)

/-! ### The contract -/

/-- What happens before a call keeps the contract of `RedisConnection`. -/
theorem holds_age {c : ExpiringConnection} {n : Nat} {ids : List String}
    (h : RedisConnection.contract.Holds c.connection n ids) :
    RedisConnection.contract.Holds c.age.connection n ids :=
  age_induction (P := fun d => RedisConnection.contract.Holds d.connection n ids)
    (fun _ key ⟨hc, members, hlayout, hids⟩ => ⟨hc, members, hlayout.lapse key, hids⟩) h

/-- `ExpiringConnection` keeps the contract of `RedisConnection`, which says nothing of times to
live. -/
def contract : QueueContract ExpiringConnection where
  Holds c n ids := RedisConnection.contract.Holds c.connection n ids
  HasRoom := RedisConnection.contract.HasRoom
  name := RedisConnection.contract.name
  means := RedisConnection.contract.means
  name_injective := RedisConnection.contract.name_injective
  means_name := RedisConnection.contract.means_name
  push h hn := RedisConnection.contract.push (holds_age h) hn
  pop h := RedisConnection.contract.pop (holds_age h)
  cancel_found h _ _ hmeans hi := RedisConnection.contract.cancel_found (holds_age h) hmeans hi
  cancel_notFound h _ hid := RedisConnection.contract.cancel_notFound (holds_age h) hid
  report h := RedisConnection.contract.report (holds_age h)

/-- A new `ExpiringConnection` to an empty store keeps the contract, whatever its schedule is. -/
theorem contract_holds_new (q : RedisQueue) (schedule : List (List Bytes)) :
    contract.Holds { connection := { queue := q, store := .empty }, schedule := schedule } 0 [] :=
  RedisConnection.contract_holds_new q

end ExpiringConnection

/-! ### Notes in a store -/

namespace RedisQueue

open Redis

variable {q : RedisQueue} {s s' : Store} {n : Nat} {members members' : List Scored}
  {hash : String → FiniteMap Bytes Bytes} {id : String} {note : Note}

/-- What a store has noted of an id: a queued task has a hash with its body that does not expire,
and a cancelation writes into this hash. -/
def Notes (q : RedisQueue) (s : Store) (id : String) : Note → Prop
  | .blank => s.hash? (q.taskKey id) = .ok .empty ∧ Store.ttl s (q.taskKey id) = none
  | .body e => ∃ fields, s.hash? (q.taskKey id) = .ok fields ∧
      Store.ttl s (q.taskKey id) = none ∧ Pending fields "queued" e
  | .canceled e wall => ∃ fields,
      s.hash? (q.taskKey id) = .ok (fields.insertMany (canceledFields wall)) ∧
        Pending fields "queued" e

/-- `Notes` looks at the hash of the task and at its time to live only. -/
theorem Notes.congr (h : q.Notes s id note)
    (hhash : s'.hash? (q.taskKey id) = s.hash? (q.taskKey id))
    (httl : Store.ttl s' (q.taskKey id) = Store.ttl s (q.taskKey id)) : q.Notes s' id note := by
  cases note with
  | blank => exact ⟨hhash.trans h.1, httl.trans h.2⟩
  | body e =>
    obtain ⟨fields, hfields, hlasts, hpending⟩ := h
    exact ⟨fields, hhash.trans hfields, httl.trans hlasts, hpending⟩
  | canceled e wall =>
    obtain ⟨fields, hfields, hpending⟩ := h
    exact ⟨fields, hhash.trans hfields, hpending⟩

/-- What leaves the key of a task leaves its `Notes`. -/
theorem Notes.congr_key (h : q.Notes s id note)
    (hkey : s'.get? (q.taskKey id) = s.get? (q.taskKey id)) : q.Notes s' id note :=
  h.congr (Store.hash?_congr hkey) (Store.ttl_congr hkey)

/-- If a change of the store `Shows` in the hash of one task, it leaves the hashes of the others. -/
theorem Shows.hash?_update (h : Shows q s n members hash) {task : String}
    {fields : FiniteMap Bytes Bytes} {n' : Nat}
    (h' : Shows q s' n' members' (Function.update hash task fields)) (hne : id ≠ task) :
    s'.hash? (q.taskKey id) = s.hash? (q.taskKey id) := by
  rw [h'.hashes, h.hashes, Function.update_of_ne hne]

/-- A push makes `Note.body` of the new task: its hash has the envelope and does not expire. -/
theorem Shows.notes_push (h : Shows q s n members hash) (hn : n + 1 ≤ 2 ^ 53)
    (hblank : q.Notes s (idText (n + 1)) .blank) (e : Envelope) (priority : Int64) :
    q.Notes (q.push e priority s).2 (idText (n + 1)) (.body e) := by
  have httl : Store.ttl (q.push e priority s).2 (q.taskKey (idText (n + 1))) =
      Store.ttl s (q.taskKey (idText (n + 1))) := ttl_push e priority (taskKey_ne_queueKey _)
  obtain ⟨s', hpush, hview⟩ := h.push hn e priority
  have hempty : hash (idText (n + 1)) = .empty :=
    Except.ok.inj ((h.hashes _).symm.trans hblank.1)
  have hself := hview.hashes (idText (n + 1))
  rw [Function.update_self, hempty] at hself
  rw [hpush] at httl ⊢
  exact ⟨_, hself, httl.trans hblank.2, .of_push _ e⟩

/-- A push leaves the `Notes` of the other tasks. -/
theorem Shows.notes_push_other (h : Shows q s n members hash) (hn : n + 1 ≤ 2 ^ 53)
    (hne : id ≠ idText (n + 1)) (hnote : q.Notes s id note) (e : Envelope) (priority : Int64) :
    q.Notes (q.push e priority s).2 id note := by
  have httl : Store.ttl (q.push e priority s).2 (q.taskKey id) = Store.ttl s (q.taskKey id) :=
    ttl_push e priority (taskKey_ne_queueKey id)
  obtain ⟨s', hpush, hview⟩ := h.push hn e priority
  rw [hpush] at httl ⊢
  exact hnote.congr (h.hash?_update hview hne) httl

/-- A report leaves the `Notes` of the other tasks. -/
theorem Shows.notes_report (h : Shows q s n members hash) {r : TaskReport} (hne : id ≠ r.id)
    (hnote : q.Notes s id note) (now : Timestamp) : q.Notes (q.report r now s).2 id note := by
  have hkey : q.taskKey id ≠ q.taskKey r.id := taskKey_injective.ne hne
  obtain ⟨s₁, hhset, -⟩ := h.hset r.id (reportedFields (r.toRecord now))
  refine hnote.congr_key ?_
  rw [report_eq_keep hhset, ← Store.get?_hset_of_ne hhset hkey]
  unfold RedisQueue.keep
  split
  · rfl
  next s₂ hexpire => exact Store.get?_expire_of_ne hexpire hkey

/-- A pop leaves the `Notes` of all tasks but the one that it takes off. -/
theorem Shows.notes_pop (h : Shows q s n members hash) (htext : ∀ id, IsText (hash id))
    (hnumber : ∀ x ∈ members, ∃ k, memberNumber? x.member = some k) (now : Timestamp)
    (hid : id ∉ takenIds (q.pop now s).1) (hnote : q.Notes s id note) :
    q.Notes (q.pop now s).2 id note := by
  rw [pop_fst] at hid
  have httl : Store.ttl (q.take s).2 (q.taskKey id) = Store.ttl s (q.taskKey id) :=
    ttl_take (taskKey_ne_queueKey id)
  cases members with
  | nil => rwa [pop_eq, h.take_nil]
  | cons x rest =>
    obtain ⟨k, hk⟩ := hnumber x List.mem_cons_self
    obtain ⟨s', htake, hview⟩ := h.take_cons hk
    rw [htake] at httl
    have hne : id ≠ idText k := by
      rwa [htake, RedisConnection.takenIds_eq q now, consumed_taken (htext _),
        List.mem_singleton] at hid
    have htaken : q.Notes s' id note := hnote.congr (h.hash?_update hview hne) httl
    rw [pop_eq, htake]
    split
    next task reason s₁ heq =>
      obtain ⟨hanswer, rfl⟩ := Prod.mk.inj heq
      rw [htake, hanswer] at hid
      exact hview.notes_report (List.ne_of_not_mem_cons hid) htaken now
    next => exact htaken

/-- A cancelation that is answered with `ok` makes `Note.canceled` of a queued task. -/
theorem Shows.notes_cancel (h : Shows q s n members hash) {e : Envelope} {now : Timestamp}
    (hnote : q.Notes s id (.body e)) (hok : (q.cancel id now s).1 = .ok ()) :
    q.Notes (q.cancel id now s).2 id (.canceled e now) := by
  obtain ⟨fields, hfields, -, hpending⟩ := hnote
  obtain rfl : hash id = fields := Except.ok.inj ((h.hashes id).symm.trans hfields)
  rcases h.cancel_cases id now with hnone | ⟨answer, s', members', hcancel, hview⟩
  · rw [hnone] at hok
    cases hok
  · rw [hcancel]
    have hself := hview.hashes id
    rw [Function.update_self] at hself
    exact ⟨_, hself, hpending⟩

/-- A cancelation leaves the `Notes` of the other tasks, and of its own if it does not find it. -/
theorem Shows.notes_cancel_other (h : Shows q s n members hash) {task : String} {now : Timestamp}
    (hother : id = task → (q.cancel task now s).1 = .error (.notFound task))
    (hnote : q.Notes s id note) : q.Notes (q.cancel task now s).2 id note := by
  by_cases heq : id = task
  · have hmissed := hother heq
    by_cases hid : ∃ k, scriptRead? task.toList = some k ∧ ∃ x ∈ members, x.member = memberText k
    · obtain ⟨k, hk, hx⟩ := hid
      obtain ⟨answer, s', hcancel, hkept, -⟩ := h.cancel_found hk hx now
      rw [hcancel] at hmissed
      exact absurd hmissed (hkept.ne_notFound task)
    · rwa [h.cancel_notFound (fun k hk x hx hxk => hid ⟨k, hk, x, hx, hxk⟩) now]
  · exact hnote.congr_key
      (get?_cancel_of_ne (taskKey_ne_queueKey id) (taskKey_injective.ne heq))

/-- `RedisQueue.get` answers a canceled task as such, without a result, if the envelope can be read
back and the year has four digits. -/
theorem Notes.get_canceled {e : Envelope} {wall : Timestamp}
    (h : q.Notes s id (.canceled e wall)) (hbody : Envelope.decode? e.encode = some e)
    (hyear : 0 ≤ wall.date.year ∧ wall.date.year ≤ 9999) (now : Timestamp) :
    q.get id now s =
      .ok (some ⟨id, e.taskType, .canceled, some "task canceled", none, 0, wall⟩) := by
  obtain ⟨fields, hfields, hpending⟩ := h
  have hlook := textAt_canceledFields fields wall
  obtain ⟨texts, htexts, hfind⟩ :=
    exists_textFields?_eq (hpending.text.insertMany (areTexts_canceledFields wall))
  replace hfind : ∀ name, FiniteMap.find name texts =
      textAt (fields.insertMany (canceledFields wall)) name := hfind
  have hbare : ∀ name ∈ ["type", "result", "duration_ms"], FiniteMap.find name texts = none := by
    intro name hname
    rw [hfind, hlook]
    simp only [List.mem_cons, List.not_mem_nil, or_false] at hname
    rcases hname with rfl | rfl | rfl <;> simp [hpending.bare]
  have hdata : (FiniteMap.find "data" texts).bind Envelope.decode? = some e := by
    simp [hfind, hlook, hpending.data, hbody]
  have hget : q.get id now s = recordOf id texts now := by
    unfold RedisQueue.get
    rw [hfields]
    dsimp only
    rw [htexts]
  have hstate : (FiniteMap.find "state" texts).bind ReportStatus.ofName? = some .canceled := by
    rw [hfind, hlook, if_neg (by decide), if_neg (by decide), if_pos rfl]
    rfl
  have herror : FiniteMap.find "error" texts = some TaskError.canceled.message := by
    simp [hfind, hlook]
  have htype : typeOf id texts = .ok e.taskType := by
    rw [typeOf_eq_body_iff id hdata, hbare "type" (by decide)]
    exact fun t ht => absurd ht (by simp)
  have hresult : resultOf texts = .ok none := by
    unfold resultOf
    rw [hbare "result" (by decide)]
  have hduration : durationOf id texts = .ok 0 := by
    unfold durationOf
    rw [hbare "duration_ms" (by decide)]
  have hfinished : finishedOf id texts now = .ok wall := by
    have htext : FiniteMap.find "finished_at" texts = some wall.toOffsetText := by
      simp [hfind, hlook]
    unfold finishedOf
    rw [htext]
    dsimp only
    rw [Timestamp.strict?_toOffsetText hyear]
  rw [hget, recordOf_eq_some_iff]
  exact ⟨hstate, rfl, herror.symm, htype, hresult, hduration, hfinished⟩

end RedisQueue

/-! ### The records -/

namespace ExpiringConnection

open Redis RedisQueue

variable {c : ExpiringConnection} {id : String} {note : Note}

/-- The key of the task is among those that have lapsed. -/
def HasLapsed (c : ExpiringConnection) (id : String) : Prop :=
  c.connection.queue.taskKey id ∈ c.lapsed

/-- What is noted of an id: what the store has noted, or a cancelation whose record has lapsed. -/
def Notes (c : ExpiringConnection) (id : String) (note : Note) : Prop :=
  (∃ e wall, note = .canceled e wall ∧ c.HasLapsed id) ∨
    c.connection.queue.Notes c.connection.store id note

/-- The end of a time to live leaves the `Notes` of every id. -/
theorem Notes.lapse (h : c.Notes id note) (key : Bytes) : (c.lapse key).Notes id note := by
  rcases h with ⟨e, wall, rfl, hgone⟩ | h
  · refine .inl ⟨e, wall, rfl, ?_⟩
    change _ ∈ ite _ _ _
    split
    · exact List.mem_cons_of_mem _ hgone
    · exact hgone
  · rcases eq_or_ne (c.connection.queue.taskKey id) key with rfl | hne
    · cases httl : Store.ttl c.connection.store (c.connection.queue.taskKey id) with
      | none =>
        refine .inr ?_
        change c.connection.queue.Notes (c.connection.store.lapse _) id note
        rwa [Store.lapse_eq_self httl]
      | some secs =>
        -- only a canceled task has a time to live
        cases note with
        | blank => exact absurd (httl.symm.trans h.2) (by simp)
        | body e =>
          obtain ⟨fields, -, hlasts, -⟩ := h
          exact absurd (httl.symm.trans hlasts) (by simp)
        | canceled e wall =>
          refine .inl ⟨e, wall, rfl, ?_⟩
          change _ ∈ ite _ _ _
          rw [httl]
          exact List.mem_cons_self
    · exact .inr (h.congr_key (Store.get?_lapse_of_ne hne))

/-- What happens before a call leaves the `Notes` of every id. -/
theorem Notes.age (h : c.Notes id note) : c.age.Notes id note :=
  age_induction (P := fun d => d.Notes id note) (fun _ key hd => hd.lapse key) h

/-- A note other than `Note.canceled` is still in the store when the next call gets there. -/
theorem Notes.store_age (h : c.Notes id note) (hnote : ∀ e wall, note ≠ .canceled e wall) :
    c.age.connection.queue.Notes c.age.connection.store id note := by
  rcases h.age with ⟨e, wall, heq, -⟩ | h
  · exact absurd heq (hnote e wall)
  · exact h

/-- A call that keeps its queue and leaves what the store has noted of an id leaves its `Notes`. -/
theorem Notes.carry {α : Type} (h : c.Notes id note) {f : RedisConnection → α × RedisConnection}
    (hqueue : (f c.age.connection).2.queue = c.age.connection.queue)
    (hkeeps : c.age.connection.queue.Notes c.age.connection.store id note →
      c.age.connection.queue.Notes (f c.age.connection).2.store id note) :
    (c.carry f).2.Notes id note := by
  rcases h.age with ⟨e, wall, rfl, hgone⟩ | h
  · refine .inl ⟨e, wall, rfl, ?_⟩
    change (f c.age.connection).2.queue.taskKey id ∈ c.age.lapsed
    rw [hqueue]
    exact hgone
  · refine .inr ?_
    change (f c.age.connection).2.queue.Notes (f c.age.connection).2.store id note
    rw [hqueue]
    exact hkeeps h

/-- When a call gets to the store, the connection has not been lost, and the store `Shows` its
counter, its members and its hashes. -/
theorem exists_view {n : Nat} {ids : List String} (hc : contract.Holds c n ids) :
    c.age.connection.lost = false ∧ ∃ members hash,
      Shows c.age.connection.queue c.age.connection.store n members hash ∧
      (∀ id, IsText (hash id)) ∧ ∀ x ∈ members, ∃ k, memberNumber? x.member = some k := by
  obtain ⟨hlost, members, h, -⟩ := holds_age hc
  obtain ⟨hash, hview, htext⟩ := h.view
  refine ⟨hlost, members, hash, hview, htext, fun x hx => ?_⟩
  obtain ⟨k, -, hk, hxk⟩ := h.ids x hx
  exact ⟨k, by rw [hxk, memberNumber?_memberText (hk.trans h.few)]⟩

/-- `ExpiringConnection` keeps records: they last until their keys have lapsed.  A cancelation can
be read back if its envelope can, and if the year has four digits. -/
def records : QueueRecords contract where
  get c id now := c.connection.queue.get id now c.connection.store
  HasLapsed := HasLapsed
  Reads e wall :=
    Envelope.decode? e.encode = some e ∧ 0 ≤ wall.date.year ∧ wall.date.year ≤ 9999
  Notes := Notes
  push := by
    intro c n ids hc hn hnote e priority
    obtain ⟨hlost, members, hash, hview, -⟩ := exists_view hc
    have hblank := hnote.store_age (by simp)
    have hpush := RedisConnection.push_eq hlost e priority
    refine .inr ?_
    change (TaskQueue.push c.age.connection e priority).2.queue.Notes
      (TaskQueue.push c.age.connection e priority).2.store _ _
    rw [hpush]
    exact hview.notes_push hn hblank e priority
  push_other := by
    intro c n ids hc hn id note hne hnote e priority
    obtain ⟨hlost, members, hash, hview, -⟩ := exists_view hc
    have hpush := RedisConnection.push_eq hlost e priority
    refine hnote.carry (by rw [hpush]) fun hstore => ?_
    rw [hpush]
    exact hview.notes_push_other hn hne hstore e priority
  pop_other := by
    intro c n ids hc id note now hid hnote
    obtain ⟨hlost, members, hash, hview, htext, hnumber⟩ := exists_view hc
    have hpop := RedisConnection.pop_eq hlost now
    have hleft : id ∉ takenIds (TaskQueue.pop c.age.connection now).1 := hid
    rw [hpop] at hleft
    refine hnote.carry (by rw [hpop]) fun hstore => ?_
    rw [hpop]
    exact hview.notes_pop htext hnumber now hleft hstore
  cancel := by
    intro c n ids hc id e now hnote hok
    obtain ⟨hlost, members, hash, hview, -⟩ := exists_view hc
    have hbody := hnote.store_age (by simp)
    have hcancel := RedisConnection.cancel_eq hlost id now
    replace hok : (TaskQueue.cancel c.age.connection id now).1 = .ok () := hok
    refine .inr ?_
    change (TaskQueue.cancel c.age.connection id now).2.queue.Notes
      (TaskQueue.cancel c.age.connection id now).2.store _ _
    rw [hcancel] at hok ⊢
    exact hview.notes_cancel hbody hok
  cancel_other := by
    intro c n ids hc id task note now hother hnote
    obtain ⟨hlost, members, hash, hview, -⟩ := exists_view hc
    have hcancel := RedisConnection.cancel_eq hlost task now
    replace hother : id = task →
        (TaskQueue.cancel c.age.connection task now).1 = .error (.notFound task) := hother
    rw [hcancel] at hother
    refine hnote.carry (by rw [hcancel]) fun hstore => ?_
    rw [hcancel]
    exact hview.notes_cancel_other hother hstore
  report_other := by
    intro c n ids hc id note r hne hnote now
    obtain ⟨hlost, members, hash, hview, -⟩ := exists_view hc
    have hreport := RedisConnection.report_snd hlost (hview.hashes r.id) now
    refine hnote.carry (by rw [hreport]) fun hstore => ?_
    rw [hreport]
    exact hview.notes_report hne hstore now
  get_canceled := by
    rintro c id e wall (⟨e', wall', -, hgone⟩ | h) hlapsed ⟨hbody, hyear⟩ now
    · exact absurd hgone hlapsed
    · exact h.get_canceled hbody hyear now

/-- A new `ExpiringConnection` to an empty store is new to its records, whatever its schedule is. -/
theorem records_isNew (q : RedisQueue) (schedule : List (List Bytes)) :
    records.IsNew { connection := { queue := q, store := .empty }, schedule := schedule } :=
  fun _ _ => .inr ⟨rfl, rfl⟩

end ExpiringConnection

end TaskScheduler
