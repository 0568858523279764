import TaskScheduler.Proofs.Queue.Isolation
import TaskScheduler.Proofs.Queue.Memory
import TaskScheduler.Proofs.Queue.Payload
import TaskScheduler.Queue.Connection

/-!
# The types of queued tasks

Whoever hands tasks to a queue knows their types, and whoever takes them off relies on getting no
others.  `TypeContract` says what every operation does to the types of the queued tasks: a push adds
one, and nothing else adds any.  Both queues keep it in every state, whatever else may have gone
wrong with them.  In Redis the type of a task stands in its body, so the question is who writes
bodies: `Store.KeepsBodies` is the relation between two stores of which the later has no body that
the earlier has not, and every operation but the push stays within it.
-/

namespace TaskScheduler

/-- A contract about the types of the tasks in a queue. -/
structure TypeContract (β : Type) [TaskQueue β] where
  /-- All queued tasks have types with a property. -/
  Holds : (String → Prop) → β → Prop
  /-- Types with a property have every weaker one. -/
  mono : ∀ {P Q q}, Holds P q → (∀ taskType, P taskType → Q taskType) → Holds Q q
  /-- A push adds the type of its task. -/
  push : ∀ {P q}, Holds P q → ∀ {e : Envelope}, P e.taskType → ∀ priority,
    Holds P (TaskQueue.push q e priority).2
  /-- A pop adds no type. -/
  pop : ∀ {P q}, Holds P q → ∀ now, Holds P (TaskQueue.pop q now).2
  /-- What is popped was queued. -/
  popped : ∀ {P q}, Holds P q → ∀ {now p}, (TaskQueue.pop q now).1 = .ok p → P p.taskType
  /-- A cancelation adds no type. -/
  cancel : ∀ {P q}, Holds P q → ∀ id now, Holds P (TaskQueue.cancel q id now).2
  /-- A report adds no type. -/
  report : ∀ {P q}, Holds P q → ∀ r now, Holds P (TaskQueue.report q r now).2

/-- A queue has come from another without a task of a type that was not there. -/
def TypeContract.AddsNone {β : Type} [TaskQueue β] (C : TypeContract β) (q q' : β) : Prop :=
  ∀ P, C.Holds P q → C.Holds P q'

/-! ### The queue in memory -/

namespace MemoryQueue

/-- What a pop of `MemoryQueue` hands out had a body, and all bodies that remain were there. -/
theorem pop_cases (m : MemoryQueue) :
    (∀ p, m.pop.1 = .ok p → ∃ id key e, m.queued.get? id = some (key, e) ∧ p = e.popped id) ∧
      ∀ id b, m.pop.2.queued.get? id = some b → m.queued.get? id = some b := by
  unfold pop
  split
  next => exact ⟨by simp, fun _ _ hget => hget⟩
  next id rest horder =>
    split
    next => exact ⟨by simp, fun _ _ hget => hget⟩
    next key e hbody =>
      refine ⟨fun p hp => ⟨id, key, e, hbody, (Except.ok.inj hp).symm⟩, fun id' b hget => ?_⟩
      exact FiniteMap.get?_of_get?_erase hget

/-- `MemoryQueue` keeps the contract: the types are those of its bodies. -/
def typeContract : TypeContract MemoryQueue where
  Holds P m := ∀ id key e, m.queued.get? id = some (key, e) → P e.taskType
  mono := fun h hPQ id key e hget => hPQ _ (h id key e hget)
  push := by
    intro P m h e he priority id key e' hget
    have hpush : (m.push e priority).2.queued.get? id = some (key, e') := hget
    rw [get?_push] at hpush
    split at hpush
    next =>
      obtain ⟨-, rfl⟩ := Prod.mk.inj (Option.some.inj hpush)
      exact he
    next => exact h id key e' hpush
  pop := by
    intro P m h now id key e hget
    exact h id key e (m.pop_cases.2 id (key, e) hget)
  popped := by
    intro P m h now p hp
    obtain ⟨id, key, e, hget, rfl⟩ := m.pop_cases.1 p hp
    exact h id key e hget
  cancel := by
    intro P m h id now id' key e hget
    have hcancel : (m.cancel id now).2.queued.get? id' = some (key, e) := hget
    cases hbody : m.queued.get? id with
    | none =>
      rw [cancel_none hbody] at hcancel
      exact h id' key e hcancel
    | some b =>
      rw [cancel_some hbody] at hcancel
      exact h id' key e (FiniteMap.get?_of_get?_erase hcancel)
  report := fun h r now => h

/-- An empty `MemoryQueue` has tasks of no type. -/
theorem typeContract_holds_new : typeContract.Holds (fun _ => False) {} := by
  intro id key e hget
  exact absurd hget (by simp)

end MemoryQueue

/-! ### Bodies in a store -/

namespace Redis.Store

variable {s s' s'' : Store} {key : Bytes}

/-- Every body of the later store stood at its key in the earlier one. -/
def KeepsBodies (s s' : Store) : Prop :=
  ∀ key body, s'.hget key (Bytes.ofString "data") = .ok (some body) →
    s.hget key (Bytes.ofString "data") = .ok (some body)

/-- A store `KeepsBodies` of itself. -/
theorem KeepsBodies.refl (s : Store) : KeepsBodies s s := fun _ _ h => h

/-- Two changes that bring no body bring none together: `KeepsBodies` is transitive. -/
theorem KeepsBodies.trans (h : KeepsBodies s s') (h' : KeepsBodies s' s'') : KeepsBodies s s'' :=
  fun key body hbody => h key body (h' key body hbody)

/-- A change of one key `KeepsBodies` if it brings none at this key. -/
theorem KeepsBodies.of_key (hother : ∀ k, k ≠ key → s'.get? k = s.get? k)
    (hself : ∀ fields body, s'.hash? key = .ok fields →
      fields.get? (Bytes.ofString "data") = some body →
        s.hget key (Bytes.ofString "data") = .ok (some body)) : KeepsBodies s s' := by
  intro k body hbody
  rcases eq_or_ne k key with rfl | hne
  · unfold hget at hbody
    split at hbody
    next fields hfields => exact hself fields body hfields (Except.ok.inj hbody)
    next => exact absurd hbody (by simp)
  · unfold hget at hbody ⊢
    rwa [hash?_congr (hother k hne)] at hbody

/-- `replace` by a value that is no hash brings no body. -/
theorem KeepsBodies.replace {v : Value} (hv : ∀ fields, v ≠ .hash fields) :
    KeepsBodies s (s.replace key v) := by
  refine .of_key (fun k hk => get?_replace_of_ne v hk) fun fields body hfields hbody => ?_
  unfold hash? at hfields
  rw [get?_replace] at hfields
  split at hfields
  next =>
    -- the value is not kept, so there are no fields
    obtain rfl := Except.ok.inj hfields
    exact absurd hbody (by simp)
  next e he =>
    split at he
    next => exact absurd he (by simp)
    next =>
      obtain rfl := Option.some.inj he
      cases v with
      | hash fields' => exact absurd rfl (hv fields')
      | string | zset => exact absurd hfields (by simp)

/-- `incr` brings no body. -/
theorem KeepsBodies.incr {n : Int} (h : s.incr key = .ok (n, s')) : KeepsBodies s s' := by
  rw [eq_replace_of_incr h]
  exact .replace fun _ => by simp

/-- `zadd` brings no body. -/
theorem KeepsBodies.zadd {score : Int} {member : Bytes} (h : s.zadd key score member = .ok s') :
    KeepsBodies s s' := by
  obtain ⟨members, rfl⟩ := eq_replace_of_zadd h
  exact .replace fun _ => by simp

/-- `zpopmin` brings no body. -/
theorem KeepsBodies.zpopmin {member : Bytes} (h : s.zpopmin key = .ok (some (member, s'))) :
    KeepsBodies s s' := by
  obtain ⟨members, rfl⟩ := eq_replace_of_zpopmin h
  exact .replace fun _ => by simp

/-- `zrem` brings no body. -/
theorem KeepsBodies.zrem {member : Bytes} {found : Bool} (h : s.zrem key member = .ok (found, s')) :
    KeepsBodies s s' := by
  obtain rfl | ⟨members, rfl⟩ := zrem_cases h
  · exact .refl s'
  · exact .replace fun _ => by simp

/-- `hset` brings no other body than the one among its fields. -/
theorem body_of_hset {fields : List (Bytes × Bytes)} (h : s.hset key fields = .ok s')
    {k body : Bytes} (hbody : s'.hget k (Bytes.ofString "data") = .ok (some body)) :
    s.hget k (Bytes.ofString "data") = .ok (some body) ∨
      k = key ∧ (Bytes.ofString "data", body) ∈ fields := by
  obtain ⟨hash, hhash, rfl⟩ := eq_replace_of_hset h
  unfold hget at hbody ⊢
  rcases eq_or_ne k key with rfl | hne
  · rw [hash?_replace] at hbody
    rw [hhash]
    by_cases hwritten : Bytes.ofString "data" ∈ fields.map Prod.fst
    · obtain ⟨v, hv, hget⟩ := FiniteMap.exists_get?_insertMany hwritten hash
      obtain rfl : v = body := Option.some.inj (hget.symm.trans (Except.ok.inj hbody))
      exact .inr ⟨rfl, hv⟩
    · dsimp only at hbody
      rw [FiniteMap.get?_insertMany_of_not_mem hwritten] at hbody
      exact .inl hbody
  · rw [hash?_congr (get?_replace_of_ne _ hne)] at hbody
    exact .inl hbody

/-- `hset` with fields that are no body brings none. -/
theorem KeepsBodies.hset {fields : List (Bytes × Bytes)} (h : s.hset key fields = .ok s')
    (hfields : Bytes.ofString "data" ∉ fields.map Prod.fst) : KeepsBodies s s' := by
  intro k body hbody
  refine (body_of_hset h hbody).resolve_right ?_
  rintro ⟨-, hmem⟩
  exact hfields (List.mem_map_of_mem hmem)

/-- `expire` brings no body. -/
theorem KeepsBodies.expire {present : Int} {secs : Nat} (h : s.expire present key secs = .ok s') :
    KeepsBodies s s' := by
  refine .of_key (fun k hk => get?_expire_of_ne h hk) fun fields body hfields hbody => ?_
  have hvalue : (s'.get? key).map Entry.value = (s.get? key).map Entry.value := by
    obtain ⟨-, rfl⟩ | ⟨e, he, rfl⟩ := expire_cases h
    · rfl
    · rw [FiniteMap.get?_insert_self, he]
      rfl
  unfold hget
  rw [← hash?_of_value hvalue, hfields]
  exact congrArg Except.ok hbody

/-- A lapse of a key brings no body. -/
theorem KeepsBodies.lapse (s : Store) (key : Bytes) : KeepsBodies s (s.lapse key) := by
  refine .of_key (fun k hk => get?_lapse_of_ne hk) fun fields body hfields hbody => ?_
  rcases hash?_lapse s key with hsame | hnone
  · unfold hget
    rw [← hsame, hfields]
    exact congrArg Except.ok hbody
  · obtain rfl := Except.ok.inj (hnone.symm.trans hfields)
    exact absurd hbody (by simp)

end Redis.Store

/-! ### Who writes bodies -/

namespace RedisQueue

open Redis

variable {q : RedisQueue} {s s' : Store}

/-- The only body that `push` brings is that of its task, at a `taskKey` of its queue. -/
theorem body_of_push {e : Envelope} {priority : Int64} {k body : Bytes}
    (hbody : (q.push e priority s).2.hget k (Bytes.ofString "data") = .ok (some body)) :
    s.hget k (Bytes.ofString "data") = .ok (some body) ∨
      (∃ n, k = q.taskKey (idText n)) ∧ body = Bytes.ofString e.encode := by
  unfold RedisQueue.push at hbody
  split at hbody
  next => exact .inl hbody
  next n s₁ hincr =>
    have h₁ := Store.KeepsBodies.incr hincr
    dsimp only at hbody
    split at hbody
    next => exact .inl (h₁ k body hbody)
    next s₂ hhset =>
      have hbody₂ : s₂.hget k (Bytes.ofString "data") = .ok (some body) := by
        split at hbody
        next => exact hbody
        next s₃ hzadd => exact Store.KeepsBodies.zadd hzadd k body hbody
      rcases Store.body_of_hset hhset hbody₂ with hold | ⟨hk, hmem⟩
      · exact .inl (h₁ k body hold)
      · refine .inr ⟨⟨_, hk⟩, ?_⟩
        have hid : Bytes.ofString "data" ≠ Bytes.ofString "id" := ofString_data_ne (by decide)
        have hstate : Bytes.ofString "data" ≠ Bytes.ofString "state" := ofString_data_ne (by decide)
        simpa [field, hid, hstate] using hmem

/-- `report` writes no body. -/
theorem keepsBodies_report (q : RedisQueue) (r : TaskReport) (now : Timestamp) (s : Store) :
    s.KeepsBodies (q.report r now s).2 := by
  have hfields : Bytes.ofString "data" ∉ (reportedFields (r.toRecord now)).map Prod.fst := by
    intro hwritten
    obtain ⟨name, hname, heq⟩ := fst_mem_reportedFields hwritten
    exact ofString_data_ne (by rintro rfl; revert hname; decide) heq
  unfold report
  dsimp only
  split
  next err hwritten =>
    split
    next s₂ hexpire =>
      rw [hwritten] at hexpire
      exact .expire hexpire
    next =>
      rw [hwritten]
      exact .refl s
  next s₁ err hwritten hexpire =>
    rw [hexpire, hwritten]
    exact .hset hwritten hfields
  next s₁ s₂ hwritten hexpire =>
    rw [hexpire]
    rw [hwritten] at hexpire
    exact Store.KeepsBodies.trans (.hset hwritten hfields) (.expire hexpire)

/-- `popScript` writes no body, and what it reads is a body of its queue. -/
theorem keepsBodies_popScript (q : RedisQueue) (s : Store) :
    s.KeepsBodies (q.popScript s).2 ∧ ∀ id body, (q.popScript s).1 = .ok (some (id, some body)) →
      ∃ n, id = idText n ∧ q.bodyOf s (idText n) = .ok (some body) := by
  have hstate : Bytes.ofString "data" ∉ [field "state" "popped"].map Prod.fst := by
    simpa [field] using ofString_data_ne (by decide)
  unfold popScript
  split
  next => exact ⟨.refl s, by simp⟩
  next => exact ⟨.refl s, by simp⟩
  next member s₁ hzpopmin =>
    have h₁ := Store.KeepsBodies.zpopmin hzpopmin
    split
    next => exact ⟨h₁, by simp⟩
    next n hn =>
      dsimp only
      split
      next => exact ⟨h₁, by simp⟩
      next data hdata =>
        split
        next => exact ⟨h₁, by simp⟩
        next s₂ hhset =>
          refine ⟨h₁.trans (.hset hhset hstate), fun id body hpop => ?_⟩
          obtain ⟨rfl, rfl⟩ := Prod.mk.inj (Option.some.inj (Except.ok.inj hpop))
          exact ⟨n, rfl, h₁ _ _ hdata⟩

/-- `take` writes no body. -/
theorem keepsBodies_take (q : RedisQueue) (s : Store) : s.KeepsBodies (q.take s).2 := by
  have hscript := (keepsBodies_popScript q s).1
  unfold take
  split <;> next heq => rwa [heq] at hscript

/-- `pop` writes no body. -/
theorem keepsBodies_pop (q : RedisQueue) (now : Timestamp) (s : Store) :
    s.KeepsBodies (q.pop now s).2 := by
  have htake := keepsBodies_take q s
  rw [pop_eq]
  split
  next id reason s₁ heq =>
    rw [heq] at htake
    exact htake.trans (keepsBodies_report q _ now s₁)
  next => exact htake

/-- What `pop` hands out is the envelope of a body of its queue. -/
theorem exists_body_of_pop {now : Timestamp} {p : PoppedTask} (h : (q.pop now s).1 = .ok p) :
    ∃ n body text e, q.bodyOf s (idText n) = .ok (some body) ∧ Bytes.toString? body = some text ∧
      Envelope.decode? text = some e ∧ p = e.popped (idText n) := by
  rw [pop_fst] at h
  unfold take at h
  split at h
  next => exact absurd h (by simp)
  next => exact absurd h (by simp)
  next id data s₁ hpop =>
    unfold taken at h
    split at h
    next => exact absurd h (by simp)
    next body =>
      split at h
      next => exact absurd h (by simp)
      next text htext =>
        split at h
        next e he =>
          obtain ⟨n, rfl, hbody⟩ := (keepsBodies_popScript q s).2 id body (congrArg Prod.fst hpop)
          exact ⟨n, body, text, e, hbody, htext, he, (Except.ok.inj h).symm⟩
        next => exact absurd h (by simp)

/-- `cancel` writes no body. -/
theorem keepsBodies_cancel (q : RedisQueue) (id : String) (now : Timestamp) (s : Store) :
    s.KeepsBodies (q.cancel id now s).2 := by
  have hfields : Bytes.ofString "data" ∉ (canceledFields now).map Prod.fst := by
    simp [canceledFields, field, ofString_data_ne]
  unfold RedisQueue.cancel
  split
  next => exact .refl s
  next n hn =>
    split
    next => exact .refl s
    next s₁ hzrem => exact .zrem hzrem
    next s₁ hzrem =>
      have h₁ := Store.KeepsBodies.zrem hzrem
      dsimp only
      split
      next => exact h₁
      next s₂ hhset =>
        have h₂ := h₁.trans (.hset hhset hfields)
        split
        next => exact h₂
        next s₃ hexpire => exact h₂.trans (.expire hexpire)

end RedisQueue

/-! ### The queue in Redis -/

namespace RedisConnection

open RedisQueue

/-- `carry` takes an operation to the store of a connection, or it fails and leaves the store. -/
theorem carry_cases {α : Type} (c : RedisConnection)
    (f : RedisQueue → Redis.Store → Except QueueError α × Redis.Store) :
    (∃ err, (c.carry f).1 = .error err ∧ (c.carry f).2.queue = c.queue ∧
        (c.carry f).2.store = c.store) ∨
      (c.carry f).1 = (f c.queue c.store).1 ∧ (c.carry f).2.queue = c.queue ∧
        (c.carry f).2.store = (f c.queue c.store).2 := by
  unfold carry
  split
  next => exact .inl ⟨_, rfl, rfl, rfl⟩
  next => exact .inr ⟨rfl, rfl, rfl⟩

/-- The bodies of the tasks under the prefix of a connection are those of tasks with these types. -/
def BodiesHave (P : String → Prop) (c : RedisConnection) : Prop :=
  ∀ n body text e, c.queue.bodyOf c.store (idText n) = .ok (some body) →
    Bytes.toString? body = some text → Envelope.decode? text = some e → P e.taskType

/-- An operation that `KeepsBodies` of the store leaves `BodiesHave`. -/
theorem BodiesHave.keepsBodies {P : String → Prop} {c c' : RedisConnection} (h : c.BodiesHave P)
    (hqueue : c'.queue = c.queue) (hstore : c.store.KeepsBodies c'.store) : c'.BodiesHave P := by
  intro n body text e hbody
  unfold bodyOf at hbody
  rw [hqueue] at hbody
  exact h n body text e (hstore _ _ hbody)

/-- An operation that a connection carries to its store leaves `BodiesHave` if it writes no body. -/
theorem BodiesHave.carry {P : String → Prop} {c : RedisConnection} (h : c.BodiesHave P) {α : Type}
    {f : RedisQueue → Redis.Store → Except QueueError α × Redis.Store}
    (hf : ∀ q s, Redis.Store.KeepsBodies s (f q s).2) : (c.carry f).2.BodiesHave P := by
  rcases c.carry_cases f with ⟨-, -, hqueue, hstore⟩ | ⟨-, hqueue, hstore⟩
  · exact h.keepsBodies hqueue (hstore ▸ .refl _)
  · exact h.keepsBodies hqueue (hstore ▸ hf _ _)

/-- An envelope that is read back from its text has the type of its task. -/
theorem taskType_eq_of_decode? {e e' : Envelope} {text : String}
    (htext : Bytes.toString? (Bytes.ofString e.encode) = some text)
    (h : Envelope.decode? text = some e') : e'.taskType = e.taskType := by
  rw [Bytes.toString?_ofString] at htext
  obtain rfl := Option.some.inj htext
  rw [e.decode?_encode_eq, Option.map_eq_some_iff] at h
  obtain ⟨data, -, rfl⟩ := h
  rfl

/-- `RedisConnection` keeps the contract: the types are those of the bodies under its prefix. -/
def typeContract : TypeContract RedisConnection where
  Holds P c := c.BodiesHave P
  mono := fun h hPQ n body text e hbody htext he => hPQ _ (h n body text e hbody htext he)
  push := by
    intro P c h e he priority
    have hcarry : TaskQueue.push c e priority = c.carry fun q => q.push e priority := rfl
    rw [hcarry]
    rcases c.carry_cases fun q => q.push e priority with
      ⟨-, -, hqueue, hstore⟩ | ⟨-, hqueue, hstore⟩
    · exact h.keepsBodies hqueue (hstore ▸ .refl _)
    · intro n body text e' hbody htext he'
      unfold bodyOf at hbody
      rw [hqueue, hstore] at hbody
      rcases body_of_push hbody with hold | ⟨-, rfl⟩
      · exact h n body text e' hold htext he'
      · rwa [taskType_eq_of_decode? htext he']
  pop := fun h now => h.carry fun q s => keepsBodies_pop q now s
  popped := by
    intro P c h now p hp
    have hcarry : (c.carry fun q => q.pop now).1 = .ok p := hp
    rcases c.carry_cases (fun q => q.pop now) with ⟨err, herr, -⟩ | ⟨hanswer, -⟩
    · exact absurd (herr.symm.trans hcarry) (by simp)
    · obtain ⟨n, body, text, e, hbody, htext, he, rfl⟩ :=
        exists_body_of_pop (hanswer.symm.trans hcarry)
      exact h n body text e hbody htext he
  cancel := fun h id now => h.carry fun q s => keepsBodies_cancel q id now s
  report := by
    intro P c h r now
    have hcarried := h.carry fun q s => keepsBodies_report q r now s
    -- a report that fails may lose the connection besides
    have hsame : (TaskQueue.report c r now).2.queue = (c.carry fun q => q.report r now).2.queue ∧
        (TaskQueue.report c r now).2.store = (c.carry fun q => q.report r now).2.store :=
      ⟨rfl, rfl⟩
    exact hcarried.keepsBodies hsame.1 (hsame.2 ▸ .refl _)

/-- A connection to an empty store has tasks of no type. -/
theorem typeContract_holds_new (q : RedisQueue) :
    typeContract.Holds (fun _ => False) { queue := q, store := .empty } := by
  intro n body text e hbody
  exact absurd hbody (by simp [bodyOf, Redis.Store.hget, Redis.Store.hash?])

/-- What happens to the store of a connection `AddsNone` to its types, unless it is a push under the
prefix of its queue. -/
theorem addsNone_event (c : RedisConnection) {event : RedisQueue.Event}
    (h : ∀ client e priority, event = .call client (.push e priority) →
      client.config.keyPrefix ≠ c.queue.config.keyPrefix) :
    typeContract.AddsNone c { c with store := (event.step c.store).2 } := by
  intro P hc
  cases event with
  | lapse key => exact hc.keepsBodies rfl (.lapse c.store key)
  | take client now => exact hc.keepsBodies rfl (keepsBodies_take client c.store)
  | call client call =>
    cases call with
    | push e priority =>
      intro n body text e' hbody
      rcases body_of_push hbody with hold | ⟨⟨m, hkey⟩, -⟩
      · exact hc n body text e' hold
      · -- the key would belong to both prefixes
        have hown : c.queue.Owns (c.queue.taskKey (idText n)) := .task (isHexId_idText n)
        have hforeign : client.Owns (c.queue.taskKey (idText n)) :=
          hkey ▸ .task (isHexId_idText m)
        exact absurd (hown.keyPrefix_eq hforeign) (h client e priority rfl)
    | pop now => exact hc.keepsBodies rfl (keepsBodies_pop client now c.store)
    | cancel id now => exact hc.keepsBodies rfl (keepsBodies_cancel client id now c.store)
    | report r now => exact hc.keepsBodies rfl (keepsBodies_report client r now c.store)
    | get | len | isEmpty => exact hc

end RedisConnection

end TaskScheduler
